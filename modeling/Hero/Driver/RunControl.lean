import Hero.Driver.Rab.State
import Hero.Framework.BitField
import Hero.Framework.Machine
import Mathlib.Data.Finset.Max

/-!
# Run control of the clusters

Starting and stopping clusters and the interrupts at the end of their computations, with the mask of
the clusters that are active.
-/

namespace Hero.Driver

open BitField

/-- `MAX_CLUSTERS` -/
def maxClusters : Nat := 16

/-- The clusters of a platform and the bits of their interrupts; without an interrupt register the
handler asks each cluster. -/
structure ClusterConfig where
  nClusters : Nat
  intrEoc0 : Nat
  hasIntrReg : Bool
  le_max : nClusters ≤ maxClusters
  eoc_le : intrEoc0 ≤ 7

def ClusterConfig.ofPlatform : Rab.Platform → ClusterConfig
  | .juno => ⟨4, 0, true, by decide, by decide⟩
  | .ariane => ⟨1, 0, false, by decide, by decide⟩
  | .zynqmp => ⟨1, 7, false, by decide, by decide⟩
  | _ => ⟨1, 0, true, by decide, by decide⟩

structure RunControl where
  gpioValue : BitVec 32
  activeClusterMask : BitVec 32
  deriving DecidableEq, Repr

inductive RunEvent where
  | writeGpio (value : BitVec 32)
  | reinitCompletion
  | complete
  | einval
  deriving DecidableEq, Repr

namespace RunControl

variable (cfg : ClusterConfig) (s : RunControl) (arg : BitVec 64) (ends : Finset Nat)

/-- `CLUSTER_MASK`, an `unsigned` -/
def clusterMask : BitVec 32 := bitMaskGen 32 cfg.nClusters

/-- `arg & (~CLUSTER_MASK)` -/
def rejected : Bool := arg &&& (~~~clusterMask cfg).zeroExtend 64 != 0#64

/-- `PULP_IOCTL_CTRL_START` -/
def ctrlStart : RunControl × List RunEvent :=
  if rejected cfg arg then (s, [.einval])
  else
    let gpioValue := s.gpioValue ||| arg.setWidth 32
    (⟨gpioValue, arg.setWidth 32⟩, [.reinitCompletion, .writeGpio gpioValue])

/-- `PULP_IOCTL_CTRL_STOP` -/
def ctrlStop : RunControl × List RunEvent :=
  if rejected cfg arg then (s, [.einval])
  else
    let gpioValue := s.gpioValue &&& ~~~(arg.setWidth 32)
    (⟨gpioValue, 0#32⟩, [.writeGpio gpioValue])

/-- The value of the interrupt register when clusters report their ends.  The hardware sets one bit
for each; without a register the handler sets the bits. -/
def intrRegValue : BitVec 64 :=
  (List.range cfg.nClusters).foldl (fun value i =>
    if i ∈ ends then
      let start := cfg.intrEoc0 + i
      value ||| bfMaskGen 64 start (if cfg.hasIntrReg then 1 else start + 1)
    else value) 0#64

/-- One cluster in the loop of `pulp_isr` -/
def finish (value : BitVec 64) (r : RunControl × List RunEvent) (i : Nat) :
    RunControl × List RunEvent :=
  if bfGet value (cfg.intrEoc0 + i) 1 ≠ 0#64 then
    let mask := r.1.activeClusterMask &&& ~~~bfMaskGen 32 i 1
    ({ r.1 with activeClusterMask := mask }, r.2 ++ if mask = 0#32 then [.complete] else [])
  else r

/-- The part of `pulp_isr` for the end of computations -/
def isrEoc : RunControl × List RunEvent :=
  let value := intrRegValue cfg ends
  if bfGet value cfg.intrEoc0 cfg.nClusters ≠ 0#64 then
    (List.range cfg.nClusters).foldl (finish cfg value) (s, [])
  else (s, [])

end RunControl

inductive RunOp where
  | start (arg : BitVec 64)
  | stop (arg : BitVec 64)
  | eoc (ends : Finset Nat)

def RunControl.step (cfg : ClusterConfig) (s : RunControl) : RunOp → RunControl × List RunEvent
  | .start arg => s.ctrlStart cfg arg
  | .stop arg => s.ctrlStop cfg arg
  | .eoc ends => s.isrEoc cfg ends

/-- What an operation does to the clusters that were started and have neither finished nor been
stopped. -/
def RunOp.live (cfg : ClusterConfig) (live : Finset Nat) : RunOp → Finset Nat
  | .start arg => if RunControl.rejected cfg arg then live else live ∪ members (arg.setWidth 32)
  | .stop arg => if RunControl.rejected cfg arg then live else live \ members (arg.setWidth 32)
  | .eoc ends => live \ ends

/-- The driver's state beside the clusters that are live. -/
structure Tracked where
  ctrl : RunControl
  live : Finset Nat

def runMachine (cfg : ClusterConfig) : Machine Tracked RunOp RunEvent := fun s op =>
  let r := s.ctrl.step cfg op
  some (⟨r.1, op.live cfg s.live⟩, r.2)

/-- The state after loading the driver. -/
def Tracked.init : Tracked := ⟨⟨0#32, 0#32⟩, ∅⟩

/-- The active clusters are the live ones, and the waiter is told when the last one has gone. -/
def RunOp.Good (cfg : ClusterConfig) (s : Tracked) (op : RunOp) : Prop :=
  ∀ s' es, runMachine cfg s op = some (s', es) →
    members s'.ctrl.activeClusterMask = s'.live ∧
      es.count .complete = if s.live ≠ ∅ ∧ s'.live = ∅ then 1 else 0

/-- The clusters whose bits are set when `ends` report their ends. -/
def raised (cfg : ClusterConfig) (ends : Finset Nat) : Finset Nat :=
  (Finset.range cfg.nClusters).filter fun j =>
    ∃ i ∈ ends, i ≤ j ∧ j ≤ if cfg.hasIntrReg then i else 2 * i + cfg.intrEoc0

/-- A start names all active clusters again, nothing is active at a stop, and an interrupt raises the
bits of no active clusters but those that end, and of none behind the last active one. -/
def RunOp.Careful (cfg : ClusterConfig) (s : Tracked) : RunOp → Prop
  | .start arg => RunControl.rejected cfg arg = true ∨
      members s.ctrl.activeClusterMask ⊆ members (arg.setWidth 32 : BitVec 32)
  | .stop arg => RunControl.rejected cfg arg = true ∨ s.ctrl.activeClusterMask = 0#32
  | .eoc ends =>
    let active := members s.ctrl.activeClusterMask
    active ∩ raised cfg ends ⊆ ends ∧
      (active ⊆ raised cfg ends → ∀ j ∈ raised cfg ends, ∃ a ∈ active, j ≤ a)

instance (cfg : ClusterConfig) (s : Tracked) (op : RunOp) : Decidable (op.Careful cfg s) :=
  match op with
  | .start _ | .stop _ => inferInstanceAs (Decidable (_ ∨ _))
  | .eoc _ => inferInstanceAs (Decidable (_ ∧ _))

namespace RunControl

variable {cfg : ClusterConfig} {s : RunControl} {arg : BitVec 64} {ends : Finset Nat}

private theorem getLsbD_foldl_or {w : Nat} (p : Nat → Bool) (mask : Nat → BitVec w) (l : List Nat)
    (value : BitVec w) (j : Nat) :
    (l.foldl (fun value i => if p i then value ||| mask i else value) value).getLsbD j =
      (value.getLsbD j || l.any fun i => p i && (mask i).getLsbD j) := by
  induction l generalizing value with
  | nil => simp
  | cons i l ih =>
    rw [List.foldl_cons, ih, List.any_cons]
    cases p i <;> simp [Bool.or_assoc]

/-- The bits the handler looks at. -/
theorem getLsbD_intrRegValue {j : Nat} (hj : j < cfg.nClusters) :
    (intrRegValue cfg ends).getLsbD (cfg.intrEoc0 + j) = decide (j ∈ raised cfg ends) := by
  have hn := cfg.le_max
  have heoc := cfg.eoc_le
  have hfold := getLsbD_foldl_or (fun i => decide (i ∈ ends))
    (fun i => bfMaskGen 64 (cfg.intrEoc0 + i) (if cfg.hasIntrReg then 1 else cfg.intrEoc0 + i + 1))
    (List.range cfg.nClusters) 0#64 (cfg.intrEoc0 + j)
  simp only [decide_eq_true_eq] at hfold
  rw [intrRegValue, hfold, BitVec.getLsbD_zero, Bool.false_or, Bool.eq_iff_iff]
  simp only [List.any_eq_true, List.mem_range, getLsbD_bfMaskGen, Bool.and_eq_true,
    decide_eq_true_eq, raised, Finset.mem_filter, Finset.mem_range, hj, true_and]
  simp only [maxClusters] at hn
  constructor
  · intro h
    obtain ⟨i, hi, hends, hle, hlt, -⟩ := h
    refine ⟨i, hends, by omega, ?_⟩
    split at hlt <;> simp_all <;> omega
  · intro h
    obtain ⟨i, hends, hle, hlt⟩ := h
    refine ⟨i, by omega, hends, by omega, ?_, by omega⟩
    split at hlt <;> simp_all <;> omega

private theorem bfGet_one {w : Nat} (y : BitVec w) (start : Nat) :
    bfGet y start 1 ≠ 0#w ↔ y.getLsbD start = true := by
  rw [Ne, bfGet_eq_zero_iff]
  constructor
  · intro h
    by_contra hno
    apply h
    intro j hj
    rw [show j = 0 by omega, Nat.add_zero]
    exact Bool.eq_false_iff.mpr hno
  · intro h hno
    have h0 := hno 0 Nat.one_pos
    rw [Nat.add_zero, h] at h0
    cases h0

private theorem members_bit (i : Nat) (hi : i < 32) : members (bfMaskGen 32 i 1) = {i} := by
  ext j
  simp only [mem_members, getLsbD_bfMaskGen, decide_eq_true_eq, Finset.mem_singleton]
  omega

private theorem filter_lt_succ (S : Finset Nat) (k : Nat) : S.filter (· < k + 1) =
    if k ∈ S then insert k (S.filter (· < k)) else S.filter (· < k) := by
  ext j
  split <;> simp <;> grind

/-- The clusters at which the loop calls `complete`. -/
private def completions (cfg : ClusterConfig) (active ends : Finset Nat) : Finset Nat :=
  (raised cfg ends).filter fun j => active ⊆ raised cfg ends ∧ ∀ a ∈ active, a ≤ j

/-- The first `k` clusters of the loop. -/
private theorem foldl_finish (cfg : ClusterConfig) (s : RunControl) (ends : Finset Nat) (k : Nat)
    (hk : k ≤ cfg.nClusters) :
    let r := (List.range k).foldl (finish cfg (intrRegValue cfg ends)) (s, [])
    members r.1.activeClusterMask =
        members s.activeClusterMask \ (raised cfg ends).filter (· < k) ∧
      r.2.count .complete =
        ((completions cfg (members s.activeClusterMask) ends).filter (· < k)).card := by
  induction k with
  | zero => simp
  | succ k ih =>
    obtain ⟨hmask, hcount⟩ := ih (by omega)
    rw [List.range_succ, List.foldl_append]
    generalize (List.range k).foldl (finish cfg (intrRegValue cfg ends)) (s, []) = r at hmask hcount
    change members (finish cfg _ r k).1.activeClusterMask = _ ∧ (finish cfg _ r k).2.count _ = _
    have hn := cfg.le_max
    simp only [maxClusters] at hn
    have hraised := filter_lt_succ (raised cfg ends) k
    have hcompl := filter_lt_succ (completions cfg (members s.activeClusterMask) ends) k
    have hbit : (intrRegValue cfg ends).getLsbD (cfg.intrEoc0 + k) = decide (k ∈ raised cfg ends) :=
      getLsbD_intrRegValue hk
    rw [finish]
    by_cases hmem : k ∈ raised cfg ends
    · rw [if_pos ((bfGet_one _ _).mpr (by simpa [hmem] using hbit))]
      have hmask' : members (r.1.activeClusterMask &&& ~~~bfMaskGen 32 k 1) =
          members s.activeClusterMask \ (raised cfg ends).filter (· < k + 1) := by
        rw [members_and_not, hmask, members_bit k (by omega), hraised, if_pos hmem]
        ext j
        simp only [Finset.mem_sdiff, Finset.mem_insert, Finset.mem_singleton]
        tauto
      have hempty : r.1.activeClusterMask &&& ~~~bfMaskGen 32 k 1 = 0#32 ↔
          k ∈ completions cfg (members s.activeClusterMask) ends := by
        rw [← members_eq_empty, hmask', Finset.sdiff_eq_empty_iff_subset, completions,
          Finset.mem_filter]
        constructor
        · intro h
          refine ⟨hmem, fun a ha => Finset.mem_of_mem_filter a (h ha), ?_⟩
          intro a ha
          exact Nat.lt_succ_iff.mp (Finset.mem_filter.mp (h ha)).2
        · intro h a ha
          exact Finset.mem_filter.mpr ⟨h.2.1 ha, Nat.lt_succ_of_le (h.2.2 a ha)⟩
      refine ⟨hmask', ?_⟩
      change (r.2 ++ _).count _ = _
      rw [List.count_append, hcount, hcompl]
      by_cases hdone : r.1.activeClusterMask &&& ~~~bfMaskGen 32 k 1 = 0#32
      · rw [if_pos hdone, if_pos (hempty.mp hdone), Finset.card_insert_of_notMem (by simp)]
        rfl
      · rw [if_neg hdone, if_neg fun h => hdone (hempty.mpr h)]
        rfl
    · rw [if_neg fun h => hmem (by simpa [(bfGet_one _ _).mp h] using hbit)]
      have hnot : k ∉ completions cfg (members s.activeClusterMask) ends :=
        fun h => hmem (Finset.mem_of_mem_filter k h)
      rw [hraised, hcompl, if_neg hmem, if_neg hnot]
      exact ⟨hmask, hcount⟩

private theorem raised_lt {j : Nat} (hj : j ∈ raised cfg ends) : j < cfg.nClusters :=
  Finset.mem_range.mp (Finset.mem_of_mem_filter j hj)

/-- What the interrupt does. -/
private theorem isrEoc_spec : members (s.isrEoc cfg ends).1.activeClusterMask =
      members s.activeClusterMask \ raised cfg ends ∧
    (s.isrEoc cfg ends).2.count .complete =
      (completions cfg (members s.activeClusterMask) ends).card := by
  have hall : ∀ S ⊆ raised cfg ends, S.filter (· < cfg.nClusters) = S := fun S hS =>
    Finset.filter_true_of_mem fun _ hj => raised_lt (hS hj)
  rw [isrEoc]
  by_cases hnone : bfGet (intrRegValue cfg ends) cfg.intrEoc0 cfg.nClusters = 0#64
  · rw [if_neg (not_not.mpr hnone)]
    have hraised : raised cfg ends = ∅ := by
      apply Finset.eq_empty_of_forall_notMem
      intro j hj
      have hbit : (intrRegValue cfg ends).getLsbD (cfg.intrEoc0 + j) = decide (j ∈ raised cfg ends) :=
        getLsbD_intrRegValue (raised_lt hj)
      rw [(bfGet_eq_zero_iff _ _ _).mp hnone j (raised_lt hj)] at hbit
      simp [hj] at hbit
    simp [hraised, completions]
  · rw [if_pos hnone]
    have hloop := foldl_finish cfg s ends cfg.nClusters le_rfl
    rw [hall _ Finset.Subset.rfl, hall (completions cfg _ ends) (Finset.filter_subset _ _)] at hloop
    exact hloop

/-- How often `complete` is called, compared with what is asked. -/
private theorem card_completions_iff {active : Finset Nat}
    (hends : active \ raised cfg ends = active \ ends) :
    (completions cfg active ends).card = (if active ≠ ∅ ∧ active \ ends = ∅ then 1 else 0) ↔
      (active ⊆ raised cfg ends → ∀ j ∈ raised cfg ends, ∃ a ∈ active, j ≤ a) := by
  simp only [← hends, Finset.sdiff_eq_empty_iff_subset]
  by_cases hsub : active ⊆ raised cfg ends
  · have hmem : ∀ j, j ∈ completions cfg active ends ↔
        j ∈ raised cfg ends ∧ ∀ a ∈ active, a ≤ j := by
      intro j
      simp [completions, hsub]
    by_cases hactive : active = ∅
    · rw [if_neg fun h => h.1 hactive, Finset.card_eq_zero, Finset.eq_empty_iff_forall_notMem]
      subst hactive
      simp [hmem]
    · obtain ⟨m, hm, hmax⟩ := active.exists_max_image id (Finset.nonempty_iff_ne_empty.mpr hactive)
      simp only [id] at hmax
      have hmin : m ∈ completions cfg active ends := (hmem m).mpr ⟨hsub hm, hmax⟩
      rw [if_pos ⟨hactive, hsub⟩, Finset.card_eq_one]
      constructor
      · intro h _ j hj
        obtain ⟨c, hc⟩ := h
        refine ⟨m, hm, ?_⟩
        by_contra hlt
        have hjc : j ∈ completions cfg active ends :=
          (hmem j).mpr ⟨hj, fun a ha => (hmax a ha).trans (by omega)⟩
        rw [hc, Finset.mem_singleton] at hjc hmin
        omega
      · intro h
        refine ⟨m, Finset.eq_singleton_iff_unique_mem.mpr ⟨hmin, ?_⟩⟩
        intro j hj
        obtain ⟨hraised, hge⟩ := (hmem j).mp hj
        obtain ⟨a, ha, hle⟩ := h hsub j hraised
        have hmj := hge m hm
        have ham := hmax a ha
        omega
  · have hnone : completions cfg active ends = ∅ :=
      Finset.filter_false_of_mem fun _ _ hno => hsub hno.1
    simp [hnone, hsub]

/-- Arguments that are not rejected name clusters of the platform. -/
private theorem members_arg (h : rejected cfg arg = false) :
    members (arg.setWidth 32 : BitVec 32) ⊆ Finset.range cfg.nClusters := by
  intro j hj
  rw [mem_members, BitVec.getLsbD_setWidth, Bool.and_eq_true, decide_eq_true_eq] at hj
  rw [Finset.mem_range]
  by_contra hle
  have hzero : arg &&& (~~~clusterMask cfg).zeroExtend 64 = 0#64 := by
    simpa [rejected] using h
  have hbit := congrArg (BitVec.getLsbD · j) hzero
  simp [clusterMask, getLsbD_bitMaskGen, hj.1, hj.2, hle, show j < 64 by omega,
    -BitVec.getLsbD_eq_getElem] at hbit

end RunControl

/-- The active clusters are those that are live. -/
structure Tracked.Inv (cfg : ClusterConfig) (s : Tracked) : Prop where
  active : members s.ctrl.activeClusterMask = s.live
  range : s.live ⊆ Finset.range cfg.nClusters

open RunControl

private theorem good_def {cfg : ClusterConfig} {s : Tracked} (op : RunOp) : op.Good cfg s ↔
    members (s.ctrl.step cfg op).1.activeClusterMask = op.live cfg s.live ∧
      (s.ctrl.step cfg op).2.count .complete =
        if s.live ≠ ∅ ∧ op.live cfg s.live = ∅ then 1 else 0 := by
  constructor
  · intro h
    exact h ⟨(s.ctrl.step cfg op).1, op.live cfg s.live⟩ (s.ctrl.step cfg op).2 rfl
  · intro h s' es hstep
    cases hstep
    exact h

/-- A rejected argument changes nothing. -/
private theorem rejected_good {cfg : ClusterConfig} {s : Tracked} (h : s.Inv cfg)
    {r : RunControl × List RunEvent} (hr : r = (s.ctrl, [.einval])) :
    members r.1.activeClusterMask = s.live ∧
      r.2.count .complete = if s.live ≠ ∅ ∧ s.live = ∅ then 1 else 0 := by
  subst hr
  simp [h.active]

theorem Tracked.Inv.good_iff {cfg : ClusterConfig} {s : Tracked} (h : s.Inv cfg) (op : RunOp) :
    op.Good cfg s ↔ op.Careful cfg s := by
  rw [good_def]
  cases op with
  | start arg =>
    by_cases hrej : rejected cfg arg = true
    · have hlive : (RunOp.start arg).live cfg s.live = s.live := if_pos hrej
      rw [hlive]
      exact iff_of_true (rejected_good h (if_pos hrej)) (Or.inl hrej)
    · have hlive : (RunOp.start arg).live cfg s.live = s.live ∪ members (arg.setWidth 32 : BitVec 32) :=
        if_neg hrej
      have hstep : s.ctrl.step cfg (.start arg) = (⟨s.ctrl.gpioValue ||| arg.setWidth 32,
          arg.setWidth 32⟩, [.reinitCompletion, .writeGpio (s.ctrl.gpioValue ||| arg.setWidth 32)]) :=
        if_neg hrej
      have hempty : ¬ (s.live ≠ ∅ ∧ s.live ∪ members (arg.setWidth 32 : BitVec 32) = ∅) :=
        fun hno => hno.1 (Finset.union_eq_empty.mp hno.2).1
      rw [hlive, hstep, if_neg hempty, RunOp.Careful, h.active, or_iff_right hrej,
        ← Finset.union_eq_right, eq_comm]
      exact and_iff_left rfl
  | stop arg =>
    by_cases hrej : rejected cfg arg = true
    · have hlive : (RunOp.stop arg).live cfg s.live = s.live := if_pos hrej
      rw [hlive]
      exact iff_of_true (rejected_good h (if_pos hrej)) (Or.inl hrej)
    · have hlive : (RunOp.stop arg).live cfg s.live = s.live \ members (arg.setWidth 32 : BitVec 32) :=
        if_neg hrej
      have hstep : s.ctrl.step cfg (.stop arg) = (⟨s.ctrl.gpioValue &&& ~~~(arg.setWidth 32), 0#32⟩,
          [.writeGpio (s.ctrl.gpioValue &&& ~~~(arg.setWidth 32))]) := if_neg hrej
      have hzero : members (0#32) = ∅ := members_eq_empty.mpr rfl
      rw [hlive, hstep, RunOp.Careful, or_iff_right hrej, ← members_eq_empty, h.active]
      change members (0#32) = _ ∧ 0 = _ ↔ _
      rw [hzero]
      constructor
      · intro hgood
        by_contra hsome
        have hcount := hgood.2
        rw [if_pos ⟨hsome, hgood.1.symm⟩] at hcount
        cases hcount
      · intro hnone
        rw [hnone, if_neg fun hno => hno.1 rfl]
        exact ⟨(Finset.empty_sdiff _).symm, rfl⟩
  | eoc ends =>
    have hspec : members (s.ctrl.isrEoc cfg ends).1.activeClusterMask =
        members s.ctrl.activeClusterMask \ raised cfg ends ∧
      (s.ctrl.isrEoc cfg ends).2.count .complete =
        (completions cfg (members s.ctrl.activeClusterMask) ends).card := isrEoc_spec
    have hsame : s.live \ raised cfg ends = s.live \ ends ↔ s.live ∩ raised cfg ends ⊆ ends := by
      constructor
      · intro heq j hj
        rw [Finset.mem_inter] at hj
        by_contra hno
        have hmem : j ∈ s.live \ raised cfg ends := by
          rw [heq]
          exact Finset.mem_sdiff.mpr ⟨hj.1, hno⟩
        exact (Finset.mem_sdiff.mp hmem).2 hj.2
      · intro hsub
        ext j
        rw [Finset.mem_sdiff, Finset.mem_sdiff]
        constructor
        · intro hj
          refine ⟨hj.1, fun hends => hj.2 ?_⟩
          have hlt := Finset.mem_range.mp (h.range hj.1)
          rw [raised, Finset.mem_filter, Finset.mem_range]
          refine ⟨hlt, j, hends, le_rfl, ?_⟩
          split <;> omega
        · intro hj
          exact ⟨hj.1, fun hraised => hj.2 (hsub (Finset.mem_inter.mpr ⟨hj.1, hraised⟩))⟩
    simp only [RunOp.Careful, RunControl.step, RunOp.live, hspec.1, hspec.2, h.active]
    rw [← hsame]
    exact and_congr_right card_completions_iff

theorem Tracked.Inv.step {cfg : ClusterConfig} {s s' : Tracked} {op : RunOp} {es : List RunEvent}
    (h : s.Inv cfg) (hok : op.Careful cfg s) (hstep : runMachine cfg s op = some (s', es)) :
    s'.Inv cfg := by
  refine ⟨((h.good_iff op).mpr hok s' es hstep).1, ?_⟩
  cases hstep
  cases op with
  | start arg =>
    simp only [RunOp.live]
    split
    · exact h.range
    · next hrej => exact Finset.union_subset h.range (members_arg (Bool.eq_false_iff.mpr hrej))
  | stop arg =>
    simp only [RunOp.live]
    split
    · exact h.range
    · exact Finset.sdiff_subset.trans h.range
  | eoc ends => exact Finset.sdiff_subset.trans h.range

/-- In a run from loading the driver on, the active clusters are those that were started and have
neither finished nor been stopped, and the waiter is told exactly when the last one has gone, if and
only if no operation is one that goes wrong. -/
theorem run_control_iff (cfg : ClusterConfig) (ops : List RunOp) :
    Machine.Along (runMachine cfg) (fun s op => op.Good cfg s) .init ops ↔
      Machine.Along (runMachine cfg) (fun s op => op.Careful cfg s) .init ops := by
  refine Machine.along_iff (fun _ _ _ _ hinv hok hstep => Tracked.Inv.step hinv hok hstep)
    (fun _ op hinv => Tracked.Inv.good_iff hinv op) ⟨?_, Finset.empty_subset _⟩
  decide

example : Machine.Along (runMachine (.ofPlatform .juno))
    (fun s op => op.Careful (.ofPlatform .juno) s) .init
    [.start 7#64, .eoc {0}, .start 6#64, .eoc {1, 2}, .stop 7#64] := by
  decide +kernel

/-- The mask is overwritten while a cluster is still running. -/
theorem not_run_control_second_start : ¬ Machine.Along (runMachine (.ofPlatform .juno))
    (fun s op => op.Good (.ofPlatform .juno) s) .init [.start 1#64, .start 2#64] := by
  intro h
  have hsecond := (h.2 _ _ rfl).1 _ _ rfl
  have hactive := hsecond.1
  revert hactive
  decide +kernel

end Hero.Driver
