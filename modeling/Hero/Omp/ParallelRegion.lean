import Hero.Framework.Machine
import Hero.Omp.DynamicLoop
import Mathlib.Data.List.Count
import Mathlib.Data.Nat.Bitwise

/-!
# Parallel regions

How many threads a parallel region gets: the clause that is pushed before it, the plain team and
partial ones with their own masks.
-/

namespace Hero.Omp

/-- `omp_t` with the core epochs, barrier 0 and the dispatcher of the event unit -/
structure OmpData where
  nbThreads : Nat
  numThreads : Int
  maxThreads : Int
  coreMask : Nat
  barrier : Nat
  dispatch : Nat
  team : Team
  coreEpoch : Nat → Int

/-- A region as its threads see it: the cores that run the function, what `omp_get_num_threads`
returns, and the cores the final barrier waits for. -/
structure Region where
  runs : List Nat
  numThreads : Nat
  barrier : Nat

/-- `1 << n` of the core: it takes the shift amount modulo 32. -/
def shifted (n : Int) : Nat := 2 ^ (n % 32).toNat

namespace OmpData

variable (omp : OmpData)

/-- `__rt_omp_init`, then the part of the offload manager that sets cores aside for handling misses -/
def start (nbCores nbHandlers : Nat) (team : Team) : OmpData where
  nbThreads := nbCores
  numThreads := nbCores - min nbHandlers (nbCores - 1)
  maxThreads := nbCores - min nbHandlers (nbCores - 1)
  coreMask := (2 ^ nbCores - 1) % 2 ^ 16
  barrier := 2 ^ nbCores - 1
  dispatch := 2 ^ nbCores - 1
  team := { team with loopEpoch := 0, loopIsSetup := false }
  coreEpoch := fun _ => 0

/-- `__kmpc_push_num_threads` -/
def pushNumThreads (numThreads : Int) : OmpData :=
  let omp := { omp with numThreads }
  if omp.numThreads > omp.maxThreads then { omp with numThreads := omp.maxThreads } else omp

/-- `parallelRegionExec`: the master runs the function, and so does every other core that the
dispatcher passes it to. -/
def parallelRegionExec : Region where
  runs := 0 :: (List.range 32).filter fun c => c ≠ 0 ∧ omp.dispatch.testBit c
  numThreads := omp.nbThreads
  barrier := omp.barrier

/-- What `partialParallelRegion` does before and after the region -/
def partialEnter (numThreads : Int) : OmpData :=
  { omp with
    barrier := shifted numThreads - 1
    dispatch := shifted numThreads - 1
    nbThreads := (numThreads % 256).toNat }

def partialLeave (nbCores : Nat) : OmpData :=
  { omp with
    barrier := omp.coreMask
    dispatch := omp.coreMask
    team := { omp.team with loopEpoch := 0 }
    coreEpoch := fun i => if i < omp.nbThreads then 0 else omp.coreEpoch i
    nbThreads := nbCores }

def partialParallelRegion (numThreads : Int) : Region × OmpData :=
  let nbCores := omp.nbThreads
  let omp := omp.partialEnter numThreads
  (omp.parallelRegionExec, omp.partialLeave nbCores)

/-- The test of `parallelRegion` for a plain team -/
def plain (numThreads : Int) : Bool := shifted numThreads &&& omp.coreMask ≤ 1

def parallelRegion (numThreads : Int) : Region × OmpData :=
  if omp.plain numThreads then (omp.parallelRegionExec, omp)
  else omp.partialParallelRegion numThreads

/-- `__kmpc_fork_call`, but for the arguments -/
def forkCall : Region × OmpData := omp.parallelRegion omp.numThreads

end OmpData

/-- The runtime, and the clause that was pushed for the next region -/
structure ForkState where
  omp : OmpData
  clause : Option Int

inductive ForkOp where
  | pushNumThreads (numThreads : Int)
  | forkCall

def forkMachine : Machine ForkState ForkOp Region := fun s op =>
  match op with
  | .pushNumThreads n => some (⟨s.omp.pushNumThreads n, some n⟩, [])
  | .forkCall => some (⟨s.omp.forkCall.2, none⟩, [s.omp.forkCall.1])

/-- The team a region ought to get -/
def ForkState.teamSize (s : ForkState) : Int :=
  match s.clause with
  | some n => min n s.omp.maxThreads
  | none => s.omp.maxThreads

/-- A region is run once by each of the first `k` cores, which the barrier waits for. -/
structure Region.IsTeam (r : Region) (k : Int) : Prop where
  runs : ∀ c, r.runs.count c = if (c : Int) < k then 1 else 0
  numThreads : r.numThreads = k
  barrier : ∀ c, r.barrier.testBit c = decide ((c : Int) < k)

structure OmpData.SameTeam (omp omp' : OmpData) : Prop where
  nbThreads : omp'.nbThreads = omp.nbThreads
  coreMask : omp'.coreMask = omp.coreMask
  barrier : omp'.barrier = omp.barrier
  dispatch : omp'.dispatch = omp.dispatch

def ForkOp.Good (s : ForkState) : ForkOp → Prop
  | .pushNumThreads _ => True
  | .forkCall => s.omp.forkCall.1.IsTeam s.teamSize ∧ s.omp.SameTeam s.omp.forkCall.2

/-- A region has a clause for at least one thread, or none and the last one was for all of them. -/
def ForkOp.Fresh (s : ForkState) : ForkOp → Prop
  | .pushNumThreads _ => True
  | .forkCall => (∀ n ∈ s.clause, 1 ≤ n) ∧ (s.clause = none → s.omp.numThreads = s.omp.maxThreads)

instance (s : ForkState) : ∀ op, Decidable (ForkOp.Fresh s op)
  | .pushNumThreads _ => isTrue trivial
  | .forkCall => inferInstanceAs (Decidable (_ ∧ _))

theorem shifted_eq {n : Int} {k : Nat} (hn : n = k) (hk : k < 32) : shifted n = 2 ^ k := by
  have hmod : (n % 32).toNat = k := by omega
  rw [shifted, hmod]

/-- The cores of a mask that holds the master -/
theorem count_parallelRegionExec (omp : OmpData) (c : Nat) :
    omp.parallelRegionExec.runs.count c =
      if c = 0 ∨ c < 32 ∧ omp.dispatch.testBit c = true then 1 else 0 := by
  have hnodup : omp.parallelRegionExec.runs.Nodup := by
    simp [OmpData.parallelRegionExec, List.nodup_range.filter]
  rw [hnodup.count]
  congr 1
  by_cases hc : c = 0
  · simp [OmpData.parallelRegionExec, hc]
  · simp [OmpData.parallelRegionExec, hc]

theorem isTeam_parallelRegionExec {omp : OmpData} {k : Nat} (hpos : 1 ≤ k) (hle : k < 32)
    (hnb : omp.nbThreads = k) (hdispatch : omp.dispatch = 2 ^ k - 1)
    (hbarrier : omp.barrier = 2 ^ k - 1) : omp.parallelRegionExec.IsTeam k := by
  refine ⟨?_, ?_, ?_⟩
  · intro c
    rw [count_parallelRegionExec, hdispatch, Nat.testBit_two_pow_sub_one]
    congr 1
    simp only [decide_eq_true_eq, eq_iff_iff, Nat.cast_lt]
    omega
  · rw [← hnb]
    rfl
  · intro c
    simp [OmpData.parallelRegionExec, hbarrier, Nat.testBit_two_pow_sub_one]

/-- The plain team is the one of all cores. -/
theorem plain_iff {omp : OmpData} {nbCores k : Nat} {n : Int}
    (hmask : omp.coreMask = 2 ^ nbCores - 1) (hn : n = k) (hpos : 1 ≤ k) (hle : k ≤ nbCores)
    (hmax : nbCores < 32) : omp.plain n = true ↔ k = nbCores := by
  rw [OmpData.plain, decide_eq_true_eq, shifted_eq hn (by omega), hmask, Nat.and_two_pow_sub_one_eq_mod]
  constructor
  · intro hplain
    by_contra hne
    have hlt : 2 ^ k < 2 ^ nbCores := Nat.pow_lt_pow_right (by decide) (by omega)
    rw [Nat.mod_eq_of_lt hlt] at hplain
    have htwo : 2 ^ 1 ≤ 2 ^ k := Nat.pow_le_pow_right (by decide) hpos
    omega
  · intro heq
    subst heq
    simp

/-- The masks and the size of the team between regions, and the size the next one gets -/
structure TeamInv (nbCores : Nat) (s : ForkState) : Prop where
  cores : nbCores ≤ 16
  nbThreads : s.omp.nbThreads = nbCores
  coreMask : s.omp.coreMask = 2 ^ nbCores - 1
  barrier : s.omp.barrier = 2 ^ nbCores - 1
  dispatch : s.omp.dispatch = 2 ^ nbCores - 1
  maxThreads : 1 ≤ s.omp.maxThreads ∧ s.omp.maxThreads ≤ nbCores
  clause : ∀ n ∈ s.clause, s.omp.numThreads = min n s.omp.maxThreads
  noClause : s.clause = none → 1 ≤ s.omp.numThreads ∧ s.omp.numThreads ≤ s.omp.maxThreads

variable {nbCores : Nat} {s s' : ForkState} {op : ForkOp} {es : List Region}

/-- A region of any proper size runs as a team and leaves the team as it was. -/
theorem TeamInv.forkCall (hinv : TeamInv nbCores s) (hpos : 1 ≤ s.omp.numThreads)
    (hle : s.omp.numThreads ≤ s.omp.maxThreads) :
    s.omp.forkCall.1.IsTeam s.omp.numThreads ∧ s.omp.SameTeam s.omp.forkCall.2 := by
  obtain ⟨k, hk⟩ := Int.eq_ofNat_of_zero_le (by omega : 0 ≤ s.omp.numThreads)
  have hmax := hinv.maxThreads.2
  have hcores := hinv.cores
  have hplain := plain_iff hinv.coreMask hk (by omega) (by omega) (by omega)
  rw [OmpData.forkCall, OmpData.parallelRegion]
  split
  · next hall =>
    rw [hk, hplain.mp hall]
    exact ⟨isTeam_parallelRegionExec (by omega) (by omega) hinv.nbThreads hinv.dispatch hinv.barrier,
      rfl, rfl, rfl, rfl⟩
  · next hpart =>
    have hsize : (s.omp.numThreads % 256).toNat = k := by omega
    have hmask := shifted_eq hk (by omega)
    refine ⟨?_, rfl, rfl, ?_, ?_⟩
    · rw [OmpData.partialParallelRegion, OmpData.partialEnter, hmask, hsize, hk]
      exact isTeam_parallelRegionExec (by omega) (by omega) rfl rfl rfl
    · exact hinv.coreMask.trans hinv.barrier.symm
    · exact hinv.coreMask.trans hinv.dispatch.symm

/-- The master runs every region. -/
theorem count_master (omp : OmpData) : omp.forkCall.1.runs.count 0 = 1 := by
  rw [OmpData.forkCall, OmpData.parallelRegion]
  split
  · simp [count_parallelRegionExec]
  · simp [OmpData.partialParallelRegion, count_parallelRegionExec]

theorem good_iff_fresh (hinv : TeamInv nbCores s) : op.Good s ↔ op.Fresh s := by
  cases op with
  | pushNumThreads n => exact Iff.rfl
  | forkCall =>
    rw [ForkOp.Good, ForkOp.Fresh]
    cases hclause : s.clause with
    | none =>
      have hsize : s.teamSize = s.omp.maxThreads := by rw [ForkState.teamSize, hclause]
      obtain ⟨hpos, hle⟩ := hinv.noClause hclause
      have hteam := hinv.forkCall hpos hle
      rw [hsize]
      constructor
      · intro hgood
        exact ⟨by simp, fun _ => hteam.1.numThreads.symm.trans hgood.1.numThreads⟩
      · intro hfresh
        rw [← hfresh.2 rfl]
        exact hteam
    | some n =>
      have hsize : s.teamSize = min n s.omp.maxThreads := by rw [ForkState.teamSize, hclause]
      have hnum := hinv.clause n hclause
      have hmax := hinv.maxThreads
      rw [hsize]
      constructor
      · intro hgood
        have hmaster := hgood.1.runs 0
        rw [count_master] at hmaster
        have hlt : ((0 : Nat) : Int) < min n s.omp.maxThreads := by
          by_contra hlt
          rw [if_neg hlt] at hmaster
          cases hmaster
        simp
        omega
      · intro hfresh
        have hn := hfresh.1 n rfl
        have hteam := hinv.forkCall (by omega) (by omega)
        rw [hnum] at hteam
        exact hteam

theorem OmpData.forkCall_threads (omp : OmpData) : omp.forkCall.2.numThreads = omp.numThreads ∧
    omp.forkCall.2.maxThreads = omp.maxThreads := by
  rw [OmpData.forkCall, OmpData.parallelRegion]
  split <;> exact ⟨rfl, rfl⟩

theorem OmpData.pushNumThreads_eq (omp : OmpData) (n : Int) :
    omp.pushNumThreads n = { omp with numThreads := min n omp.maxThreads } := by
  simp only [OmpData.pushNumThreads]
  split
  · next hlt => rw [min_eq_right (Int.le_of_lt hlt)]
  · next hle => rw [min_eq_left (Int.not_lt.mp hle)]

theorem TeamInv.step (hinv : TeamInv nbCores s) (hfresh : op.Fresh s)
    (hstep : forkMachine s op = some (s', es)) : TeamInv nbCores s' := by
  cases op with
  | pushNumThreads n =>
    simp only [forkMachine, OmpData.pushNumThreads_eq, Option.some.injEq, Prod.mk.injEq] at hstep
    obtain ⟨rfl, -⟩ := hstep
    exact ⟨hinv.cores, hinv.nbThreads, hinv.coreMask, hinv.barrier, hinv.dispatch, hinv.maxThreads,
      by simp, by simp⟩
  | forkCall =>
    cases hstep
    have hsize : 1 ≤ s.omp.numThreads ∧ s.omp.numThreads ≤ s.omp.maxThreads := by
      have hmax := hinv.maxThreads
      cases hclause : s.clause with
      | none => exact hinv.noClause hclause
      | some n =>
        have hnum := hinv.clause n hclause
        have hn := hfresh.1 n hclause
        omega
    obtain ⟨-, hsame⟩ := hinv.forkCall hsize.1 hsize.2
    obtain ⟨hnum, hmax⟩ := s.omp.forkCall_threads
    refine ⟨hinv.cores, hsame.nbThreads.trans hinv.nbThreads, hsame.coreMask.trans hinv.coreMask,
      hsame.barrier.trans hinv.barrier, hsame.dispatch.trans hinv.dispatch, ?_, by simp, ?_⟩
    · rw [hmax]
      exact hinv.maxThreads
    · intro _
      rw [hnum, hmax]
      exact hsize

theorem teamInv_start {nbHandlers : Nat} {team : Team} (hpos : 1 ≤ nbCores) (hle : nbCores ≤ 16) :
    TeamInv nbCores ⟨.start nbCores nbHandlers team, none⟩ := by
  have hmask : (2 ^ nbCores - 1) % 2 ^ 16 = 2 ^ nbCores - 1 := by
    apply Nat.mod_eq_of_lt
    have hpow : 2 ^ nbCores ≤ 2 ^ 16 := Nat.pow_le_pow_right (by decide) hle
    have hone := Nat.one_le_two_pow (n := nbCores)
    omega
  have hmax : 1 ≤ (nbCores : Int) - (min nbHandlers (nbCores - 1) : Nat) ∧
      (nbCores : Int) - (min nbHandlers (nbCores - 1) : Nat) ≤ nbCores := by omega
  exact ⟨hle, rfl, hmask, rfl, rfl, hmax, by simp, fun _ => ⟨hmax.1, le_rfl⟩⟩

/-- Every region of a run gets its team exactly if clauses are for at least one thread and no
smaller one is left over for a region without. -/
theorem forkCall_team_iff (nbCores nbHandlers : Nat) (team : Team)
    (hcores : 1 ≤ nbCores ∧ nbCores ≤ 16) (ops : List ForkOp) :
    forkMachine.Along (fun s op => op.Good s) ⟨.start nbCores nbHandlers team, none⟩ ops ↔
      forkMachine.Along (fun s op => op.Fresh s) ⟨.start nbCores nbHandlers team, none⟩ ops :=
  Machine.along_iff (fun _ _ _ _ hinv hfresh hstep => hinv.step hfresh hstep)
    (fun _ _ => good_iff_fresh) (teamInv_start hcores.1 hcores.2)

/-- The loop fields at boot -/
private def noTeam : Team := ⟨0, 0, 0, 0, 0, false⟩

theorem forkCall_team_iff_clauses :
    forkMachine.Along (fun s op => op.Good s) ⟨.start 8 1 noTeam, none⟩
      [.forkCall, .pushNumThreads 3, .forkCall, .pushNumThreads 100, .forkCall, .forkCall] :=
  (forkCall_team_iff 8 1 noTeam (by decide) _).mpr (by decide +kernel)

/-- A region without a clause gets the two threads of the one before it. -/
theorem forkCall_clause_left_over : ¬ ∀ (nbCores nbHandlers : Nat) (team : Team),
    1 ≤ nbCores ∧ nbCores ≤ 16 → ∀ ops : List ForkOp,
      forkMachine.Along (fun s op => op.Good s) ⟨.start nbCores nbHandlers team, none⟩ ops := by
  intro h
  have hrun : (forkMachine.run ⟨.start 8 0 noTeam, none⟩ [.pushNumThreads 2, .forkCall]).isSome := rfl
  have hgood : ForkOp.forkCall.Good _ :=
    (h 8 0 noTeam (by decide) ([.pushNumThreads 2, .forkCall] ++ [.forkCall])).at
      (Option.some_get hrun).symm
  exact absurd hgood.1.numThreads (by decide +kernel)

end Hero.Omp
