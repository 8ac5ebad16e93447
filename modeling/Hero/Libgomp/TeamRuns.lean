import Hero.Framework.Machine
import Hero.Libgomp.TeamStart

/-!
# Runs of nested parallel regions

The cores of the teams start and end regions in any order in which an outer region waits for the
inner ones.
-/

namespace Hero.Libgomp

open Hero.BitField

inductive ParallelCall where
  | start (pid : Nat) (specified : BitVec 32)
  | finish (pid : Nat)

/-- A core that is in use starts a region, and the core that has started one ends it. -/
def parallelRegions (nprocs : Nat) : Machine GompData ParallelCall Empty := fun s call =>
  match call with
  | .start pid specified =>
    if pid < nprocs ∧ pid ∈ members s.threadPool then
      (gompTeamStart nprocs pid specified s).map (·, [])
    else none
  | .finish pid =>
    if pid < nprocs ∧ ∃ t, s.CanEnd pid t then (gompTeamEnd pid s).map (·, []) else none

/-- Each end belongs to the last start that has no end before it. -/
inductive Nested : List ParallelCall → Prop where
  | nil : Nested []
  | region {pid : Nat} {specified : BitVec 32} {inner rest : List ParallelCall} :
    Nested inner → Nested rest →
      Nested (.start pid specified :: (inner ++ .finish pid :: rest))

namespace GompData

/-- The idle cores, their count and the context of core `pid` are the same. -/
structure Restored (nprocs pid : Nat) (s s' : GompData) : Prop where
  idleSet : s'.idleSet nprocs = s.idleSet nprocs
  idleCores : s'.idleCores = s.idleCores
  currTeam : s'.currTeam pid = s.currTeam pid
  parent : ∀ parent, s.currTeam pid = some parent →
    s'.teamDescriptorPool parent = s.teamDescriptorPool parent

/-- Nothing that is in use has changed. -/
structure Same (s s' : GompData) : Prop where
  threadPool : s'.threadPool = s.threadPool
  idleCores : s'.idleCores = s.idleCores
  teamPoolList : s'.teamPoolList = s.teamPoolList
  descriptor : ∀ t ∉ s.teamPoolList, s'.teamDescriptorPool t = s.teamDescriptorPool t
  currTeam : ∀ i ∈ members s.threadPool, s'.currTeam i = s.currTeam i

variable {s s' s'' : GompData} {nprocs pid : Nat} {t parent : TeamId} {slaves : List Nat}

theorem Same.refl (s : GompData) : s.Same s := by
  constructor <;> simp

theorem Same.trans (h : s.Same s') (h' : s'.Same s'') : s.Same s'' where
  threadPool := h'.threadPool.trans h.threadPool
  idleCores := h'.idleCores.trans h.idleCores
  teamPoolList := h'.teamPoolList.trans h.teamPoolList
  descriptor := by
    intro t ht
    rw [h'.descriptor t (by rwa [h.teamPoolList]), h.descriptor t ht]
  currTeam := by
    intro i hi
    rw [h'.currTeam i (by rwa [h.threadPool]), h.currTeam i hi]

/-- The end of a region undoes its start. -/
theorem Forked.same {s₁ s₂ : GompData} (hinv : s.Inv nprocs)
    (hbusy : pid ∈ members s.threadPool) (hstart : s.Forked nprocs pid t parent slaves s₁)
    (hinner : s₁.Same s₂) (hend : s₂.Joined pid t s') : s.Same s' := by
  have htlive : s₁.Live t := (hstart.live_iff hinv).mpr (Or.inl rfl)
  have hd : s₂.teamDescriptorPool t = s₁.teamDescriptorPool t := hinner.descriptor t htlive.1
  have hcores : ∀ i, i ∈ s₂.cores t ↔ i = pid ∨ i ∈ slaves := by
    intro i
    rw [GompData.cores, hd]
    exact hstart.mem_cores
  constructor
  case threadPool =>
    apply BitVec.eq_of_getLsbD_eq
    intro i _
    rw [Bool.eq_iff_iff, ← mem_members, ← mem_members, hend.threadPool, hinner.threadPool,
      hstart.threadPool, Finset.mem_union, List.mem_toFinset, hcores]
    constructor
    · intro hi
      obtain ⟨hi | hi, hpid⟩ := hi
      · exact hi
      · rw [hpid (Or.inr hi)]
        exact hbusy
    · intro hi
      refine ⟨Or.inl hi, ?_⟩
      intro hmem
      exact hmem.resolve_right fun hslave => (hstart.idle i hslave).2 hi
  case idleCores =>
    rw [hend.idleCores, hinner.idleCores, hstart.idleCores, hd, BitVec.sub_add_cancel]
  case teamPoolList =>
    rw [hend.teamPoolList, hinner.teamPoolList, hstart.teamPoolList]
  case descriptor =>
    intro u hu
    rw [hstart.teamPoolList, List.mem_cons, not_or] at hu
    rw [hend.descriptor, hinner.descriptor u hu.2, hstart.descriptor_ne u hu.1]
  case currTeam =>
    intro i hi
    by_cases hpid : i = pid
    · rw [hpid, hend.currTeam_pid, hd, hstart.parent_eq, hstart.currTeam_pid]
    · have hi₁ : i ∈ members s₁.threadPool := by
        rw [hstart.threadPool]
        exact Finset.mem_union_left _ hi
      rw [hend.currTeam_ne i hpid, hinner.currTeam i hi₁, hstart.currTeam_of_busy hi hpid]

theorem Same.restored (h : s.Same s') (hinv : s.Inv nprocs) (hbusy : pid ∈ members s.threadPool) :
    Restored nprocs pid s s' where
  idleSet := by rw [GompData.idleSet, h.threadPool, GompData.idleSet]
  idleCores := h.idleCores
  currTeam := h.currTeam pid hbusy
  parent := by
    intro parent hparent
    exact h.descriptor parent (hinv.currTeam_busy hbusy hparent).1

end GompData

/-- The state after the call is sound, if the call returns. -/
def StaysSound (nprocs : Nat) (s : GompData) (call : ParallelCall) : Prop :=
  ∀ s' es, parallelRegions nprocs s call = some (s', es) → s'.Sound nprocs

/-- A start that gets a descriptor is one `gomp_team_start` handles. -/
def CallOk (nprocs : Nat) (s : GompData) : ParallelCall → Prop
  | .start pid specified =>
    pid < nprocs ∧ pid ∈ members s.threadPool ∧ s.teamPoolList ≠ [] → s.StartOk pid specified
  | .finish _ => True

instance (nprocs : Nat) (s : GompData) : ∀ call, Decidable (CallOk nprocs s call)
  | .start _ _ => inferInstanceAs (Decidable (_ → _))
  | .finish _ => isTrue trivial

/-- The end of each region within the run restores what its start has found. -/
def RestoresRegions (nprocs : Nat) (s : GompData) (calls : List ParallelCall) : Prop :=
  ∀ before pid specified inner after s₁ s₂ es₁ es₂,
    calls = before ++ (.start pid specified :: (inner ++ [.finish pid]) ++ after) → Nested inner →
    (parallelRegions nprocs).run s before = some (s₁, es₁) →
    (parallelRegions nprocs).run s₁ (.start pid specified :: (inner ++ [.finish pid])) =
      some (s₂, es₂) → s₁.Restored nprocs pid s₂

section

variable {s s' : GompData} {nprocs pid : Nat} {specified : BitVec 32} {es : List Empty}
  {t : TeamId} (hnprocs : nprocs ≤ 16)

theorem parallelRegions_start (h : parallelRegions nprocs s (.start pid specified) = some (s', es)) :
    pid < nprocs ∧ pid ∈ members s.threadPool ∧ s.teamPoolList ≠ [] ∧
      gompTeamStart nprocs pid specified s = some s' := by
  simp only [parallelRegions] at h
  split at h
  · rename_i henabled
    obtain ⟨s₁, hs₁, heq⟩ := Option.map_eq_some_iff.mp h
    cases heq
    refine ⟨henabled.1, henabled.2, ?_, hs₁⟩
    intro hpool
    simp [gompTeamStart, gompPullTeamPool, gompResolveNumThreads, hpool] at hs₁
  · cases h

theorem parallelRegions_finish (h : parallelRegions nprocs s (.finish pid) = some (s', es))
    (hnprocs : nprocs ≤ 16) : ∃ t, s.CanEnd pid t ∧ s.Joined pid t s' := by
  simp only [parallelRegions] at h
  split at h
  · rename_i henabled
    obtain ⟨hpid, t, hend⟩ := henabled
    obtain ⟨s₁, hs₁, heq⟩ := Option.map_eq_some_iff.mp h
    cases heq
    exact ⟨t, hend, GompData.joined_of_gompTeamEnd (by omega) hend.1 hs₁⟩
  · cases h

include hnprocs

/-- A start that is handled forms a team. -/
theorem exists_forked (hinv : s.Inv nprocs) (hok : CallOk nprocs s (.start pid specified))
    (h : parallelRegions nprocs s (.start pid specified) = some (s', es)) :
    ∃ t parent slaves, s.Forked nprocs pid t parent slaves s' := by
  obtain ⟨hpid, hbusy, hpool, hstart⟩ := parallelRegions_start h
  exact hinv.forked hnprocs hpid hbusy (hok ⟨hpid, hbusy, hpool⟩) hstart

theorem inv_step (s : GompData) (call : ParallelCall) (s' : GompData) (es : List Empty)
    (hinv : s.Inv nprocs) (hok : CallOk nprocs s call)
    (h : parallelRegions nprocs s call = some (s', es)) : s'.Inv nprocs := by
  cases call with
  | start pid specified =>
    obtain ⟨t, parent, slaves, hforked⟩ := exists_forked hnprocs hinv hok h
    obtain ⟨hpid, hbusy, -, -⟩ := parallelRegions_start h
    exact hforked.inv hinv hpid hbusy hnprocs
  | finish pid =>
    obtain ⟨t, hend, hjoined⟩ := parallelRegions_finish h hnprocs
    exact hjoined.inv hinv hend hnprocs

/-- The calls after which the teams are sound are the ones that are handled. -/
theorem staysSound_iff (s : GompData) (call : ParallelCall) (hinv : s.Inv nprocs) :
    StaysSound nprocs s call ↔ CallOk nprocs s call := by
  constructor
  · intro hsound
    cases call with
    | finish pid => trivial
    | start pid specified =>
      intro h
      obtain ⟨hpid, hbusy, hpool⟩ := h
      obtain ⟨t, next, hpool⟩ := List.exists_cons_of_ne_nil hpool
      have hreturns : ∀ s', gompTeamStart nprocs pid specified s = some s' → s'.Sound nprocs := by
        intro s' hs'
        exact hsound s' [] (by simp [parallelRegions, hpid, hbusy, hs', -mem_members])
      by_contra hbad
      by_cases hneg : specified.toInt < 0
      · obtain ⟨s', hs', hnot⟩ := hinv.not_sound_of_neg hnprocs hpid hbusy hpool hneg
        exact hnot (hreturns s' hs')
      · have hsixteen : s.CachesSixteen pid specified := by
          by_contra hsixteen
          exact hbad ⟨by omega, hsixteen⟩
        obtain ⟨s', hs', hnot⟩ :=
          hinv.not_sound_of_sixteen hbusy hpool (by omega) hsixteen
        exact hnot (hreturns s' hs')
  · intro hok s' es h
    exact (inv_step hnprocs s call s' es hinv hok h).sound

open Machine in
/-- Nested regions leave everything that was in use as it was. -/
theorem Nested.same {calls : List ParallelCall} (hnested : Nested calls) (hinv : s.Inv nprocs)
    (hok : Along (parallelRegions nprocs) (CallOk nprocs) s calls)
    (hrun : (parallelRegions nprocs).run s calls = some (s', es)) : s.Same s' := by
  induction hnested generalizing s s' es with
  | nil =>
    cases hrun
    exact GompData.Same.refl s
  | @region pid specified inner rest hinner hrest ihinner ihrest =>
    obtain ⟨s₁, es₁, es₂, hstart, hrun, -⟩ := run_cons.mp hrun
    obtain ⟨s₂, es₃, es₄, hrun₂, hrun₃, -⟩ := run_append.mp hrun
    obtain ⟨s₃, es₅, es₆, hfinish, hrun₄, -⟩ := run_cons.mp hrun₃
    have hok₁ := hok.2 s₁ es₁ hstart
    rw [along_append] at hok₁
    have hok₂ := hok₁.2 s₂ es₃ hrun₂
    have hok₃ := hok₂.2 s₃ es₅ hfinish
    obtain ⟨t, parent, slaves, hforked⟩ := exists_forked hnprocs hinv hok.1 hstart
    obtain ⟨hpid, hbusy, -, -⟩ := parallelRegions_start hstart
    have hinv₁ := hforked.inv hinv hpid hbusy hnprocs
    have hinv₂ := run_invariant (GompData.Inv nprocs) (CallOk nprocs) (inv_step hnprocs) hinv₁
      hok₁.1 hrun₂
    have hinv₃ := inv_step hnprocs s₂ _ s₃ es₅ hinv₂ hok₂.1 hfinish
    have hsame := ihinner hinv₁ hok₁.1 hrun₂
    obtain ⟨u, hend, hjoined⟩ := parallelRegions_finish hfinish hnprocs
    -- the team that ends is the one that was started
    have hbusy₁ : pid ∈ members s₁.threadPool := by
      rw [hforked.threadPool]
      exact Finset.mem_union_left _ hbusy
    have hut : u = t := by
      have hcurr := hend.1
      rw [hsame.currTeam pid hbusy₁, hforked.currTeam, if_pos List.mem_cons_self,
        Option.some.injEq] at hcurr
      exact hcurr.symm
    subst hut
    exact (hforked.same hinv hbusy hsame hjoined).trans (ihrest hinv₃ hok₃ hrun₄)

open Machine in
theorem restoresRegions (hinv : s.Inv nprocs) {calls : List ParallelCall}
    (hok : Along (parallelRegions nprocs) (CallOk nprocs) s calls) :
    RestoresRegions nprocs s calls := by
  intro before pid specified inner after s₁ s₂ es₁ es₂ hcalls hnested hbefore hregion
  subst hcalls
  rw [along_append] at hok
  have hok₁ := hok.2 s₁ es₁ hbefore
  rw [along_append] at hok₁
  have hinv₁ := run_invariant (GompData.Inv nprocs) (CallOk nprocs) (inv_step hnprocs) hinv hok.1
    hbefore
  have hsame := (Nested.region hnested Nested.nil).same hnprocs hinv₁ hok₁.1 hregion
  obtain ⟨s₃, es₃, es₄, hstart, -, -⟩ := run_cons.mp hregion
  obtain ⟨-, hbusy, -, -⟩ := parallelRegions_start hstart
  exact hsame.restored hinv₁ hbusy

end

/-- What `omp_initenv` and the start of the master leave. -/
structure GompData.Booted (nprocs : Nat) (s : GompData) : Prop where
  threadPool : s.threadPool = 1#32
  idleCores : s.idleCores = BitVec.ofNat 32 nprocs - 1#32
  currTeam_zero : s.currTeam 0 = some 3
  teamPoolList : s.teamPoolList = [2, 1, 0]
  level : s.level 3 = 0
  cached : s.Cached nprocs 2

theorem exists_gompInit {nprocs : Nat} (hpos : 1 ≤ nprocs) (hnprocs : nprocs ≤ 16)
    (mem : TeamId → Team) : ∃ s, gompInit nprocs mem = some s ∧ s.Booted nprocs := by
  have htoNat : (BitVec.ofNat 32 nprocs).toNat = nprocs := by
    rw [BitVec.toNat_ofNat]
    omega
  have hbitmask := getBitmask_eq_some (n := BitVec.ofNat 32 nprocs) (by omega) (by omega)
  refine ⟨_, by
    simp only [gompInit, gompMasterRegionStart, gompInitLruTeam, ompInitenv, gompPullTeamPool,
      hbitmask, GompData.modifyTeam, GompData.setCurrTeam, gompPushTeamPool, Option.bind_eq_bind,
      Option.bind_some, Option.pure_def]
    rfl, ?_⟩
  constructor
  case cached =>
    constructor
    case nthreads =>
      simp only [Function.update_self, htoNat, le_refl]
    case procIds =>
      intro i hi
      simp only [Function.update_self, htoNat] at hi
      simp [hi]
    case threadIds =>
      intro i hi
      simp only [Function.update_self, htoNat] at hi
      simp [hi]
    case currTeam =>
      intro i hpos hi
      simp only [Function.update_self, htoNat] at hi
      simp [hpos, hi]
    case lruTeam => rfl
  all_goals simp [GompData.level]

/-- The initial thread runs alone at first. -/
theorem GompData.Booted.inv {s : GompData} {nprocs : Nat} (h : s.Booted nprocs)
    (hpos : 1 ≤ nprocs) (hnprocs : nprocs ≤ 16) : s.Inv nprocs := by
  have hnone : ∀ t, ¬ s.Live t := by
    intro t ht
    obtain ⟨hpool, hlevel⟩ := ht
    have hall : ∀ t : TeamId, t ∉ [2, 1, 0] → t = 3 := by decide
    rw [h.teamPoolList] at hpool
    rw [hall t hpool] at hlevel
    exact hlevel h.level
  have hmembers : members s.threadPool = {0} := by
    rw [h.threadPool]
    exact members_one_shiftLeft (w := 32) (i := 0) (by decide)
  constructor
  case nodup =>
    rw [h.teamPoolList]
    decide
  case master => exact fun _ => ⟨3, h.currTeam_zero, by simp [h.teamPoolList], h.level⟩
  case busy =>
    intro i
    rw [hmembers, Finset.mem_singleton]
    simp [hnone]
  case idleCores =>
    have hidle : s.idleSet nprocs = (Finset.range nprocs).erase 0 := by
      ext i
      rw [GompData.idleSet, Finset.mem_filter, hmembers, Finset.mem_singleton, Finset.mem_erase,
        and_comm]
    rw [hidle, Finset.card_erase_of_mem (Finset.mem_range.mpr hpos), Finset.card_range,
      h.idleCores, toNat_pred]
    · rw [BitVec.toNat_ofNat, Nat.mod_eq_of_lt (by omega)]
    · rw [BitVec.toNat_ofNat, Nat.mod_eq_of_lt (by omega)]
      exact hpos
  case cached => exact fun _ => ⟨2, [1, 0], h.teamPoolList, h.cached⟩
  case shared => exact fun t _ ht => absurd ht (hnone t)
  all_goals exact fun t ht => absurd ht (hnone t)

open Machine in
/-- From one to sixteen cores, the teams of every run are sound and every region restores what it
has found, exactly if no start has a negative request or runs sixteen cores on the cached team. -/
theorem parallelRegions_sound_iff {nprocs : Nat} (hpos : 1 ≤ nprocs) (hnprocs : nprocs ≤ 16)
    (mem : TeamId → Team) : ∃ s, gompInit nprocs mem = some s ∧ s.Sound nprocs ∧
      ∀ calls, Along (parallelRegions nprocs) (StaysSound nprocs) s calls ∧
          RestoresRegions nprocs s calls ↔
        Along (parallelRegions nprocs) (CallOk nprocs) s calls := by
  obtain ⟨s, hs, hbooted⟩ := exists_gompInit hpos hnprocs mem
  have hinv := hbooted.inv hpos hnprocs
  refine ⟨s, hs, hinv.sound, ?_⟩
  intro calls
  have hiff : Along (parallelRegions nprocs) (StaysSound nprocs) s calls ↔
      Along (parallelRegions nprocs) (CallOk nprocs) s calls :=
    along_iff (inv_step hnprocs) (staysSound_iff hnprocs) hinv
  constructor
  · intro h
    exact hiff.mp h.1
  · intro h
    exact ⟨hiff.mpr h, restoresRegions hnprocs hinv h⟩

/-- Nested regions on eight cores, one of them with a request that the idle cores do not meet, and
one on the cached team. -/
theorem parallelRegions_sound_eight :
    ∃ s, gompInit 8 (fun _ => ⟨0, none, 0#32, 0#32, id, id⟩) = some s ∧
      ∃ calls : List ParallelCall, calls.length = 8 ∧
        ((parallelRegions 8).run s calls).isSome = true ∧
        Machine.Along (parallelRegions 8) (StaysSound 8) s calls ∧ RestoresRegions 8 s calls := by
  obtain ⟨s, hs, -, hiff⟩ := parallelRegions_sound_iff (by decide : 1 ≤ 8) (by decide)
    (fun _ => ⟨0, none, 0#32, 0#32, id, id⟩)
  let calls : List ParallelCall := [.start 0 3#32, .start 1 3#32, .start 0 100#32, .finish 1,
    .finish 0, .finish 0, .start 0 2#32, .finish 0]
  have hrun : ∀ s ∈ gompInit 8 (fun _ => ⟨0, none, 0#32, 0#32, id, id⟩),
      ((parallelRegions 8).run s calls).isSome = true ∧
        Machine.Along (parallelRegions 8) (CallOk 8) s calls := by
    decide +kernel
  obtain ⟨hsome, hok⟩ := hrun s hs
  exact ⟨s, hs, calls, rfl, hsome, (hiff calls).mpr hok⟩

/-- Of sixteen cores the cached team marks fifteen, and with a negative request a team has more
threads than cores. -/
theorem parallelRegions_unsound :
    (∃ s, gompInit 16 (fun _ => ⟨0, none, 0#32, 0#32, id, id⟩) = some s ∧
      ¬ Machine.Along (parallelRegions 16) (StaysSound 16) s [.start 0 0#32]) ∧
    ∃ s, gompInit 8 (fun _ => ⟨0, none, 0#32, 0#32, id, id⟩) = some s ∧
      ¬ Machine.Along (parallelRegions 8) (StaysSound 8) s [.start 0 (BitVec.ofInt 32 (-1))] := by
  have hsixteen : ∀ s ∈ gompInit 16 (fun _ => ⟨0, none, 0#32, 0#32, id, id⟩),
      ∃ s' ∈ parallelRegions 16 s (.start 0 0#32), s'.1.Live 2 ∧
        (s'.1.cores 2).card ≠ (s'.1.teamDescriptorPool 2).nthreads.toNat := by
    decide +kernel
  have hnegative : ∀ s ∈ gompInit 8 (fun _ => ⟨0, none, 0#32, 0#32, id, id⟩),
      ∃ s' ∈ parallelRegions 8 s (.start 0 (BitVec.ofInt 32 (-1))), s'.1.Live 2 ∧
        (s'.1.cores 2).card ≠ (s'.1.teamDescriptorPool 2).nthreads.toNat := by
    decide +kernel
  constructor
  · obtain ⟨s, hs⟩ := Option.isSome_iff_exists.mp (by decide +kernel :
      (gompInit 16 (fun _ => ⟨0, none, 0#32, 0#32, id, id⟩)).isSome = true)
    refine ⟨s, hs, ?_⟩
    intro h
    obtain ⟨s', hs', hlive, hne⟩ := hsixteen s hs
    exact hne ((h.1 s'.1 s'.2 hs').card_cores 2 hlive)
  · obtain ⟨s, hs⟩ := Option.isSome_iff_exists.mp (by decide +kernel :
      (gompInit 8 (fun _ => ⟨0, none, 0#32, 0#32, id, id⟩)).isSome = true)
    refine ⟨s, hs, ?_⟩
    intro h
    obtain ⟨s', hs', hlive, hne⟩ := hnegative s hs
    exact hne ((h.1 s'.1 s'.2 hs').card_cores 2 hlive)

end Hero.Libgomp
