import Hero.Libgomp.Team
import Mathlib.Data.Finset.Card
import Mathlib.Data.List.NodupEquivFin

/-!
# The teams of nested parallel regions

A core may belong to several teams, of which it has forked all but the outermost.  The levels of
the teams order them, and the current team of the core is the innermost.
-/

namespace Hero.Libgomp

open Hero.BitField

namespace GompData

/-- The team of a parallel region that has not ended; the initial team has level zero. -/
def Live (s : GompData) (t : TeamId) : Prop :=
  t ∉ s.teamPoolList ∧ (s.teamDescriptorPool t).level ≠ 0

instance (s : GompData) (t : TeamId) : Decidable (s.Live t) := inferInstanceAs (Decidable (_ ∧ _))

def cores (s : GompData) (t : TeamId) : Finset Nat := members (s.teamDescriptorPool t).team

def level (s : GompData) (t : TeamId) : Nat := (s.teamDescriptorPool t).level

def forker (s : GompData) (t : TeamId) : Nat := (s.teamDescriptorPool t).procIds 0

/-- The cores the thread pool does not mark. -/
def idleSet (s : GompData) (nprocs : Nat) : Finset Nat :=
  (Finset.range nprocs).filter (· ∉ members s.threadPool)

/-- The teams share no core but the one that forks the inner of two, the cores that are not in a
team are the idle ones, and a team numbers its cores. -/
structure Sound (nprocs : Nat) (s : GompData) : Prop where
  disjoint : ∀ t u, s.Live t → s.Live u → t ≠ u → ∀ i ∈ s.cores t, i ∈ s.cores u →
    s.level t < s.level u ∧ s.forker u = i ∨ s.level u < s.level t ∧ s.forker t = i
  idle : ∀ i < nprocs, i ∈ s.idleSet nprocs ↔ i ≠ 0 ∧ ∀ t, s.Live t → i ∉ s.cores t
  idleCores : s.idleCores.toNat = (s.idleSet nprocs).card
  card_cores : ∀ t, s.Live t → (s.cores t).card = (s.teamDescriptorPool t).nthreads.toNat
  threadIds : ∀ t, s.Live t → Set.BijOn (s.teamDescriptorPool t).threadIds (s.cores t)
    (Set.Iio (s.teamDescriptorPool t).nthreads.toNat)

/-- The team that ended last is ready to run again with at most as many threads. -/
structure Cached (nprocs : Nat) (s : GompData) (t : TeamId) : Prop where
  lruTeam : s.lruTeam = some t
  nthreads : (s.teamDescriptorPool t).nthreads.toNat ≤ nprocs
  procIds : ∀ i < (s.teamDescriptorPool t).nthreads.toNat, (s.teamDescriptorPool t).procIds i = i
  threadIds : ∀ i < (s.teamDescriptorPool t).nthreads.toNat,
    (s.teamDescriptorPool t).threadIds i = i
  currTeam : ∀ i, 1 ≤ i → i < (s.teamDescriptorPool t).nthreads.toNat → s.currTeam i = some t

structure Inv (nprocs : Nat) (s : GompData) : Prop where
  nodup : s.teamPoolList.Nodup
  roster : ∀ t, s.Live t → ∃ slaves, (s.teamDescriptorPool t).Roster (s.forker t :: slaves)
  cores_lt : ∀ t, s.Live t → ∀ i ∈ s.cores t, i < nprocs
  parent : ∀ t, s.Live t → ∃ q, (s.teamDescriptorPool t).parent = some q ∧ q ∉ s.teamPoolList ∧
    s.level t = s.level q + 1 ∧ (s.level q = 0 → s.forker t = 0) ∧
    (s.level q ≠ 0 → s.forker t ∈ s.cores q)
  shared : ∀ t u, s.Live t → s.Live u → t ≠ u → s.level t ≤ s.level u →
    ∀ i ∈ s.cores t, i ∈ s.cores u → s.level t < s.level u ∧ s.forker u = i
  innermost : ∀ t, s.Live t → ∀ i ∈ s.cores t,
    ∃ u, s.currTeam i = some u ∧ s.Live u ∧ i ∈ s.cores u ∧ s.level t ≤ s.level u
  master : (∀ t, s.Live t → 0 ∉ s.cores t) →
    ∃ r, s.currTeam 0 = some r ∧ r ∉ s.teamPoolList ∧ s.level r = 0
  busy : ∀ i, i ∈ members s.threadPool ↔ i = 0 ∨ ∃ t, s.Live t ∧ i ∈ s.cores t
  idleCores : s.idleCores.toNat = (s.idleSet nprocs).card
  outermost : ∀ t, s.Live t → s.level t = 1 → (s.teamDescriptorPool t).Roster
    (List.range (s.teamDescriptorPool t).nthreads.toNat)
  cached : (∀ t, ¬ s.Live t) → ∃ t next, s.teamPoolList = t :: next ∧ s.Cached nprocs t

variable {s s' : GompData} {nprocs pid : Nat} {t u parent : TeamId}

namespace Inv

theorem forker_mem (hinv : s.Inv nprocs) (ht : s.Live t) : s.forker t ∈ s.cores t := by
  obtain ⟨slaves, hroster⟩ := hinv.roster t ht
  exact hroster.mem_team.mpr List.mem_cons_self

theorem sound (hinv : s.Inv nprocs) : s.Sound nprocs where
  disjoint := by
    intro t u ht hu hne i hit hiu
    by_cases hle : s.level t ≤ s.level u
    · exact Or.inl (hinv.shared t u ht hu hne hle i hit hiu)
    · exact Or.inr (hinv.shared u t hu ht hne.symm (by omega) i hiu hit)
  idle := by
    intro i hi
    rw [idleSet, Finset.mem_filter, Finset.mem_range, hinv.busy]
    simp only [hi, true_and, not_or, not_exists, not_and]
  idleCores := hinv.idleCores
  card_cores := by
    intro t ht
    obtain ⟨slaves, hroster⟩ := hinv.roster t ht
    exact hroster.card_team
  threadIds := by
    intro t ht
    obtain ⟨slaves, hroster⟩ := hinv.roster t ht
    exact hroster.bijOn_threadIds

/-- Every region is within one the initial thread has forked. -/
theorem exists_outermost (hinv : s.Inv nprocs) (ht : s.Live t) :
    ∃ u, s.Live u ∧ s.level u = 1 ∧ 0 ∈ s.cores u := by
  induction hn : s.level t using Nat.strong_induction_on generalizing t with
  | _ n ih =>
    obtain ⟨q, -, hq, hlevel, hroot, hnested⟩ := hinv.parent t ht
    by_cases hzero : s.level q = 0
    · have hmem := hinv.forker_mem ht
      rw [hroot hzero] at hmem
      exact ⟨t, ht, by omega, hmem⟩
    · exact ih (s.level q) (by omega) ⟨hq, hzero⟩ rfl

/-- The current team of a core that is in use. -/
theorem currTeam_busy (hinv : s.Inv nprocs) (hbusy : pid ∈ members s.threadPool)
    (hcurr : s.currTeam pid = some parent) :
    parent ∉ s.teamPoolList ∧ (s.level parent = 0 → pid = 0) ∧
      (s.level parent ≠ 0 → pid ∈ s.cores parent) ∧
      ∀ t, s.Live t → pid ∈ s.cores t → s.level t ≤ s.level parent := by
  by_cases hlive : ∃ t, s.Live t ∧ pid ∈ s.cores t
  · obtain ⟨t, ht, hmem⟩ := hlive
    obtain ⟨u, hu, hulive, hpidu, -⟩ := hinv.innermost t ht pid hmem
    cases hcurr.symm.trans hu
    refine ⟨hulive.1, fun h => absurd h hulive.2, fun _ => hpidu, ?_⟩
    intro v hv hpidv
    obtain ⟨w, hw, -, -, hle⟩ := hinv.innermost v hv pid hpidv
    cases hcurr.symm.trans hw
    exact hle
  · have hpid : pid = 0 := ((hinv.busy pid).mp hbusy).resolve_right hlive
    subst hpid
    have hnone : ∀ t, s.Live t → 0 ∉ s.cores t := fun t ht hmem => hlive ⟨t, ht, hmem⟩
    obtain ⟨r, hr, hpool, hlevel⟩ := hinv.master hnone
    cases hcurr.symm.trans hr
    exact ⟨hpool, fun _ => rfl, fun h => absurd hlevel h, fun t ht hmem => absurd hmem (hnone t ht)⟩

/-- No region runs beside the sequential part of the program. -/
theorem not_live_of_level_eq_zero (hinv : s.Inv nprocs) (hbusy : pid ∈ members s.threadPool)
    (hcurr : s.currTeam pid = some parent) (hlevel : s.level parent = 0) :
    pid = 0 ∧ ∀ t, ¬ s.Live t := by
  obtain ⟨-, hroot, -, hle⟩ := hinv.currTeam_busy hbusy hcurr
  refine ⟨hroot hlevel, ?_⟩
  intro t ht
  obtain ⟨u, hu, hone, hmem⟩ := hinv.exists_outermost ht
  have := hle u hu (by rwa [hroot hlevel])
  omega

end Inv

/-- What the start of a region by core `pid` does: team `t` gets `pid` and idle slaves. -/
structure Forked (nprocs : Nat) (s : GompData) (pid : Nat) (t parent : TeamId)
    (slaves : List Nat) (s' : GompData) : Prop where
  teamPoolList : s.teamPoolList = t :: s'.teamPoolList
  currTeam_pid : s.currTeam pid = some parent
  level : s'.level t = s.level parent + 1
  parent_eq : (s'.teamDescriptorPool t).parent = some parent
  roster : (s'.teamDescriptorPool t).Roster (pid :: slaves)
  idle : ∀ i ∈ slaves, i < nprocs ∧ i ∉ members s.threadPool
  threadPool : members s'.threadPool = members s.threadPool ∪ slaves.toFinset
  currTeam : ∀ i, s'.currTeam i = if i ∈ pid :: slaves then some t else s.currTeam i
  descriptor_ne : ∀ u ≠ t, s'.teamDescriptorPool u = s.teamDescriptorPool u
  idleCores : s'.idleCores = s.idleCores - ((s'.teamDescriptorPool t).nthreads - 1#32)
  outermost : s.level parent = 0 → pid :: slaves = List.range (slaves.length + 1)

namespace Forked

variable {slaves : List Nat} (h : s.Forked nprocs pid t parent slaves s')
include h

theorem level_ne (hu : u ≠ t) : s'.level u = s.level u := by
  rw [GompData.level, h.descriptor_ne u hu, GompData.level]

theorem cores_ne (hu : u ≠ t) : s'.cores u = s.cores u := by
  rw [cores, h.descriptor_ne u hu, cores]

theorem forker_ne (hu : u ≠ t) : s'.forker u = s.forker u := by
  rw [forker, h.descriptor_ne u hu, forker]

theorem not_live : ¬ s.Live t := by
  intro ht
  exact ht.1 (by simp [h.teamPoolList])

theorem ne_of_live (hu : s.Live u) : u ≠ t := by
  intro heq
  exact h.not_live (heq ▸ hu)

theorem mem_cores {i : Nat} : i ∈ s'.cores t ↔ i = pid ∨ i ∈ slaves := by
  rw [cores, h.roster.mem_team, List.mem_cons]

theorem forker_eq : s'.forker t = pid := h.roster.procIds 0 (by simp)

theorem live_iff (hinv : s.Inv nprocs) : s'.Live u ↔ u = t ∨ s.Live u := by
  have hnodup := hinv.nodup
  rw [h.teamPoolList, List.nodup_cons] at hnodup
  by_cases hu : u = t
  · subst hu
    have hlevel := h.level
    rw [GompData.level] at hlevel
    simp only [Live, hnodup.1, not_false_eq_true, true_and, true_or, iff_true]
    omega
  · simp [Live, h.teamPoolList, hu, h.descriptor_ne u hu]

theorem currTeam_of_busy {i : Nat} (hi : i ∈ members s.threadPool) (hne : i ≠ pid) :
    s'.currTeam i = s.currTeam i := by
  rw [h.currTeam, if_neg]
  intro hmem
  obtain rfl | hslave := List.mem_cons.mp hmem
  · exact hne rfl
  · exact (h.idle i hslave).2 hi

theorem idleSet_eq :
    s'.idleSet nprocs = s.idleSet nprocs \ slaves.toFinset := by
  ext i
  simp [idleSet, h.threadPool, -mem_members]
  tauto

theorem idleCores_eq (hinv : s.Inv nprocs) (hnprocs : nprocs ≤ 16) : s'.idleCores.toNat = (s'.idleSet nprocs).card := by
  have hsub : slaves.toFinset ⊆ s.idleSet nprocs := by
    intro i hi
    obtain ⟨hlt, hidle⟩ := h.idle i (List.mem_toFinset.mp hi)
    rw [idleSet, Finset.mem_filter, Finset.mem_range]
    exact ⟨hlt, hidle⟩
  have hcard : slaves.toFinset.card = slaves.length :=
    List.toFinset_card_of_nodup (List.nodup_cons.mp h.roster.nodup).2
  have hle : (s.idleSet nprocs).card ≤ nprocs := by
    have := Finset.card_filter_le (Finset.range nprocs) (· ∉ members s.threadPool)
    rwa [Finset.card_range] at this
  have hsubcard := Finset.card_le_card hsub
  have hnthreads : ((s'.teamDescriptorPool t).nthreads - 1#32).toNat = slaves.length := by
    have hlength := h.roster.nthreads
    rw [List.length_cons] at hlength
    rw [BitVec.toNat_sub, BitVec.toNat_ofNat, hlength]
    omega
  rw [h.idleSet_eq, Finset.card_sdiff_of_subset hsub, hcard, h.idleCores,
    BitVec.toNat_sub, hnthreads, hinv.idleCores]
  omega

/-- The start of a region keeps the invariant. -/
theorem inv (hinv : s.Inv nprocs) (hpid : pid < nprocs) (hbusy : pid ∈ members s.threadPool)
    (hnprocs : nprocs ≤ 16) : s'.Inv nprocs := by
  obtain ⟨hpool, hroot, hnested, hinner⟩ := hinv.currTeam_busy hbusy h.currTeam_pid
  have hparent : parent ≠ t := by
    intro heq
    exact hpool (by simp [heq, h.teamPoolList])
  have hlive : ∀ u, s'.Live u ↔ u = t ∨ s.Live u := fun u => h.live_iff hinv
  have hbusy_of_mem : ∀ u, s.Live u → ∀ i ∈ s.cores u, i ∈ members s.threadPool :=
    fun u hu i hi => (hinv.busy i).mpr (Or.inr ⟨u, hu, hi⟩)
  have hslave : ∀ u, s.Live u → ∀ i ∈ s.cores u, i ∉ slaves :=
    fun u hu i hi hmem => (h.idle i hmem).2 (hbusy_of_mem u hu i hi)
  have hpool' : ∀ u, u ∉ s.teamPoolList → u ∉ s'.teamPoolList := by
    intro u hu hmem
    exact hu (by simp [h.teamPoolList, hmem])
  -- a team that was there shares at most `pid` with the new one
  have hpid_of_mem : ∀ u, s.Live u → ∀ i ∈ s.cores u, i ∈ s'.cores t →
      i = pid ∧ s.level u < s'.level t := by
    intro u hu i hiu hit
    have hi : i = pid := (h.mem_cores.mp hit).resolve_right (hslave u hu i hiu)
    have hle := hinner u hu (hi ▸ hiu)
    have hlevel := h.level
    exact ⟨hi, by omega⟩
  constructor
  case nodup =>
    have hnodup := hinv.nodup
    rw [h.teamPoolList, List.nodup_cons] at hnodup
    exact hnodup.2
  case roster =>
    intro u hu
    obtain rfl | hu := (hlive u).mp hu
    · rw [h.forker_eq]
      exact ⟨slaves, h.roster⟩
    · obtain ⟨others, hroster⟩ := hinv.roster u hu
      rw [h.forker_ne (h.ne_of_live hu), h.descriptor_ne u (h.ne_of_live hu)]
      exact ⟨others, hroster⟩
  case cores_lt =>
    intro u hu i hi
    obtain rfl | hu := (hlive u).mp hu
    · obtain rfl | hmem := h.mem_cores.mp hi
      · exact hpid
      · exact (h.idle i hmem).1
    · rw [h.cores_ne (h.ne_of_live hu)] at hi
      exact hinv.cores_lt u hu i hi
  case parent =>
    intro u hu
    obtain rfl | hu := (hlive u).mp hu
    · refine ⟨parent, h.parent_eq, hpool' parent hpool, ?_⟩
      rw [h.level_ne hparent, h.level, h.forker_eq, h.cores_ne hparent]
      exact ⟨rfl, hroot, hnested⟩
    · obtain ⟨q, hq, hqpool, hrest⟩ := hinv.parent u hu
      have hqt : q ≠ t := by
        intro heq
        exact hqpool (by simp [heq, h.teamPoolList])
      refine ⟨q, ?_, hpool' q hqpool, ?_⟩
      · rw [h.descriptor_ne u (h.ne_of_live hu), hq]
      · rw [h.level_ne (h.ne_of_live hu), h.level_ne hqt, h.forker_ne (h.ne_of_live hu),
          h.cores_ne hqt]
        exact hrest
  case shared =>
    intro u v hu hv hne hle i hiu hiv
    obtain rfl | hu := (hlive u).mp hu
    · have hv := ((hlive v).mp hv).resolve_left hne.symm
      rw [h.cores_ne hne.symm] at hiv
      rw [h.level_ne hne.symm] at hle
      have := (hpid_of_mem v hv i hiv hiu).2
      omega
    · have hut := h.ne_of_live hu
      rw [h.cores_ne hut] at hiu
      rw [h.level_ne hut] at hle ⊢
      obtain rfl | hv := (hlive v).mp hv
      · obtain ⟨hi, hlt⟩ := hpid_of_mem u hu i hiu hiv
        rw [h.forker_eq]
        exact ⟨hlt, hi.symm⟩
      · have hvt := h.ne_of_live hv
        rw [h.cores_ne hvt] at hiv
        rw [h.level_ne hvt] at hle ⊢
        rw [h.forker_ne hvt]
        exact hinv.shared u v hu hv hne hle i hiu hiv
  case innermost =>
    intro u hu i hi
    have htlive : s'.Live t := (hlive t).mpr (Or.inl rfl)
    by_cases hit : i ∈ s'.cores t
    · refine ⟨t, ?_, htlive, hit, ?_⟩
      · rw [h.currTeam, if_pos (List.mem_cons.mpr (h.mem_cores.mp hit))]
      · obtain rfl | hu := (hlive u).mp hu
        · exact Nat.le_refl _
        · rw [h.cores_ne (h.ne_of_live hu)] at hi
          rw [h.level_ne (h.ne_of_live hu)]
          exact (hpid_of_mem u hu i hi hit).2.le
    · have hut : u ≠ t := by
        intro heq
        exact hit (heq ▸ hi)
      have hu := ((hlive u).mp hu).resolve_left hut
      rw [h.cores_ne hut] at hi
      obtain ⟨v, hv, hvlive, hiv, hle⟩ := hinv.innermost u hu i hi
      have hvt := h.ne_of_live hvlive
      refine ⟨v, ?_, (hlive v).mpr (Or.inr hvlive), ?_, ?_⟩
      · rw [h.currTeam_of_busy (hbusy_of_mem u hu i hi), hv]
        intro heq
        exact hit (h.mem_cores.mpr (Or.inl heq))
      · rwa [h.cores_ne hvt]
      · rwa [h.level_ne hut, h.level_ne hvt]
  case master =>
    intro hnone
    have hold : ∀ u, s.Live u → 0 ∉ s.cores u := by
      intro u hu hmem
      apply hnone u ((hlive u).mpr (Or.inr hu))
      rwa [h.cores_ne (h.ne_of_live hu)]
    obtain ⟨r, hr, hrpool, hrlevel⟩ := hinv.master hold
    have hrt : r ≠ t := by
      intro heq
      exact hrpool (by simp [heq, h.teamPoolList])
    refine ⟨r, ?_, hpool' r hrpool, ?_⟩
    · rw [h.currTeam_of_busy ((hinv.busy 0).mpr (Or.inl rfl)), hr]
      intro heq
      exact hnone t ((hlive t).mpr (Or.inl rfl)) (h.mem_cores.mpr (Or.inl heq))
    · rwa [h.level_ne hrt]
  case busy =>
    intro i
    rw [h.threadPool, Finset.mem_union, List.mem_toFinset]
    constructor
    · intro hi
      obtain hi | hi := hi
      · obtain rfl | ⟨u, hu, hmem⟩ := (hinv.busy i).mp hi
        · exact Or.inl rfl
        · refine Or.inr ⟨u, (hlive u).mpr (Or.inr hu), ?_⟩
          rwa [h.cores_ne (h.ne_of_live hu)]
      · exact Or.inr ⟨t, (hlive t).mpr (Or.inl rfl), h.mem_cores.mpr (Or.inr hi)⟩
    · intro hi
      obtain rfl | ⟨u, hu, hmem⟩ := hi
      · exact Or.inl ((hinv.busy 0).mpr (Or.inl rfl))
      · obtain rfl | hu := (hlive u).mp hu
        · obtain rfl | hslave := h.mem_cores.mp hmem
          · exact Or.inl hbusy
          · exact Or.inr hslave
        · rw [h.cores_ne (h.ne_of_live hu)] at hmem
          exact Or.inl (hbusy_of_mem u hu i hmem)
  case idleCores => exact h.idleCores_eq hinv hnprocs
  case outermost =>
    intro u hu hone
    obtain rfl | hu := (hlive u).mp hu
    · have hlevel := h.level
      have hroster := h.roster
      rw [h.outermost (by omega)] at hroster
      rwa [hroster.nthreads, List.length_range]
    · rw [h.level_ne (h.ne_of_live hu)] at hone
      rw [h.descriptor_ne u (h.ne_of_live hu)]
      exact hinv.outermost u hu hone
  case cached =>
    intro hnone
    exact absurd ((hlive t).mpr (Or.inl rfl)) (hnone t)

end Forked

/-- Core `pid` may end the team it has forked: no core of the team is in an inner region. -/
def CanEnd (s : GompData) (pid : Nat) (t : TeamId) : Prop :=
  s.currTeam pid = some t ∧ s.Live t ∧ s.forker t = pid ∧ ∀ i ∈ s.cores t, s.currTeam i = some t

instance (s : GompData) (pid : Nat) (t : TeamId) : Decidable (s.CanEnd pid t) :=
  inferInstanceAs (Decidable (_ ∧ _))

/-- What the end of team `t` by core `pid` does. -/
structure Joined (s : GompData) (pid : Nat) (t : TeamId) (s' : GompData) : Prop where
  teamPoolList : s'.teamPoolList = t :: s.teamPoolList
  threadPool : ∀ i, i ∈ members s'.threadPool ↔
    i ∈ members s.threadPool ∧ (i ∈ s.cores t → i = pid)
  idleCores : s'.idleCores = s.idleCores + ((s.teamDescriptorPool t).nthreads - 1#32)
  currTeam_pid : s'.currTeam pid = (s.teamDescriptorPool t).parent
  currTeam_ne : ∀ i ≠ pid, s'.currTeam i = s.currTeam i
  descriptor : s'.teamDescriptorPool = s.teamDescriptorPool
  lruTeam : s'.lruTeam = some t

theorem joined_of_gompTeamEnd (hpid : pid < 32) (ht : s.currTeam pid = some t)
    (h : gompTeamEnd pid s = some s') : s.Joined pid t s' := by
  simp only [gompTeamEnd, ht, Option.bind_eq_bind, Option.bind_some, Option.pure_def,
    Option.some.injEq] at h
  subst h
  constructor
  case threadPool =>
    intro i
    have hone : (1#32 <<< pid).getLsbD i = decide (i = pid) := by
      rw [← BitVec.twoPow_eq, BitVec.getLsbD_twoPow]
      simp [hpid, eq_comm]
    simp only [gompPushTeamPool, setCurrTeam, mem_members, cores, BitVec.getLsbD_and,
      BitVec.getLsbD_or, BitVec.getLsbD_not, hone, Bool.and_eq_true, Bool.or_eq_true,
      decide_eq_true_eq, Bool.not_eq_true']
    by_cases hi : i < 32
    · cases (s.teamDescriptorPool t).team.getLsbD i <;> simp [hi]
    · simp [BitVec.getLsbD_of_ge s.threadPool i (by omega)]
  case currTeam_ne =>
    intro i hi
    simp [gompPushTeamPool, setCurrTeam, hi]
  all_goals simp [gompPushTeamPool, setCurrTeam]

namespace Joined

variable (h : s.Joined pid t s')
include h

theorem live_iff : s'.Live u ↔ u ≠ t ∧ s.Live u := by
  simp [Live, h.teamPoolList, h.descriptor, and_assoc]

theorem level_eq : s'.level u = s.level u := by
  rw [level, h.descriptor, level]

theorem cores_eq : s'.cores u = s.cores u := by
  rw [cores, h.descriptor, cores]

theorem forker_eq : s'.forker u = s.forker u := by
  rw [forker, h.descriptor, forker]

end Joined

section

variable (hinv : s.Inv nprocs) (hend : s.CanEnd pid t)
include hinv hend

/-- The team that ends is the innermost of each of its cores. -/
theorem CanEnd.level_lt {i : Nat} (hu : s.Live u) (hne : u ≠ t) (hit : i ∈ s.cores t)
    (hiu : i ∈ s.cores u) : i = pid ∧ s.level u < s.level t := by
  obtain ⟨-, htlive, hforker, hcurr⟩ := hend
  obtain ⟨v, hv, -, -, hle⟩ := hinv.innermost u hu i hiu
  cases (hcurr i hit).symm.trans hv
  obtain ⟨hlt, hi⟩ := hinv.shared u t hu htlive hne hle i hiu hit
  exact ⟨hi.symm.trans hforker, hlt⟩

theorem CanEnd.parent_ne {q : TeamId} (hu : s.Live u)
    (hq : (s.teamDescriptorPool u).parent = some q) : q ≠ t := by
  intro heq
  subst heq
  obtain ⟨p, hp, -, hlevel, -, hnested⟩ := hinv.parent u hu
  cases hq.symm.trans hp
  have hut : u ≠ q := by
    intro h
    subst h
    omega
  have hmem := hnested hend.2.1.2
  have := (hend.level_lt hinv hu hut hmem (hinv.forker_mem hu)).2
  omega

/-- The initial thread is in the team only if it has forked it. -/
theorem CanEnd.eq_zero (hone : s.level t = 1) : pid = 0 := by
  obtain ⟨-, htlive, hforker, -⟩ := hend
  obtain ⟨q, -, -, hlevel, hroot, -⟩ := hinv.parent t htlive
  rw [← hforker]
  exact hroot (by omega)

/-- Another region goes on unless the team that ends is outermost. -/
theorem CanEnd.exists_other (hone : s.level t ≠ 1) :
    ∃ u, u ≠ t ∧ s.Live u ∧ 0 ∈ s.cores u := by
  obtain ⟨u, hu, hlevel, hmem⟩ := hinv.exists_outermost hend.2.1
  refine ⟨u, ?_, hu, hmem⟩
  intro heq
  exact hone (heq ▸ hlevel)

theorem CanEnd.pid_of_zero_mem (hmem : 0 ∈ s.cores t) : pid = 0 := by
  by_cases hone : s.level t = 1
  · exact hend.eq_zero hinv hone
  · obtain ⟨u, hne, hu, hzero⟩ := hend.exists_other hinv hone
    exact (hend.level_lt hinv hu hne hmem hzero).1.symm

end

namespace Joined

variable (h : s.Joined pid t s') (hinv : s.Inv nprocs) (hend : s.CanEnd pid t)
include h hinv hend

theorem idleSet_eq : s'.idleSet nprocs = s.idleSet nprocs ∪ (s.cores t).erase pid := by
  have hcores := hinv.cores_lt t hend.2.1
  ext i
  simp only [idleSet, Finset.mem_filter, Finset.mem_range, h.threadPool, Finset.mem_union,
    Finset.mem_erase]
  constructor
  · intro hi
    by_cases hbusy : i ∈ members s.threadPool
    · obtain ⟨-, hnot⟩ := hi
      refine Or.inr ⟨?_, ?_⟩
      · intro hpid
        exact hnot ⟨hbusy, fun _ => hpid⟩
      · by_contra hmem
        exact hnot ⟨hbusy, fun hmem' => absurd hmem' hmem⟩
    · exact Or.inl ⟨hi.1, hbusy⟩
  · intro hi
    obtain ⟨hlt, hidle⟩ | ⟨hne, hmem⟩ := hi
    · exact ⟨hlt, fun hbusy => hidle hbusy.1⟩
    · exact ⟨hcores i hmem, fun hbusy => hne (hbusy.2 hmem)⟩

theorem idleCores_eq (hnprocs : nprocs ≤ 16) :
    s'.idleCores.toNat = (s'.idleSet nprocs).card := by
  have htlive := hend.2.1
  obtain ⟨slaves, hroster⟩ := hinv.roster t htlive
  have hcard : (s.cores t).card = (s.teamDescriptorPool t).nthreads.toNat := hroster.card_team
  have hpid : pid ∈ s.cores t := by
    rw [← hend.2.2.1]
    exact hinv.forker_mem htlive
  have hpos := Finset.card_pos.mpr ⟨pid, hpid⟩
  have hdisj : Disjoint (s.idleSet nprocs) ((s.cores t).erase pid) := by
    rw [Finset.disjoint_left]
    intro i hi hmem
    rw [idleSet, Finset.mem_filter] at hi
    exact hi.2 ((hinv.busy i).mpr (Or.inr ⟨t, htlive, Finset.mem_of_mem_erase hmem⟩))
  have hle : (s'.idleSet nprocs).card ≤ nprocs := by
    have := Finset.card_filter_le (Finset.range nprocs) (· ∉ members s'.threadPool)
    rwa [Finset.card_range] at this
  have hsum : (s'.idleSet nprocs).card =
      (s.idleSet nprocs).card + ((s.cores t).card - 1) := by
    rw [h.idleSet_eq hinv hend, Finset.card_union_of_disjoint hdisj,
      Finset.card_erase_of_mem hpid]
  have hnthreads : ((s.teamDescriptorPool t).nthreads - 1#32).toNat = (s.cores t).card - 1 := by
    rw [BitVec.toNat_sub, BitVec.toNat_ofNat, ← hcard]
    omega
  rw [h.idleCores, BitVec.toNat_add, hnthreads, hinv.idleCores]
  omega

/-- The end of a region keeps the invariant. -/
theorem inv (hnprocs : nprocs ≤ 16) : s'.Inv nprocs := by
  obtain ⟨hcurr, htlive, hforker, hcores⟩ := hend
  have hend : s.CanEnd pid t := ⟨hcurr, htlive, hforker, hcores⟩
  obtain ⟨q, hq, hqpool, hlevel, hroot, hnested⟩ := hinv.parent t htlive
  rw [hforker] at hroot hnested
  have hqt : q ≠ t := hend.parent_ne hinv htlive hq
  have hpool : ∀ v, v ≠ t → v ∉ s.teamPoolList → v ∉ s'.teamPoolList := by
    intro v hv hmem
    simp [h.teamPoolList, hv, hmem]
  -- what `pid` returns to
  have hback : ∀ u, s.Live u → u ≠ t → pid ∈ s.cores u → s.level u ≤ s.level q := by
    intro u hu hne hmem
    have hpid : pid ∈ s.cores t := by
      rw [← hforker]
      exact hinv.forker_mem htlive
    have := (hend.level_lt hinv hu hne hpid hmem).2
    omega
  have hqlive : s.level q ≠ 0 → s'.Live q := fun hne => h.live_iff.mpr ⟨hqt, hqpool, hne⟩
  constructor
  case nodup =>
    rw [h.teamPoolList, List.nodup_cons]
    exact ⟨htlive.1, hinv.nodup⟩
  case roster =>
    intro u hu
    rw [h.forker_eq, h.descriptor]
    exact hinv.roster u (h.live_iff.mp hu).2
  case cores_lt =>
    intro u hu
    rw [h.cores_eq]
    exact hinv.cores_lt u (h.live_iff.mp hu).2
  case parent =>
    intro u hu
    obtain ⟨p, hp, hppool, hrest⟩ := hinv.parent u (h.live_iff.mp hu).2
    have hpt := hend.parent_ne hinv (h.live_iff.mp hu).2 hp
    refine ⟨p, ?_, hpool p hpt hppool, ?_⟩
    · rw [h.descriptor, hp]
    · rw [h.level_eq, h.level_eq, h.forker_eq, h.cores_eq]
      exact hrest
  case shared =>
    intro u v hu hv
    rw [h.cores_eq, h.cores_eq, h.level_eq, h.level_eq, h.forker_eq]
    exact hinv.shared u v (h.live_iff.mp hu).2 (h.live_iff.mp hv).2
  case innermost =>
    intro u hu i hi
    obtain ⟨hut, hu⟩ := h.live_iff.mp hu
    rw [h.cores_eq] at hi
    obtain ⟨v, hv, hvlive, hiv, hle⟩ := hinv.innermost u hu i hi
    by_cases hipid : i = pid
    · subst hipid
      have hle := hback u hu hut hi
      have hune : s.level u ≠ 0 := hu.2
      refine ⟨q, ?_, hqlive (by omega), ?_, ?_⟩
      · rw [h.currTeam_pid, hq]
      · rw [h.cores_eq]
        exact hnested (by omega)
      · rwa [h.level_eq, h.level_eq]
    · have hvt : v ≠ t := by
        intro heq
        subst heq
        exact hipid (hend.level_lt hinv hu hut hiv hi).1
      refine ⟨v, ?_, h.live_iff.mpr ⟨hvt, hvlive⟩, ?_, ?_⟩
      · rw [h.currTeam_ne i hipid, hv]
      · rwa [h.cores_eq]
      · rwa [h.level_eq, h.level_eq]
  case master =>
    intro hnone
    have hone : s.level t = 1 := by
      by_contra hne
      obtain ⟨u, hut, hu, hmem⟩ := hend.exists_other hinv hne
      apply hnone u (h.live_iff.mpr ⟨hut, hu⟩)
      rwa [h.cores_eq]
    have hpid := hend.eq_zero hinv hone
    subst hpid
    refine ⟨q, ?_, hpool q hqt hqpool, ?_⟩
    · rw [h.currTeam_pid, hq]
    · rw [h.level_eq]
      omega
  case busy =>
    intro i
    rw [h.threadPool]
    constructor
    · intro hi
      obtain ⟨hbusy, hmem⟩ := hi
      obtain rfl | ⟨u, hu, hiu⟩ := (hinv.busy i).mp hbusy
      · exact Or.inl rfl
      · by_cases hut : u = t
        · subst hut
          have hipid := hmem hiu
          subst hipid
          by_cases hzero : s.level q = 0
          · exact Or.inl (hroot hzero)
          · refine Or.inr ⟨q, hqlive hzero, ?_⟩
            rw [h.cores_eq]
            exact hnested hzero
        · refine Or.inr ⟨u, h.live_iff.mpr ⟨hut, hu⟩, ?_⟩
          rwa [h.cores_eq]
    · intro hi
      obtain rfl | ⟨u, hu, hmem⟩ := hi
      · refine ⟨(hinv.busy 0).mpr (Or.inl rfl), ?_⟩
        intro hmem
        exact (hend.pid_of_zero_mem hinv hmem).symm
      · obtain ⟨hut, hu⟩ := h.live_iff.mp hu
        rw [h.cores_eq] at hmem
        refine ⟨(hinv.busy i).mpr (Or.inr ⟨u, hu, hmem⟩), ?_⟩
        intro hit
        exact (hend.level_lt hinv hu hut hit hmem).1
  case idleCores => exact h.idleCores_eq hinv hend hnprocs
  case outermost =>
    intro u hu
    rw [h.level_eq, h.descriptor]
    exact hinv.outermost u (h.live_iff.mp hu).2
  case cached =>
    intro hnone
    have hone : s.level t = 1 := by
      by_contra hne
      obtain ⟨u, hut, hu, -⟩ := hend.exists_other hinv hne
      exact hnone u (h.live_iff.mpr ⟨hut, hu⟩)
    have hpid := hend.eq_zero hinv hone
    have hroster := hinv.outermost t htlive hone
    have hlt : ∀ i < (s.teamDescriptorPool t).nthreads.toNat, i ∈ s.cores t := by
      intro i hi
      exact hroster.mem_team.mpr (List.mem_range.mpr hi)
    refine ⟨t, s.teamPoolList, h.teamPoolList, ?_⟩
    constructor
    case lruTeam => exact h.lruTeam
    case nthreads =>
      rw [h.descriptor]
      by_contra hgt
      have := hinv.cores_lt t htlive nprocs (hlt nprocs (by omega))
      omega
    case procIds =>
      intro i hi
      rw [h.descriptor] at hi ⊢
      rw [hroster.procIds i (by rwa [List.length_range]), List.getElem_range]
    case threadIds =>
      intro i hi
      rw [h.descriptor] at hi ⊢
      have hid := hroster.threadIds i (by rwa [List.length_range])
      rwa [List.getElem_range] at hid
    case currTeam =>
      intro i hpos hi
      rw [h.descriptor] at hi
      rw [h.currTeam_ne i (by omega), hcores i (hlt i hi)]

end Joined

end GompData

end Hero.Libgomp
