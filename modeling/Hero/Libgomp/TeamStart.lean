import Hero.Libgomp.TeamInvariant

/-!
# The start of a parallel region

The start of a region keeps the invariant of the teams unless the request is negative or sixteen
cores run on the cached team.
-/

namespace Hero.Libgomp

open Hero.BitField

namespace GompData

/-- `gomp_team_start` before it looks for cores. -/
def opened (s : GompData) (t parent : TeamId) (next : List TeamId) (numThreads : BitVec 32) :
    GompData :=
  { s with idleCores := s.idleCores - (numThreads - 1#32), teamPoolList := next }.modifyTeam t
    fun d => { d with level := (s.teamDescriptorPool parent).level + 1, parent := some parent }

end GompData

variable {s s' : GompData} {nprocs pid : Nat} {t parent : TeamId} {next : List TeamId}
  {specified numThreads : BitVec 32}

theorem gompTeamStart_eq (hpool : s.teamPoolList = t :: next) (hcurr : s.currTeam pid = some parent)
    (hnum : (gompResolveNumThreads specified s).1 = numThreads) :
    gompTeamStart nprocs pid specified s =
      (if (s.teamDescriptorPool parent).level = 0 ∧ s.lruTeam = some t ∧
          numThreads ≤ (s.teamDescriptorPool t).nthreads then
        gompTeamHit t numThreads (s.opened t parent next numThreads)
      else
        some (gompTeamMiss nprocs pid t numThreads (s.opened t parent next numThreads))).map
          (·.setCurrTeam pid (some t)) := by
  subst hnum
  simp only [gompTeamStart, gompResolveNumThreads_snd, gompPullTeamPool, hpool,
    Option.bind_eq_bind, Option.bind_some, hcurr, GompData.opened, GompData.modifyTeam,
    Function.update_self, Nat.add_eq_right, Option.pure_def]
  rw [apply_ite (Option.map _), Option.map_eq_bind, Option.map_some]
  rfl

theorem toNat_pred {n : BitVec 32} (hpos : 1 ≤ n.toNat) : (n - 1#32).toNat = n.toNat - 1 := by
  rw [BitVec.toNat_sub, BitVec.toNat_ofNat]
  omega

theorem zero_cons_range' {n : Nat} (hpos : 1 ≤ n) : 0 :: List.range' 1 (n - 1) = List.range n := by
  cases n with
  | zero => omega
  | succ n =>
    rw [List.range_eq_range', List.range'_succ]
    rfl

section

variable (hinv : s.Inv nprocs) (hnprocs : nprocs ≤ 16) (hpid : pid < nprocs)
  (hbusy : pid ∈ members s.threadPool) (hpool : s.teamPoolList = t :: next)
  (hcurr : s.currTeam pid = some parent)
include hinv

/-- The idle cores in the order of the loop. -/
theorem length_filter_idle :
    ((List.range' 1 (nprocs - 1)).filter (· ∉ members s.threadPool)).length =
      s.idleCores.toNat := by
  have hnodup : ((List.range' 1 (nprocs - 1)).filter (· ∉ members s.threadPool)).Nodup :=
    List.Nodup.filter _ List.nodup_range'
  rw [hinv.idleCores, ← List.toFinset_card_of_nodup hnodup]
  congr 1
  ext i
  simp only [List.mem_toFinset, List.mem_filter, List.mem_range'_1, decide_eq_true_eq,
    GompData.idleSet, Finset.mem_filter, Finset.mem_range]
  constructor
  · intro hi
    exact ⟨by omega, hi.2⟩
  · intro hi
    refine ⟨?_, hi.2⟩
    have hne : i ≠ 0 := by
      intro hzero
      exact hi.2 ((hinv.busy i).mpr (Or.inl hzero))
    omega

include hnprocs hpid hbusy hpool hcurr

/-- The cores that are looked up form a team with the one that forks. -/
theorem forked_of_miss (hpos : 1 ≤ numThreads.toNat)
    (hle : numThreads.toNat ≤ s.idleCores.toNat + 1) :
    ∃ slaves, s.Forked nprocs pid t parent slaves
      ((gompTeamMiss nprocs pid t numThreads (s.opened t parent next numThreads)).setCurrTeam pid
        (some t)) := by
  have hpid32 : pid < 32 := by omega
  have hspec := fetchIdleCores_spec (t := t) (List.range' 1 (nprocs - 1)) List.nodup_range'
    (by
      intro i hi
      rw [List.mem_range'_1] at hi
      omega)
    (numThreads - 1#32).toNat 1 ((s.opened t parent next numThreads).enterMaster t pid numThreads)
  rw [gompTeamMiss]
  generalize hs₁ : (s.opened t parent next numThreads).enterMaster t pid numThreads = s₁ at hspec ⊢
  generalize fetchIdleCores t _ _ _ _ = s₂ at hspec ⊢
  have hthreadPool : s₁.threadPool = s.threadPool := by
    rw [← hs₁]
    rfl
  have hd : s₁.teamDescriptorPool t =
      { s.teamDescriptorPool t with
        level := s.level parent + 1
        parent := some parent
        team := 0#32 ||| (1#32 <<< pid)
        nthreads := numThreads
        threadIds := Function.update (s.teamDescriptorPool t).threadIds pid 0
        procIds := Function.update (s.teamDescriptorPool t).procIds 0 pid } := by
    simp [← hs₁, GompData.opened, GompData.enterMaster, GompData.modifyTeam, GompData.level]
  rw [hthreadPool, toNat_pred hpos] at hspec
  generalize hslaves : ((List.range' 1 (nprocs - 1)).filter _).take _ = slaves at hspec
  have hlength : slaves.length = numThreads.toNat - 1 := by
    rw [← hslaves, List.length_take, length_filter_idle hinv]
    omega
  have hmem : ∀ i ∈ slaves, i < nprocs ∧ i ∉ members s.threadPool := by
    intro i hi
    rw [← hslaves] at hi
    have hi := List.mem_of_mem_take hi
    rw [List.mem_filter, List.mem_range'_1] at hi
    exact ⟨by omega, by simpa using hi.2⟩
  have hpidmem : pid ∉ slaves := fun hi => (hmem pid hi).2 hbusy
  have hnodup : slaves.Nodup := by
    rw [← hslaves]
    exact (List.take_sublist _ _).nodup (List.Nodup.filter _ List.nodup_range')
  refine ⟨slaves, ?_⟩
  constructor
  case teamPoolList =>
    rw [hpool]
    simp [GompData.setCurrTeam, hspec.teamPoolList, ← hs₁, GompData.opened, GompData.enterMaster,
      GompData.modifyTeam]
  case currTeam_pid => exact hcurr
  case level =>
    simp only [GompData.level, GompData.setCurrTeam, hspec.level, hd]
  case parent_eq =>
    simp only [GompData.setCurrTeam, hspec.parent, hd]
  case roster =>
    constructor
    case nodup => exact List.nodup_cons.mpr ⟨hpidmem, hnodup⟩
    case members_team =>
      simp [GompData.setCurrTeam, hspec.team, hd, hpid32]
    case nthreads =>
      simp only [GompData.setCurrTeam, hspec.nthreads, hd, List.length_cons]
      omega
    case procIds =>
      intro k hk
      cases k with
      | zero => simp [GompData.setCurrTeam, hspec.procIds_lt 0 (by omega), hd]
      | succ k =>
        have hk : k < slaves.length := by simpa using hk
        rw [List.getElem_cons_succ, ← hspec.procIds_get k hk, Nat.add_comm 1 k]
        rfl
    case threadIds =>
      intro k hk
      cases k with
      | zero => simp [GompData.setCurrTeam, hspec.threadIds_notMem pid hpidmem, hd]
      | succ k =>
        have hk : k < slaves.length := by simpa using hk
        rw [List.getElem_cons_succ, Nat.add_comm k 1]
        exact hspec.threadIds_get k hk
  case idle => exact hmem
  case threadPool =>
    simp only [GompData.setCurrTeam, hspec.threadPool, hthreadPool]
  case currTeam =>
    intro i
    by_cases hi : i = pid
    · simp [GompData.setCurrTeam, hi]
    · simp [GompData.setCurrTeam, hi, hspec.currTeam, ← hs₁, GompData.opened, GompData.enterMaster,
        GompData.modifyTeam]
  case descriptor_ne =>
    intro u hu
    simp [GompData.setCurrTeam, hspec.descriptor_ne u hu, ← hs₁, GompData.opened,
      GompData.enterMaster, GompData.modifyTeam, hu]
  case idleCores =>
    simp only [GompData.setCurrTeam, hspec.idleCores, hspec.nthreads, hd]
    simp [← hs₁, GompData.opened, GompData.enterMaster, GompData.modifyTeam]
  case outermost =>
    intro hlevel
    obtain ⟨hzero, hnone⟩ := hinv.not_live_of_level_eq_zero hbusy hcurr hlevel
    have hidle : (List.range' 1 (nprocs - 1)).filter (· ∉ members s.threadPool) =
        List.range' 1 (nprocs - 1) := by
      rw [List.filter_eq_self]
      intro i hi
      rw [List.mem_range'_1] at hi
      rw [decide_eq_true_eq, hinv.busy, not_or]
      refine ⟨by omega, ?_⟩
      intro h
      obtain ⟨u, hu, -⟩ := h
      exact hnone u hu
    have hslaves : slaves = List.range' 1 slaves.length := by
      rw [hlength, ← hslaves, hidle, List.take_range'_of_length_ge]
      have := length_filter_idle hinv
      rw [hidle, List.length_range'] at this
      omega
    rw [hzero, List.range_eq_range', List.range'_succ]
    simpa using hslaves

omit hnprocs hpid in
/-- The team that ended last is the next one from the pool when no region runs. -/
theorem cached_of_level_eq_zero (hlevel : s.level parent = 0) : s.Cached nprocs t := by
  obtain ⟨-, hnone⟩ := hinv.not_live_of_level_eq_zero hbusy hcurr hlevel
  obtain ⟨u, us, hu, hcached⟩ := hinv.cached hnone
  rw [hpool, List.cons.injEq] at hu
  rwa [hu.1]

omit hnprocs hpid in
/-- The cores of the cached team form a team again, if they are fewer than sixteen. -/
theorem forked_of_hit (hlevel : s.level parent = 0)
    (hle : numThreads ≤ (s.teamDescriptorPool t).nthreads) (hpos : 1 ≤ numThreads.toNat)
    (hlt : numThreads.toNat < 16)
    (h : gompTeamHit t numThreads (s.opened t parent next numThreads) = some s') :
    ∃ slaves, s.Forked nprocs pid t parent slaves (s'.setCurrTeam pid (some t)) := by
  obtain ⟨hzero, hnone⟩ := hinv.not_live_of_level_eq_zero hbusy hcurr hlevel
  have hcached := cached_of_level_eq_zero hinv hbusy hpool hcurr hlevel
  subst hzero
  rw [BitVec.le_def] at hle
  simp only [gompTeamHit, getBitmask_eq_some hpos hlt.le, Nat.min_eq_left (by omega :
    numThreads.toNat ≤ 15), Option.bind_eq_bind, Option.bind_some, Option.pure_def,
    Option.some.injEq] at h
  have hrange := zero_cons_range' hpos
  have hmask : members (bitMaskGen 32 numThreads.toNat) =
      (List.range numThreads.toNat).toFinset := by
    rw [members_bitMaskGen (by omega)]
    ext i
    simp
  have hmembers : members s.threadPool = {0} := by
    ext i
    rw [hinv.busy, Finset.mem_singleton]
    constructor
    · intro hi
      obtain hi | ⟨u, hu, -⟩ := hi
      · exact hi
      · exact absurd hu (hnone u)
    · exact Or.inl
  subst h
  refine ⟨List.range' 1 (numThreads.toNat - 1), ?_⟩
  constructor
  case teamPoolList => exact hpool
  case currTeam_pid => exact hcurr
  case level => simp [GompData.level, GompData.setCurrTeam, GompData.opened, GompData.modifyTeam]
  case parent_eq => simp [GompData.setCurrTeam, GompData.opened, GompData.modifyTeam]
  case roster =>
    rw [hrange]
    constructor
    case nodup => exact List.nodup_range
    case members_team =>
      simp [GompData.setCurrTeam, GompData.opened, GompData.modifyTeam, hmask]
    case nthreads => simp [GompData.setCurrTeam, GompData.opened, GompData.modifyTeam]
    case procIds =>
      intro k hk
      rw [List.length_range] at hk
      simp [GompData.setCurrTeam, GompData.opened, GompData.modifyTeam,
        hcached.procIds k (by omega)]
    case threadIds =>
      intro k hk
      rw [List.length_range] at hk
      simp [GompData.setCurrTeam, GompData.opened, GompData.modifyTeam,
        hcached.threadIds k (by omega)]
  case idle =>
    intro i hi
    rw [List.mem_range'_1] at hi
    have := hcached.nthreads
    rw [hmembers, Finset.mem_singleton]
    omega
  case threadPool =>
    simp only [GompData.setCurrTeam, GompData.opened, GompData.modifyTeam, members_or, hmask,
      hmembers, ← hrange]
    simp
  case currTeam =>
    intro i
    rw [hrange]
    by_cases hi : i = 0
    · simp [GompData.setCurrTeam, hi]
      omega
    · by_cases hlt : i < numThreads.toNat
      · simp [GompData.setCurrTeam, GompData.opened, GompData.modifyTeam, hi, hlt,
          hcached.currTeam i (by omega) (by omega)]
      · simp [GompData.setCurrTeam, GompData.opened, GompData.modifyTeam, hi, hlt]
  case descriptor_ne =>
    intro u hu
    simp [GompData.setCurrTeam, GompData.opened, GompData.modifyTeam, hu]
  case idleCores => simp [GompData.setCurrTeam, GompData.opened, GompData.modifyTeam]
  case outermost =>
    intro _
    rw [hrange, List.length_range', Nat.sub_add_cancel hpos]

end

namespace GompData

/-- A region of the initial thread that gets all of sixteen cores on the cached team. -/
def CachesSixteen (s : GompData) (pid : Nat) (specified : BitVec 32) : Prop :=
  s.idleCores = 15#32 ∧ (specified = 0#32 ∨ 16 ≤ specified.toInt) ∧
    (∃ parent, s.currTeam pid = some parent ∧ s.level parent = 0) ∧
    ∃ lru, s.lruTeam = some lru ∧ 16 ≤ (s.teamDescriptorPool lru).nthreads.toNat

/-- The requests `gomp_team_start` handles. -/
def StartOk (s : GompData) (pid : Nat) (specified : BitVec 32) : Prop :=
  0 ≤ specified.toInt ∧ ¬ s.CachesSixteen pid specified

instance (s : GompData) (pid : Nat) (specified : BitVec 32) : Decidable (s.StartOk pid specified) :=
  inferInstanceAs (Decidable (0 ≤ specified.toInt ∧ ¬ (_ ∧ _ ∧ _ ∧ _)))

namespace Inv

variable (hinv : s.Inv nprocs) (hnprocs : nprocs ≤ 16)
include hinv

theorem idleCores_lt (hpid : pid < nprocs) (hbusy : pid ∈ members s.threadPool) :
    s.idleCores.toNat < nprocs := by
  rw [hinv.idleCores]
  have hsub : s.idleSet nprocs ⊆ (Finset.range nprocs).erase pid := by
    intro i hi
    rw [idleSet, Finset.mem_filter] at hi
    refine Finset.mem_erase.mpr ⟨?_, hi.1⟩
    intro heq
    exact hi.2 (heq ▸ hbusy)
  have hcard := Finset.card_le_card hsub
  rw [Finset.card_erase_of_mem (Finset.mem_range.mpr hpid), Finset.card_range] at hcard
  omega

theorem exists_currTeam (hbusy : pid ∈ members s.threadPool) :
    ∃ parent, s.currTeam pid = some parent := by
  by_cases hlive : ∃ t, s.Live t ∧ pid ∈ s.cores t
  · obtain ⟨t, ht, hmem⟩ := hlive
    obtain ⟨u, hu, -⟩ := hinv.innermost t ht pid hmem
    exact ⟨u, hu⟩
  · have hpid : pid = 0 := ((hinv.busy pid).mp hbusy).resolve_right hlive
    subst hpid
    obtain ⟨r, hr, -⟩ := hinv.master fun t ht hmem => hlive ⟨t, ht, hmem⟩
    exact ⟨r, hr⟩

include hnprocs

/-- A request that is handled forms a team. -/
theorem forked (hpid : pid < nprocs) (hbusy : pid ∈ members s.threadPool)
    (hok : s.StartOk pid specified) (h : gompTeamStart nprocs pid specified s = some s') :
    ∃ t parent slaves, s.Forked nprocs pid t parent slaves s' := by
  obtain ⟨hspec, hcache⟩ := hok
  obtain ⟨parent, hcurr⟩ := hinv.exists_currTeam hbusy
  have hidle := hinv.idleCores_lt hpid hbusy
  have hnum := toNat_numThreads (s := s) (by omega) hspec
  cases hpool : s.teamPoolList with
  | nil => simp [gompTeamStart, gompPullTeamPool, gompResolveNumThreads, hpool] at h
  | cons t next =>
    rw [gompTeamStart_eq hpool hcurr rfl] at h
    generalize (gompResolveNumThreads specified s).1 = numThreads at h hnum
    have hpos : 1 ≤ numThreads.toNat := by
      rw [hnum]
      split
      · omega
      · rename_i hne
        have : specified.toNat ≠ 0 := by simpa [← BitVec.toNat_inj] using hne
        omega
    have hle : numThreads.toNat ≤ s.idleCores.toNat + 1 := by
      rw [hnum]
      split <;> omega
    refine ⟨t, parent, ?_⟩
    split at h
    · rename_i hhit
      obtain ⟨hlevel, hlru, hcap⟩ := hhit
      have hlt : numThreads.toNat < 16 := by
        by_contra hge
        rw [BitVec.le_def] at hcap
        apply hcache
        refine ⟨?_, ?_, ⟨parent, hcurr, hlevel⟩, t, hlru, by omega⟩
        · rw [← BitVec.toNat_inj, BitVec.toNat_ofNat]
          omega
        · by_cases hzero : specified = 0#32
          · exact Or.inl hzero
          · rw [if_neg hzero] at hnum
            rw [BitVec.toInt_eq_toNat_of_lt (BitVec.toInt_pos_iff.mp hspec)]
            omega
      obtain ⟨s₁, hs₁, rfl⟩ := Option.map_eq_some_iff.mp h
      exact forked_of_hit hinv hbusy hpool hcurr hlevel hcap hpos hlt hs₁
    · rw [Option.map_some, Option.some.injEq] at h
      subst h
      exact forked_of_miss hinv hnprocs hpid hbusy hpool hcurr hpos hle

end Inv

/-- A team that is said to have more threads than it has cores. -/
theorem not_sound_of_card_lt (hlive : s.Live t)
    (hlt : (s.cores t).card < (s.teamDescriptorPool t).nthreads.toNat) : ¬ s.Sound nprocs := by
  intro h
  have := h.card_cores t hlive
  omega

namespace Inv

variable (hinv : s.Inv nprocs) (hnprocs : nprocs ≤ 16)
include hinv hnprocs

/-- A negative request makes a team of more than `2 ^ 31` threads. -/
theorem not_sound_of_neg (hpid : pid < nprocs) (hbusy : pid ∈ members s.threadPool)
    (hpool : s.teamPoolList = t :: next) (hneg : specified.toInt < 0) :
    ∃ s', gompTeamStart nprocs pid specified s = some s' ∧ ¬ s'.Sound nprocs := by
  obtain ⟨parent, hcurr⟩ := hinv.exists_currTeam hbusy
  have hidle := hinv.idleCores_lt hpid hbusy
  have hnum := numThreads_of_neg (s := s) (by omega) hneg
  have hbig : 2 ^ 31 ≤ specified.toNat := by
    by_contra hlt
    rw [BitVec.toInt_eq_toNat_of_lt (by omega)] at hneg
    omega
  rw [gompTeamStart_eq hpool hcurr hnum, if_neg]
  · refine ⟨_, rfl, ?_⟩
    have hspec := fetchIdleCores_spec (t := t) (List.range' 1 (nprocs - 1)) List.nodup_range'
      (by
        intro i hi
        rw [List.mem_range'_1] at hi
        omega)
      (specified - 1#32).toNat 1 ((s.opened t parent next specified).enterMaster t pid specified)
    rw [gompTeamMiss]
    generalize fetchIdleCores t _ _ _ _ = s₁ at hspec ⊢
    have hnodup := hinv.nodup
    rw [hpool, List.nodup_cons] at hnodup
    apply not_sound_of_card_lt (t := t)
    · refine ⟨?_, ?_⟩
      · simpa [setCurrTeam, hspec.teamPoolList, enterMaster, opened, modifyTeam] using hnodup.1
      · simp [setCurrTeam, hspec.level, enterMaster, opened, modifyTeam]
    · have hcard := card_members_le (x := (s₁.teamDescriptorPool t).team)
      have hnthreads : (s₁.teamDescriptorPool t).nthreads = specified := by
        simp [hspec.nthreads, enterMaster, opened, modifyTeam]
      change (members (s₁.teamDescriptorPool t).team).card <
        (s₁.teamDescriptorPool t).nthreads.toNat
      rw [hnthreads]
      omega
  · intro hhit
    obtain ⟨hlevel, -, hle⟩ := hhit
    have hcached := cached_of_level_eq_zero hinv hbusy hpool hcurr hlevel
    have := hcached.nthreads
    rw [BitVec.le_def] at hle
    omega

omit hnprocs in
/-- The mask of sixteen threads has fifteen cores. -/
theorem not_sound_of_sixteen (hbusy : pid ∈ members s.threadPool)
    (hpool : s.teamPoolList = t :: next) (hspec : 0 ≤ specified.toInt)
    (hsixteen : s.CachesSixteen pid specified) :
    ∃ s', gompTeamStart nprocs pid specified s = some s' ∧ ¬ s'.Sound nprocs := by
  obtain ⟨hidle, hall, ⟨parent, hcurr, hlevel⟩, lru, hlru, hcap⟩ := hsixteen
  have hcached := cached_of_level_eq_zero hinv hbusy hpool hcurr hlevel
  cases hlru.symm.trans hcached.lruTeam
  have hnum : (gompResolveNumThreads specified s).1 = 16#32 := by
    rw [← BitVec.toNat_inj, toNat_numThreads (by simp [hidle]) hspec, hidle]
    split
    · rfl
    · rename_i hne
      have hge := hall.resolve_left hne
      rw [BitVec.toInt_eq_toNat_of_lt (BitVec.toInt_pos_iff.mp hspec)] at hge
      simp
      omega
  rw [gompTeamStart_eq hpool hcurr hnum, if_pos ⟨hlevel, hcached.lruTeam, by
    rw [BitVec.le_def]
    exact hcap⟩]
  refine ⟨_, rfl, ?_⟩
  have hnodup := hinv.nodup
  rw [hpool, List.nodup_cons] at hnodup
  apply not_sound_of_card_lt (t := t)
  · refine ⟨hnodup.1, ?_⟩
    simp [setCurrTeam, opened, modifyTeam]
  · simp [setCurrTeam, opened, modifyTeam, cores]
    decide

end Inv

end GompData

end Hero.Libgomp
