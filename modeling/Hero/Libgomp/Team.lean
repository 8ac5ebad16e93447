import Hero.Framework.BitField
import Hero.Framework.Machine
import Mathlib.Data.Set.Function
import Mathlib.Tactic.IntervalCases

/-!
# Teams of libgomp

A parallel region runs on a team of cores.  The cores of the teams are marked in the mask of the
thread pool, and the idle ones are counted beside it.
-/

namespace Hero.Libgomp

open Hero.BitField

/-- A descriptor of `team_descriptor_pool`, which has `MAX_TEAM_DESC` of them. -/
abbrev TeamId := Fin 4

/-- `gomp_team_t`, the part that says which cores the team has. -/
structure Team where
  level : Nat
  parent : Option TeamId
  nthreads : BitVec 32
  team : BitVec 32
  procIds : Nat → Nat
  threadIds : Nat → Nat

/-- `gomp_data_t`; the pool list has the next descriptor to pull in front. -/
structure GompData where
  threadPool : BitVec 32
  idleCores : BitVec 32
  currTeam : Nat → Option TeamId
  lruTeam : Option TeamId
  teamPoolList : List TeamId
  teamDescriptorPool : TeamId → Team

namespace GompData

def setCurrTeam (s : GompData) (pid : Nat) (team : Option TeamId) : GompData :=
  { s with currTeam := Function.update s.currTeam pid team }

def modifyTeam (s : GompData) (t : TeamId) (f : Team → Team) : GompData :=
  { s with teamDescriptorPool :=
      Function.update s.teamDescriptorPool t (f (s.teamDescriptorPool t)) }

end GompData

/-- `__getBitmask`; `none` is its assertion. -/
def getBitmask (nthreads : BitVec 32) : Option (BitVec 32) :=
  match nthreads.toNat with
  | 1 => some 0x0001#32
  | 2 => some 0x0003#32
  | 3 => some 0x0007#32
  | 4 => some 0x000F#32
  | 5 => some 0x001F#32
  | 6 => some 0x003F#32
  | 7 => some 0x007F#32
  | 8 => some 0x00FF#32
  | 9 => some 0x01FF#32
  | 10 => some 0x03FF#32
  | 11 => some 0x07FF#32
  | 12 => some 0x0FFF#32
  | 13 => some 0x1FFF#32
  | 14 => some 0x3FFF#32
  | 15 => some 0x7FFF#32
  | 16 => some 0x7FFF#32
  | _ => none

def gompPushTeamPool (t : TeamId) (s : GompData) : GompData :=
  { s with teamPoolList := t :: s.teamPoolList }

/-- `gomp_pull_team_pool`; `none` is the null pointer. -/
def gompPullTeamPool (s : GompData) : Option (TeamId × GompData) :=
  match s.teamPoolList with
  | [] => none
  | t :: next => some (t, { s with teamPoolList := next })

/-- `gomp_resolve_num_threads`; the comparison is one of `int`s. -/
def gompResolveNumThreads (specified : BitVec 32) (s : GompData) : BitVec 32 × GompData :=
  let nthr := s.idleCores + 1#32
  let nthr := if specified ≠ 0#32 ∧ specified.slt nthr = true then specified else nthr
  (nthr, { s with idleCores := s.idleCores - (nthr - 1#32) })

/-- `omp_initenv`, where `mem` is what the descriptors hold before. -/
def ompInitenv (nprocs : Nat) (mem : TeamId → Team) : GompData where
  threadPool := 0x1#32
  idleCores := BitVec.ofNat 32 nprocs - 1#32
  currTeam := fun _ => none
  lruTeam := none
  teamPoolList := [3, 2, 1, 0]
  teamDescriptorPool := mem

def gompMasterRegionStart (nprocs : Nat) (s : GompData) : Option GompData := do
  let (newTeam, s) ← gompPullTeamPool s
  let s := s.modifyTeam newTeam fun d =>
    { d with
      nthreads := BitVec.ofNat 32 nprocs
      team := 0xFF#32
      procIds := fun i => if i < nprocs then i else d.procIds i
      level := 0
      parent := none }
  return s.setCurrTeam 0 (some newTeam)

/-- `gomp_init_lru_team`, which the master calls. -/
def gompInitLruTeam (nprocs : Nat) (s : GompData) : Option GompData := do
  let (newTeam, s) ← gompPullTeamPool s
  let team ← getBitmask (BitVec.ofNat 32 nprocs)
  let s := s.modifyTeam newTeam fun d =>
    { d with
      nthreads := BitVec.ofNat 32 nprocs
      team := team
      procIds := fun i => if i < nprocs then i else d.procIds i
      threadIds := fun i => if i < nprocs then i else d.threadIds i }
  let s := { s with
    currTeam := fun i => if 1 ≤ i ∧ i < nprocs then some newTeam else s.currTeam i
    lruTeam := some newTeam }
  return gompPushTeamPool newTeam s

/-- The start of `omp_SPMD_worker` on the master, after `omp_initenv`. -/
def gompInit (nprocs : Nat) (mem : TeamId → Team) : Option GompData := do
  let s ← gompMasterRegionStart nprocs (ompInitenv nprocs mem)
  gompInitLruTeam nprocs s

/-- The body of the loop of `gomp_team_start` for an idle core `i`. -/
def GompData.fetchCore (s : GompData) (newTeam : TeamId) (i localIdGen : Nat) : GompData :=
  let mask := 1#32 <<< i
  let s := { s with threadPool := s.threadPool ||| mask }
  let s := s.modifyTeam newTeam fun d =>
    { d with
      team := d.team ||| mask
      procIds := Function.update d.procIds localIdGen i
      threadIds := Function.update d.threadIds i localIdGen }
  s.setCurrTeam i (some newTeam)

/-- The loop of `gomp_team_start` over the cores that are left. -/
def fetchIdleCores (newTeam : TeamId) : List Nat → Nat → Nat → GompData → GompData
  | [], _, _, s => s
  | i :: is, numThreads, localIdGen, s =>
    if numThreads = 0 then s
    else if s.threadPool &&& (1#32 <<< i) = 0#32 then
      fetchIdleCores newTeam is (numThreads - 1) (localIdGen + 1)
        (s.fetchCore newTeam i localIdGen)
    else fetchIdleCores newTeam is numThreads localIdGen s

/-- `gomp_team_start` where the team pulled is the cached one. -/
def gompTeamHit (newTeam : TeamId) (numThreads : BitVec 32) (s : GompData) : Option GompData := do
  let team ← getBitmask numThreads
  let s := s.modifyTeam newTeam fun d => { d with team := team, nthreads := numThreads }
  return { s with threadPool := s.threadPool ||| team }

/-- The team before the loop of `gomp_team_start`: its master is core `pid`. -/
def GompData.enterMaster (s : GompData) (newTeam : TeamId) (pid : Nat) (numThreads : BitVec 32) :
    GompData :=
  s.modifyTeam newTeam fun d =>
    { d with
      team := 0#32 ||| (1#32 <<< pid)
      nthreads := numThreads
      threadIds := Function.update d.threadIds pid 0
      procIds := Function.update d.procIds 0 pid }

/-- `gomp_team_start` where the cores of the team are looked up in the thread pool. -/
def gompTeamMiss (nprocs pid : Nat) (newTeam : TeamId) (numThreads : BitVec 32) (s : GompData) :
    GompData :=
  fetchIdleCores newTeam (List.range' 1 (nprocs - 1)) (numThreads - 1#32).toNat 1
    (s.enterMaster newTeam pid numThreads)

def gompTeamStart (nprocs pid : Nat) (specified : BitVec 32) (s : GompData) :
    Option GompData := do
  let (numThreads, s) := gompResolveNumThreads specified s
  let (newTeam, s) ← gompPullTeamPool s
  let parent ← s.currTeam pid
  let level := (s.teamDescriptorPool parent).level + 1
  let s := s.modifyTeam newTeam fun d => { d with level := level, parent := some parent }
  let s ←
    if level = 1 ∧ s.lruTeam = some newTeam ∧
        numThreads ≤ (s.teamDescriptorPool newTeam).nthreads then gompTeamHit newTeam numThreads s
    else some (gompTeamMiss nprocs pid newTeam numThreads s)
  return s.setCurrTeam pid (some newTeam)

def gompTeamEnd (pid : Nat) (s : GompData) : Option GompData := do
  let theTeam ← s.currTeam pid
  let d := s.teamDescriptorPool theTeam
  let negMask := ~~~d.team ||| (1#32 <<< pid)
  let s := { s with
    idleCores := s.idleCores + (d.nthreads - 1#32)
    threadPool := s.threadPool &&& negMask }
  let s := s.setCurrTeam pid d.parent
  return gompPushTeamPool theTeam { s with lruTeam := some theTeam }

/-! ## What the functions do -/

section

variable {s s' : GompData} {t : TeamId} {pid nprocs : Nat} {specified : BitVec 32}

theorem gompResolveNumThreads_snd : (gompResolveNumThreads specified s).2 =
    { s with idleCores := s.idleCores - ((gompResolveNumThreads specified s).1 - 1#32) } := rfl

/-- A request that is no negative `int` is met up to the idle cores and the caller. -/
theorem toNat_numThreads (hidle : s.idleCores.toNat < 16) (hspec : 0 ≤ specified.toInt) :
    (gompResolveNumThreads specified s).1.toNat =
      if specified = 0#32 then s.idleCores.toNat + 1
      else min specified.toNat (s.idleCores.toNat + 1) := by
  have hnthr : (s.idleCores + 1#32).toNat = s.idleCores.toNat + 1 := by
    rw [BitVec.toNat_add, BitVec.toNat_ofNat]
    omega
  have hnthrInt : (s.idleCores + 1#32).toInt = s.idleCores.toNat + 1 := by
    rw [BitVec.toInt_eq_toNat_of_lt (by omega), hnthr]
    rfl
  have hspecInt : specified.toInt = specified.toNat :=
    BitVec.toInt_eq_toNat_of_lt (BitVec.toInt_pos_iff.mp hspec)
  by_cases hzero : specified = 0#32
  · simp [gompResolveNumThreads, hzero, hnthr]
  · simp only [gompResolveNumThreads, ne_eq, hzero, not_false_eq_true, true_and, BitVec.slt,
      hspecInt, hnthrInt, decide_eq_true_eq, if_false]
    split <;> omega

/-- A negative `int` is taken as it is. -/
theorem numThreads_of_neg (hidle : s.idleCores.toNat < 16) (hspec : specified.toInt < 0) :
    (gompResolveNumThreads specified s).1 = specified := by
  have hnthr : (s.idleCores + 1#32).toNat = s.idleCores.toNat + 1 := by
    rw [BitVec.toNat_add, BitVec.toNat_ofNat]
    omega
  have hnthrInt : (s.idleCores + 1#32).toInt = s.idleCores.toNat + 1 := by
    rw [BitVec.toInt_eq_toNat_of_lt (by omega), hnthr]
    rfl
  have hne : specified ≠ 0#32 := by
    intro h
    simp [h] at hspec
  have hlt : specified.slt (s.idleCores + 1#32) = true := by
    rw [BitVec.slt, hnthrInt, decide_eq_true_eq]
    omega
  simp [gompResolveNumThreads, hne, hlt]

/-- `getBitmask` has the first cores, but not the sixteenth of sixteen. -/
theorem getBitmask_eq_some {n : BitVec 32} (hpos : 1 ≤ n.toNat) (hn : n.toNat ≤ 16) :
    getBitmask n = some (bitMaskGen 32 (min n.toNat 15)) := by
  rw [getBitmask]
  generalize n.toNat = k at hpos hn
  interval_cases k <;> rfl

theorem members_bitMaskGen {w n : Nat} (hn : n ≤ w) :
    members (bitMaskGen w n) = Finset.range n := by
  ext j
  rw [mem_members, getLsbD_bitMaskGen, Finset.mem_range]
  simp
  omega

/-- What the loop over the cores does: team `t` gets the idle `cores` under ids from `localIdGen`
on. -/
structure CoresFetched (s : GompData) (t : TeamId) (localIdGen : Nat) (cores : List Nat)
    (s' : GompData) : Prop where
  threadPool : members s'.threadPool = members s.threadPool ∪ cores.toFinset
  team : members (s'.teamDescriptorPool t).team =
    members (s.teamDescriptorPool t).team ∪ cores.toFinset
  procIds_get : ∀ k (hk : k < cores.length),
    (s'.teamDescriptorPool t).procIds (localIdGen + k) = cores[k]
  procIds_lt : ∀ k < localIdGen,
    (s'.teamDescriptorPool t).procIds k = (s.teamDescriptorPool t).procIds k
  threadIds_get : ∀ k (hk : k < cores.length),
    (s'.teamDescriptorPool t).threadIds cores[k] = localIdGen + k
  threadIds_notMem : ∀ i ∉ cores,
    (s'.teamDescriptorPool t).threadIds i = (s.teamDescriptorPool t).threadIds i
  currTeam : ∀ i, s'.currTeam i = if i ∈ cores then some t else s.currTeam i
  descriptor_ne : ∀ u ≠ t, s'.teamDescriptorPool u = s.teamDescriptorPool u
  level : (s'.teamDescriptorPool t).level = (s.teamDescriptorPool t).level
  parent : (s'.teamDescriptorPool t).parent = (s.teamDescriptorPool t).parent
  nthreads : (s'.teamDescriptorPool t).nthreads = (s.teamDescriptorPool t).nthreads
  teamPoolList : s'.teamPoolList = s.teamPoolList
  idleCores : s'.idleCores = s.idleCores

theorem CoresFetched.nil (s : GompData) (t : TeamId) (localIdGen : Nat) :
    CoresFetched s t localIdGen [] s := by
  constructor <;> simp

theorem CoresFetched.cons {i localIdGen : Nat} {cores : List Nat} (hi : i < 32) (hmem : i ∉ cores)
    (h : CoresFetched (s.fetchCore t i localIdGen) t (localIdGen + 1) cores s') :
    CoresFetched s t localIdGen (i :: cores) s' where
  threadPool := by
    rw [h.threadPool]
    simp [GompData.fetchCore, GompData.modifyTeam, GompData.setCurrTeam, hi, Finset.union_insert]
  team := by
    rw [h.team]
    simp [GompData.fetchCore, GompData.modifyTeam, GompData.setCurrTeam, hi, Finset.union_insert]
  procIds_get := by
    intro k hk
    cases k with
    | zero =>
      rw [Nat.add_zero, h.procIds_lt localIdGen (by omega)]
      simp [GompData.fetchCore, GompData.modifyTeam, GompData.setCurrTeam]
    | succ k =>
      rw [show localIdGen + (k + 1) = localIdGen + 1 + k by omega,
        h.procIds_get k (by simpa using hk)]
      rfl
  procIds_lt := by
    intro k hk
    rw [h.procIds_lt k (by omega)]
    simp [GompData.fetchCore, GompData.modifyTeam, GompData.setCurrTeam, hk.ne]
  threadIds_get := by
    intro k hk
    cases k with
    | zero =>
      rw [List.getElem_cons_zero, h.threadIds_notMem i hmem]
      simp [GompData.fetchCore, GompData.modifyTeam, GompData.setCurrTeam]
    | succ k =>
      rw [List.getElem_cons_succ, h.threadIds_get k (by simpa using hk)]
      omega
  threadIds_notMem := by
    intro j hj
    rw [List.mem_cons, not_or] at hj
    rw [h.threadIds_notMem j hj.2]
    simp [GompData.fetchCore, GompData.modifyTeam, GompData.setCurrTeam, hj.1]
  currTeam := by
    intro j
    rw [h.currTeam]
    by_cases hj : j = i
    · subst hj
      simp [GompData.fetchCore, GompData.modifyTeam, GompData.setCurrTeam]
    · simp [GompData.fetchCore, GompData.modifyTeam, GompData.setCurrTeam, hj]
  descriptor_ne := by
    intro u hu
    rw [h.descriptor_ne u hu]
    simp [GompData.fetchCore, GompData.modifyTeam, GompData.setCurrTeam, hu]
  level := by
    rw [h.level]
    simp [GompData.fetchCore, GompData.modifyTeam, GompData.setCurrTeam]
  parent := by
    rw [h.parent]
    simp [GompData.fetchCore, GompData.modifyTeam, GompData.setCurrTeam]
  nthreads := by
    rw [h.nthreads]
    simp [GompData.fetchCore, GompData.modifyTeam, GompData.setCurrTeam]
  teamPoolList := h.teamPoolList
  idleCores := h.idleCores

/-- The loop takes the first idle cores. -/
theorem fetchIdleCores_spec (is : List Nat) (hnodup : is.Nodup) (hlt : ∀ i ∈ is, i < 32)
    (numThreads localIdGen : Nat) (s : GompData) :
    CoresFetched s t localIdGen ((is.filter (· ∉ members s.threadPool)).take numThreads)
      (fetchIdleCores t is numThreads localIdGen s) := by
  induction is generalizing numThreads localIdGen s with
  | nil => simpa [fetchIdleCores] using CoresFetched.nil s t localIdGen
  | cons i is ih =>
    obtain ⟨hi, hnodup⟩ := List.nodup_cons.mp hnodup
    have hlt' : ∀ j ∈ is, j < 32 := fun j hj => hlt j (List.mem_cons_of_mem i hj)
    have hi32 : i < 32 := hlt i List.mem_cons_self
    cases numThreads with
    | zero => simpa [fetchIdleCores] using CoresFetched.nil s t localIdGen
    | succ n =>
      rw [fetchIdleCores, if_neg (Nat.succ_ne_zero n)]
      by_cases hbusy : s.threadPool &&& (1#32 <<< i) = 0#32
      · have hmem := (and_one_shiftLeft_eq_zero hi32).mp hbusy
        -- the bit the core gets does not matter for the cores after it
        have hrest : is.filter (· ∉ members (s.fetchCore t i localIdGen).threadPool) =
            is.filter (· ∉ members s.threadPool) := by
          apply List.filter_congr
          intro j hj
          have hne : j ≠ i := by
            intro h
            exact hi (h ▸ hj)
          simp [GompData.fetchCore, GompData.modifyTeam, GompData.setCurrTeam, hi32, hne,
            -mem_members]
        rw [if_pos hbusy, List.filter_cons_of_pos (by simpa using hmem), List.take_succ_cons]
        apply CoresFetched.cons hi32
        · intro h
          exact hi (List.mem_of_mem_filter (List.mem_of_mem_take h))
        · rw [← hrest]
          exact ih hnodup hlt' n (localIdGen + 1) _
      · have hmem : i ∈ members s.threadPool := by
          by_contra h
          exact hbusy ((and_one_shiftLeft_eq_zero hi32).mpr h)
        rw [if_neg hbusy, List.filter_cons_of_neg (by simpa using hmem)]
        exact ih hnodup hlt' (n + 1) localIdGen s

/-- The team has the `cores`, which count as its threads in this order. -/
structure Team.Roster (d : Team) (cores : List Nat) : Prop where
  nodup : cores.Nodup
  members_team : members d.team = cores.toFinset
  nthreads : d.nthreads.toNat = cores.length
  procIds : ∀ k (hk : k < cores.length), d.procIds k = cores[k]
  threadIds : ∀ k (hk : k < cores.length), d.threadIds cores[k] = k

namespace Team.Roster

variable {d : Team} {cores : List Nat}

theorem mem_team (h : d.Roster cores) {i : Nat} : i ∈ members d.team ↔ i ∈ cores := by
  rw [h.members_team, List.mem_toFinset]

theorem card_team (h : d.Roster cores) : (members d.team).card = d.nthreads.toNat := by
  rw [h.members_team, List.toFinset_card_of_nodup h.nodup, h.nthreads]

theorem bijOn_threadIds (h : d.Roster cores) :
    Set.BijOn d.threadIds (members d.team) (Set.Iio d.nthreads.toNat) := by
  refine Set.BijOn.mk ?_ ?_ ?_
  · intro i hi
    obtain ⟨k, hk, rfl⟩ := List.getElem_of_mem (h.mem_team.mp hi)
    rw [h.threadIds k hk, Set.mem_Iio, h.nthreads]
    exact hk
  · intro i hi j hj heq
    obtain ⟨k, hk, rfl⟩ := List.getElem_of_mem (h.mem_team.mp hi)
    obtain ⟨l, hl, rfl⟩ := List.getElem_of_mem (h.mem_team.mp hj)
    rw [h.threadIds k hk, h.threadIds l hl] at heq
    subst heq
    rfl
  · intro k hk
    rw [Set.mem_Iio, h.nthreads] at hk
    exact ⟨cores[k], h.mem_team.mpr (List.getElem_mem hk), h.threadIds k hk⟩

end Team.Roster

end

end Hero.Libgomp
