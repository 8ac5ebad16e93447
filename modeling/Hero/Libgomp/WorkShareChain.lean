import Hero.Libgomp.WorkShare

/-!
# The chain of work shares of a team

The constructs a team has entered are numbered, construct zero being the work share in its
descriptor.  A work share is held while some thread may still come from it.
-/

namespace Hero.Libgomp

/-- The work share of each construct, and the last construct that has been entered. -/
structure Chain where
  obj : Nat → WsId
  last : Nat

/-- The chain with one more construct. -/
def Chain.extend (c : Chain) (ws : WsId) : Chain where
  obj := Function.update c.obj (c.last + 1) ws
  last := c.last + 1

theorem Chain.extend_obj_le {c : Chain} {ws : WsId} {j : Nat} (hj : j ≤ c.last) :
    (c.extend ws).obj j = c.obj j :=
  Function.update_of_ne (by omega) _ _

theorem Chain.extend_obj_last {c : Chain} {ws : WsId} : (c.extend ws).obj (c.last + 1) = ws :=
  Function.update_self _ _ _

theorem Chain.extend_last {c : Chain} {ws : WsId} : (c.extend ws).last = c.last + 1 := rfl

namespace WsData

/-- Some thread has not left the construct after construct `j`. -/
def Held (s : WsData) (d : TeamId) (j : Nat) : Prop :=
  ∃ pid ∈ (s.team d).threads, (s.team d).left pid ≤ j

/-- `ws` belongs to a construct of the team that is held. -/
def InUse (s : WsData) (d : TeamId) (c : Chain) (ws : WsId) : Prop :=
  ∃ j ≤ c.last, s.Held d j ∧ ws = c.obj j

/-- The work shares that are held form a doubly linked list, whose counters say how many threads
have left. -/
structure ChainOf (s : WsData) (d : TeamId) (c : Chain) : Prop where
  nthreads : (s.team d).nthreads = (s.team d).threads.card
  obj_zero : c.obj 0 = .root d
  left_le : ∀ pid ∈ (s.team d).threads, (s.team d).left pid ≤ (s.team d).entered pid
  entered_le_left : ∀ pid ∈ (s.team d).threads,
    (s.team d).entered pid ≤ (s.team d).left pid + 1
  entered_le : ∀ pid ∈ (s.team d).threads, (s.team d).entered pid ≤ c.last
  top : ∃ pid ∈ (s.team d).threads, (s.team d).entered pid = c.last
  workShare : ∀ pid ∈ (s.team d).threads,
    (s.team d).workShare pid = some (c.obj ((s.team d).entered pid))
  nextWs : ∀ j < c.last, s.Held d j → (s.ws (c.obj j)).nextWs = some (c.obj (j + 1))
  nextWs_last : (s.ws (c.obj c.last)).nextWs = none
  prevWs : ∀ j < c.last, s.Held d (j + 1) → (s.ws (c.obj (j + 1))).prevWs = some (c.obj j)
  prevWs_zero : s.Held d 0 → (s.ws (c.obj 0)).prevWs = none
  completed : ∀ j, 1 ≤ j → j ≤ c.last → s.Held d j → (s.ws (c.obj j)).completed =
    ((s.team d).threads.filter (j ≤ (s.team d).left ·)).card
  heap : ∀ j, 1 ≤ j → j ≤ c.last → ∃ n < s.brk, c.obj j = .heap n
  inj : ∀ j k, j ≤ c.last → k ≤ c.last → s.Held d j → s.Held d k → c.obj j = c.obj k → j = k
  unpooled : ∀ ws, s.InUse d c ws → ws ∉ s.wsPoolList

variable {s s' : WsData} {d d' : TeamId} {c : Chain} {pid : Nat} {ws curr : WsId} {mem first : Bool}

theorem Held.mono {j k : Nat} (h : s.Held d j) (hle : j ≤ k) : s.Held d k := by
  obtain ⟨pid, hpid, hleft⟩ := h
  exact ⟨pid, hpid, by omega⟩

theorem held_congr (hteam : s'.team d = s.team d) (j : Nat) : s'.Held d j ↔ s.Held d j := by
  rw [Held, Held, hteam]

theorem inUse_congr (hteam : s'.team d = s.team d) : s'.InUse d c ws ↔ s.InUse d c ws := by
  simp only [InUse, held_congr hteam]

namespace ChainOf

theorem held_last (hc : s.ChainOf d c) : s.Held d c.last := by
  obtain ⟨pid, hpid, hentered⟩ := hc.top
  exact ⟨pid, hpid, hentered ▸ hc.left_le pid hpid⟩

theorem held_entered (hc : s.ChainOf d c) (hpid : pid ∈ (s.team d).threads) :
    s.Held d ((s.team d).entered pid) := ⟨pid, hpid, hc.left_le pid hpid⟩

theorem inUse_entered (hc : s.ChainOf d c) (hpid : pid ∈ (s.team d).threads) :
    s.InUse d c (c.obj ((s.team d).entered pid)) :=
  ⟨_, hc.entered_le pid hpid, hc.held_entered hpid, rfl⟩

theorem heap_lt (hc : s.ChainOf d c) (hws : s.InUse d c ws) {n : Nat} (hn : ws = .heap n) :
    n < s.brk := by
  obtain ⟨j, hj, -, rfl⟩ := hws
  cases j with
  | zero =>
    rw [hc.obj_zero] at hn
    cases hn
  | succ j =>
    obtain ⟨m, hm, heq⟩ := hc.heap (j + 1) (by omega) hj
    rw [heq] at hn
    cases hn
    exact hm

/-- What other teams do leaves the chain alone. -/
theorem frame (hc : s.ChainOf d c) (hteam : s'.team d = s.team d)
    (hws : ∀ ws, s.InUse d c ws → s'.ws ws = s.ws ws) (hbrk : s.brk ≤ s'.brk)
    (hpool : ∀ ws, s.InUse d c ws → ws ∉ s'.wsPoolList) : s'.ChainOf d c where
  nthreads := by rw [hteam, hc.nthreads]
  obj_zero := hc.obj_zero
  left_le := by
    rw [hteam]
    exact hc.left_le
  entered_le_left := by
    rw [hteam]
    exact hc.entered_le_left
  entered_le := by
    rw [hteam]
    exact hc.entered_le
  top := by
    rw [hteam]
    exact hc.top
  workShare := by
    rw [hteam]
    exact hc.workShare
  nextWs := by
    intro j hj hheld
    have hheld := (held_congr hteam j).mp hheld
    rw [hws _ ⟨j, hj.le, hheld, rfl⟩, hc.nextWs j hj hheld]
  nextWs_last := by
    rw [hws _ ⟨c.last, Nat.le_refl _, hc.held_last, rfl⟩, hc.nextWs_last]
  prevWs := by
    intro j hj hheld
    have hheld := (held_congr hteam _).mp hheld
    rw [hws _ ⟨j + 1, hj, hheld, rfl⟩, hc.prevWs j hj hheld]
  prevWs_zero := by
    intro hheld
    have hheld := (held_congr hteam 0).mp hheld
    rw [hws _ ⟨0, Nat.zero_le _, hheld, rfl⟩, hc.prevWs_zero hheld]
  completed := by
    intro j hpos hj hheld
    have hheld := (held_congr hteam j).mp hheld
    rw [hws _ ⟨j, hj, hheld, rfl⟩, hteam, hc.completed j hpos hj hheld]
  heap := by
    intro j hpos hj
    obtain ⟨n, hn, heq⟩ := hc.heap j hpos hj
    exact ⟨n, hn.trans_le hbrk, heq⟩
  inj := by
    simp only [held_congr hteam]
    exact hc.inj
  unpooled := by
    intro ws hws'
    exact hpool ws ((inUse_congr hteam).mp hws')

end ChainOf

/-- Work share `ws` is taken from the pool or from memory. -/
structure Taken (s : WsData) (ws : WsId) (s' : WsData) : Prop where
  heap : ∃ n < s'.brk, ws = .heap n
  brk_le : s.brk ≤ s'.brk
  pool_subset : ∀ w ∈ s'.wsPoolList, w ∈ s.wsPoolList
  pool_nodup : s'.wsPoolList.Nodup
  not_mem : ws ∉ s'.wsPoolList
  fresh : ∀ w, w ∉ s.wsPoolList → (∀ n, w = .heap n → n < s.brk) → w ≠ ws

structure Allocated (s : WsData) (ws : WsId) (s' : WsData) : Prop extends s.Taken ws s' where
  ws_ne : ∀ w ≠ ws, s'.ws w = s.ws w
  embedded : (s'.ws ws).embedded = false
  nextWs : (s'.ws ws).nextWs = none
  team : s'.team = s.team

/-- Thread `pid` has linked `ws` after `curr` and goes on to it. -/
structure Linked (s : WsData) (d : TeamId) (pid : Nat) (curr ws : WsId) (s' : WsData) : Prop
    extends s.Taken ws s' where
  ws_ne : ∀ w, w ≠ ws → w ≠ curr → s'.ws w = s.ws w
  new : s'.ws ws = { embedded := false, completed := 0, nextWs := none, prevWs := some curr }
  curr : s'.ws curr = { s.ws curr with nextWs := some ws }
  team : s'.team = (s.setWorkShare d pid ws).team

/-- What is in the pool is there once and has been allocated. -/
structure PoolOk (s : WsData) : Prop where
  nodup : s.wsPoolList.Nodup
  heap : ∀ ws ∈ s.wsPoolList, ∃ n < s.brk, ws = .heap n
  embedded_root : ∀ d, (s.ws (.root d)).embedded = decide (1 ≤ d)
  embedded_heap : ∀ n, (s.ws (.heap n)).embedded = false

theorem PoolOk.allocated (hpool : s.PoolOk) (h : gompNewWorkShare mem s = some (ws, s')) :
    s.Allocated ws s' := by
  rw [gompNewWorkShare, allocWorkShare] at h
  cases hlist : s.wsPoolList with
  | nil =>
    cases mem with
    | false => simp [hlist] at h
    | true =>
      simp only [hlist, if_true, Option.bind_eq_bind, Option.bind_some, Option.pure_def,
        Option.some.injEq, Prod.mk.injEq] at h
      obtain ⟨rfl, rfl⟩ := h
      constructor
      case toTaken =>
        constructor
        case heap => exact ⟨s.brk, Nat.lt_succ_self _, rfl⟩
        case brk_le => exact Nat.le_succ _
        case pool_subset => simp [modifyWs]
        case pool_nodup => simp [modifyWs]
        case not_mem => simp [modifyWs]
        case fresh =>
          intro w _ hlt heq
          have := hlt s.brk heq
          omega
      case ws_ne =>
        intro w hw
        simp [modifyWs, hw]
      case embedded => simp [modifyWs]
      case nextWs => simp [modifyWs]
      case team => rfl
  | cons w next =>
    simp only [hlist, Option.bind_eq_bind, Option.bind_some, Option.pure_def,
      Option.some.injEq, Prod.mk.injEq] at h
    obtain ⟨rfl, rfl⟩ := h
    have hnodup := hpool.nodup
    rw [hlist, List.nodup_cons] at hnodup
    obtain ⟨n, hn, hw⟩ := hpool.heap w (by simp [hlist])
    constructor
    case toTaken =>
      constructor
      case heap => exact ⟨n, hn, hw⟩
      case brk_le => exact Nat.le_refl _
      case pool_subset =>
        intro v hv
        rw [hlist]
        exact List.mem_cons_of_mem w hv
      case pool_nodup => exact hnodup.2
      case not_mem => exact hnodup.1
      case fresh =>
        intro v hv _ heq
        exact hv (by simp [hlist, heq])
    case ws_ne =>
      intro v hv
      simp [modifyWs, hv]
    case embedded => simp [modifyWs, hw, hpool.embedded_heap n]
    case nextWs => simp [modifyWs]
    case team => rfl

/-- The next work share has been linked, and the thread goes on to it. -/
theorem gompWorkShareStart_of_next (hcurr : (s.team d).workShare pid = some curr)
    (hnext : (s.ws curr).nextWs = some ws) :
    gompWorkShareStart d pid mem s = some (ws, false, s.setWorkShare d pid ws) := by
  simp [gompWorkShareStart, hcurr, hnext]

theorem PoolOk.linked (hpool : s.PoolOk) (hcurr : (s.team d).workShare pid = some curr)
    (hnext : (s.ws curr).nextWs = none) (hunpooled : curr ∉ s.wsPoolList)
    (hlt : ∀ n, curr = .heap n → n < s.brk)
    (h : gompWorkShareStart d pid mem s = some (ws, first, s')) :
    first = true ∧ s.Linked d pid curr ws s' := by
  simp only [gompWorkShareStart, hcurr, hnext, Option.bind_eq_bind, Option.bind_some,
    Option.bind_eq_some_iff, Option.pure_def, Option.some.injEq, Prod.exists, Prod.mk.injEq] at h
  obtain ⟨w, s₁, hnew, rfl, rfl, rfl⟩ := h
  have halloc := hpool.allocated hnew
  have hne : curr ≠ w := halloc.fresh curr hunpooled hlt
  refine ⟨rfl, ⟨halloc.toTaken.heap, halloc.brk_le, halloc.pool_subset, halloc.pool_nodup,
    halloc.not_mem, halloc.fresh⟩, ?_, ?_, ?_, ?_⟩
  · intro v hv hvcurr
    simp [setWorkShare, modifyTeam, modifyWs, hv, hvcurr, halloc.ws_ne v hv]
  · simp [setWorkShare, modifyTeam, modifyWs, hne.symm, halloc.embedded, halloc.nextWs]
  · simp [setWorkShare, modifyTeam, modifyWs, hne, halloc.ws_ne curr hne]
  · simp [setWorkShare, modifyTeam, modifyWs, halloc.team]

/-- A new work share is found unless the pool is empty and memory is exhausted. -/
theorem exists_gompWorkShareStart (hcurr : (s.team d).workShare pid = some curr)
    (hmem : mem = true ∨ s.wsPoolList ≠ [] ∨ (s.ws curr).nextWs ≠ none) :
    ∃ r, gompWorkShareStart d pid mem s = some r := by
  cases hnext : (s.ws curr).nextWs with
  | some ws => exact ⟨_, gompWorkShareStart_of_next hcurr hnext⟩
  | none =>
    cases hlist : s.wsPoolList with
    | cons w next =>
      exact ⟨_, by
        simp only [gompWorkShareStart, hcurr, hnext, gompNewWorkShare, allocWorkShare, hlist,
          Option.bind_eq_bind, Option.bind_some, Option.pure_def]
        rfl⟩
    | nil =>
      have hmem : mem = true := by simpa [hnext, hlist] using hmem
      exact ⟨_, by
        simp only [gompWorkShareStart, hcurr, hnext, gompNewWorkShare, allocWorkShare, hlist, hmem,
          if_true, Option.bind_eq_bind, Option.bind_some, Option.pure_def]
        rfl⟩

/-- Thread `pid` has entered the next construct, at work share `ws`. -/
structure Entered (s : WsData) (d : TeamId) (pid : Nat) (ws : WsId) (s' : WsData) : Prop where
  running : (s'.team d).running = (s.team d).running
  threads : (s'.team d).threads = (s.team d).threads
  nthreads : (s'.team d).nthreads = (s.team d).nthreads
  left : (s'.team d).left = (s.team d).left
  entered : (s'.team d).entered =
    Function.update (s.team d).entered pid ((s.team d).entered pid + 1)
  workShare : (s'.team d).workShare = Function.update (s.team d).workShare pid (some ws)
  team_ne : ∀ d' ≠ d, s'.team d' = s.team d'

theorem entered_of_team {s₁ : WsData} (h : s₁.team = (s.setWorkShare d pid ws).team) :
    s.Entered d pid ws (s₁.enters d pid) := by
  constructor
  case team_ne =>
    intro d' hd'
    simp [enters, modifyTeam, h, setWorkShare, hd']
  all_goals simp [enters, modifyTeam, h, setWorkShare]

namespace Entered

variable (h : s.Entered d pid ws s')
include h

theorem held_iff {j : Nat} : s'.Held d j ↔ s.Held d j := by
  rw [Held, Held, h.threads, h.left]

theorem passed_iff {i : Nat} : s'.Passed d i ↔ s.Passed d i := by
  rw [Passed, Passed, h.running, h.threads, h.left]

theorem entered_pid : (s'.team d).entered pid = (s.team d).entered pid + 1 := by
  rw [h.entered, Function.update_self]

theorem entered_ne {u : Nat} (hu : u ≠ pid) : (s'.team d).entered u = (s.team d).entered u := by
  rw [h.entered, Function.update_of_ne hu]

theorem workShare_pid : (s'.team d).workShare pid = some ws := by
  rw [h.workShare, Function.update_self]

theorem workShare_ne {u : Nat} (hu : u ≠ pid) :
    (s'.team d).workShare u = (s.team d).workShare u := by
  rw [h.workShare, Function.update_of_ne hu]

end Entered

/-- A thread goes on to a construct that another has entered before it. -/
theorem ChainOf.follow (hc : s.ChainOf d c) (hpid : pid ∈ (s.team d).threads)
    (hbetween : (s.team d).left pid = (s.team d).entered pid)
    (hlt : (s.team d).entered pid < c.last)
    (h : s.Entered d pid (c.obj ((s.team d).entered pid + 1)) s') (hws : s'.ws = s.ws)
    (hlist : s'.wsPoolList = s.wsPoolList) (hbrk : s'.brk = s.brk) : s'.ChainOf d c := by
  constructor
  case nthreads => rw [h.nthreads, h.threads, hc.nthreads]
  case obj_zero => exact hc.obj_zero
  case left_le =>
    intro u hu
    rw [h.threads] at hu
    rw [h.left]
    by_cases hupid : u = pid
    · subst hupid
      rw [h.entered_pid]
      omega
    · rw [h.entered_ne hupid]
      exact hc.left_le u hu
  case entered_le_left =>
    intro u hu
    rw [h.threads] at hu
    rw [h.left]
    by_cases hupid : u = pid
    · subst hupid
      rw [h.entered_pid]
      omega
    · rw [h.entered_ne hupid]
      exact hc.entered_le_left u hu
  case entered_le =>
    intro u hu
    rw [h.threads] at hu
    by_cases hupid : u = pid
    · subst hupid
      rw [h.entered_pid]
      omega
    · rw [h.entered_ne hupid]
      exact hc.entered_le u hu
  case top =>
    obtain ⟨u, hu, hlast⟩ := hc.top
    have hupid : u ≠ pid := by
      intro heq
      subst heq
      omega
    exact ⟨u, h.threads ▸ hu, by rw [h.entered_ne hupid, hlast]⟩
  case workShare =>
    intro u hu
    rw [h.threads] at hu
    by_cases hupid : u = pid
    · subst hupid
      rw [h.workShare_pid, h.entered_pid]
    · rw [h.workShare_ne hupid, h.entered_ne hupid]
      exact hc.workShare u hu
  case nextWs =>
    simp only [h.held_iff, hws]
    exact hc.nextWs
  case nextWs_last =>
    rw [hws]
    exact hc.nextWs_last
  case prevWs =>
    simp only [h.held_iff, hws]
    exact hc.prevWs
  case prevWs_zero =>
    simp only [h.held_iff, hws]
    exact hc.prevWs_zero
  case completed =>
    simp only [h.held_iff, hws, h.threads, h.left]
    exact hc.completed
  case heap =>
    rw [hbrk]
    exact hc.heap
  case inj =>
    simp only [h.held_iff]
    exact hc.inj
  case unpooled =>
    simp only [InUse, h.held_iff, hlist]
    exact hc.unpooled

section

variable {s₁ : WsData}

/-- What a thread links is at the end of the chain. -/
theorem ChainOf.not_inUse_of_linked (hc : s.ChainOf d c) (hl : s.Linked d' pid curr ws s₁) :
    ¬ s.InUse d c ws := by
  intro hws
  exact hl.fresh ws (hc.unpooled ws hws) (fun n hn => hc.heap_lt hws hn) rfl

theorem Entered.inUse_extend (h : s.Entered d pid ws s') {w : WsId}
    (hw : s'.InUse d (c.extend ws) w) : w = ws ∨ s.InUse d c w := by
  obtain ⟨j, hj, hheld, rfl⟩ := hw
  rw [Chain.extend_last] at hj
  rw [h.held_iff] at hheld
  by_cases hlast : j = c.last + 1
  · rw [hlast, Chain.extend_obj_last]
    exact Or.inl rfl
  · rw [Chain.extend_obj_le (by omega)]
    exact Or.inr ⟨j, by omega, hheld, rfl⟩

/-- The first thread that comes extends the chain. -/
theorem ChainOf.extend (hc : s.ChainOf d c) (hpid : pid ∈ (s.team d).threads)
    (hbetween : (s.team d).left pid = (s.team d).entered pid)
    (hlast : (s.team d).entered pid = c.last) (h : s.Entered d pid ws s')
    (hl : s.Linked d pid (c.obj c.last) ws s₁) (hws : s'.ws = s₁.ws)
    (hlist : s'.wsPoolList = s₁.wsPoolList) (hbrk : s'.brk = s₁.brk) :
    s'.ChainOf d (c.extend ws) := by
  have hnot := hc.not_inUse_of_linked hl
  have hheldlast := hc.held_last
  -- no work share that is held is the new one
  have hne : ∀ j ≤ c.last, s.Held d j → c.obj j ≠ ws := by
    intro j hj hheld heq
    exact hnot ⟨j, hj, hheld, heq.symm⟩
  have hcurr_ne : ∀ j < c.last, s.Held d j → c.obj j ≠ c.obj c.last := by
    intro j hj hheld heq
    have := hc.inj j c.last hj.le (Nat.le_refl _) hheld hheldlast heq
    omega
  constructor
  case nthreads => rw [h.nthreads, h.threads, hc.nthreads]
  case obj_zero => rw [Chain.extend_obj_le (Nat.zero_le _), hc.obj_zero]
  case left_le =>
    intro u hu
    rw [h.threads] at hu
    rw [h.left]
    by_cases hupid : u = pid
    · subst hupid
      rw [h.entered_pid]
      omega
    · rw [h.entered_ne hupid]
      exact hc.left_le u hu
  case entered_le_left =>
    intro u hu
    rw [h.threads] at hu
    rw [h.left]
    by_cases hupid : u = pid
    · subst hupid
      rw [h.entered_pid]
      omega
    · rw [h.entered_ne hupid]
      exact hc.entered_le_left u hu
  case entered_le =>
    intro u hu
    rw [h.threads] at hu
    rw [Chain.extend_last]
    by_cases hupid : u = pid
    · subst hupid
      rw [h.entered_pid]
      omega
    · rw [h.entered_ne hupid]
      exact (hc.entered_le u hu).trans (Nat.le_succ _)
  case top => exact ⟨pid, h.threads ▸ hpid, by rw [h.entered_pid, hlast, Chain.extend_last]⟩
  case workShare =>
    intro u hu
    rw [h.threads] at hu
    by_cases hupid : u = pid
    · subst hupid
      rw [h.workShare_pid, h.entered_pid, hlast, Chain.extend_obj_last]
    · rw [h.workShare_ne hupid, h.entered_ne hupid, Chain.extend_obj_le (hc.entered_le u hu)]
      exact hc.workShare u hu
  case nextWs =>
    intro j hj hheld
    rw [Chain.extend_last] at hj
    rw [h.held_iff] at hheld
    rw [hws, Chain.extend_obj_le (by omega)]
    by_cases hjlast : j = c.last
    · rw [hjlast, hl.curr, Chain.extend_obj_last]
    · rw [Chain.extend_obj_le (by omega), hl.ws_ne _ (hne j (by omega) hheld)
        (hcurr_ne j (by omega) hheld), hc.nextWs j (by omega) hheld]
  case nextWs_last => rw [Chain.extend_last, Chain.extend_obj_last, hws, hl.new]
  case prevWs =>
    intro j hj hheld
    rw [Chain.extend_last] at hj
    rw [h.held_iff] at hheld
    rw [hws, Chain.extend_obj_le (by omega : j ≤ c.last)]
    by_cases hjlast : j = c.last
    · rw [hjlast, Chain.extend_obj_last, hl.new]
    · rw [Chain.extend_obj_le (by omega)]
      by_cases hjcurr : j + 1 = c.last
      · rw [hjcurr, hl.curr, ← hc.prevWs j (by omega) hheld, hjcurr]
      · rw [hl.ws_ne _ (hne (j + 1) (by omega) hheld) (hcurr_ne (j + 1) (by omega) hheld),
          hc.prevWs j (by omega) hheld]
  case prevWs_zero =>
    intro hheld
    rw [h.held_iff] at hheld
    rw [hws, Chain.extend_obj_le (Nat.zero_le _)]
    by_cases hzero : 0 = c.last
    · rw [hzero, hl.curr, ← hc.prevWs_zero hheld, hzero]
    · rw [hl.ws_ne _ (hne 0 (by omega) hheld) (hcurr_ne 0 (by omega) hheld), hc.prevWs_zero hheld]
  case completed =>
    intro j hpos hj hheld
    rw [Chain.extend_last] at hj
    rw [h.held_iff] at hheld
    rw [h.threads, h.left, hws]
    by_cases hjlast : j = c.last + 1
    · rw [hjlast, Chain.extend_obj_last, hl.new]
      symm
      rw [Finset.card_eq_zero, Finset.filter_eq_empty_iff]
      intro u hu
      have := hc.left_le u hu
      have := hc.entered_le u hu
      omega
    · rw [Chain.extend_obj_le (by omega)]
      by_cases hjcurr : j = c.last
      · rw [hjcurr, hl.curr, ← hc.completed c.last (by omega) (Nat.le_refl _) hheldlast]
      · rw [hl.ws_ne _ (hne j (by omega) hheld) (hcurr_ne j (by omega) hheld),
          hc.completed j hpos (by omega) hheld]
  case heap =>
    intro j hpos hj
    rw [Chain.extend_last] at hj
    rw [hbrk]
    by_cases hjlast : j = c.last + 1
    · rw [hjlast, Chain.extend_obj_last]
      exact hl.toTaken.heap
    · rw [Chain.extend_obj_le (by omega)]
      obtain ⟨n, hn, heq⟩ := hc.heap j hpos (by omega)
      exact ⟨n, hn.trans_le hl.brk_le, heq⟩
  case inj =>
    intro j k hj hk hheldj hheldk heq
    rw [Chain.extend_last] at hj hk
    rw [h.held_iff] at hheldj hheldk
    by_cases hjlast : j = c.last + 1
    · by_cases hklast : k = c.last + 1
      · omega
      · rw [hjlast, Chain.extend_obj_last, Chain.extend_obj_le (by omega)] at heq
        exact absurd heq.symm (hne k (by omega) hheldk)
    · by_cases hklast : k = c.last + 1
      · rw [hklast, Chain.extend_obj_last, Chain.extend_obj_le (by omega)] at heq
        exact absurd heq (hne j (by omega) hheldj)
      · rw [Chain.extend_obj_le (by omega), Chain.extend_obj_le (by omega)] at heq
        exact hc.inj j k (by omega) (by omega) hheldj hheldk heq
  case unpooled =>
    intro w hw
    rw [hlist]
    obtain rfl | hw := h.inUse_extend hw
    · exact hl.not_mem
    · intro hmem
      exact hc.unpooled w hw (hl.pool_subset w hmem)

end

/-- Thread `pid` has left a construct. -/
structure Left (s : WsData) (d : TeamId) (pid : Nat) (s' : WsData) : Prop where
  running : (s'.team d).running = (s.team d).running
  threads : (s'.team d).threads = (s.team d).threads
  nthreads : (s'.team d).nthreads = (s.team d).nthreads
  entered : (s'.team d).entered = (s.team d).entered
  workShare : (s'.team d).workShare = (s.team d).workShare
  left : (s'.team d).left = Function.update (s.team d).left pid ((s.team d).left pid + 1)
  team_ne : ∀ d' ≠ d, s'.team d' = s.team d'

theorem left_of_team {s₁ : WsData} (h : s₁.team = s.team) (wait : Bool) :
    s.Left d pid (s₁.leaves d pid wait) := by
  constructor
  case team_ne =>
    intro d' hd'
    simp [leaves, modifyTeam, h, hd']
  all_goals simp [leaves, modifyTeam, h]

namespace Left

variable (h : s.Left d pid s')
include h

theorem left_pid : (s'.team d).left pid = (s.team d).left pid + 1 := by
  rw [h.left, Function.update_self]

theorem left_ne {u : Nat} (hu : u ≠ pid) : (s'.team d).left u = (s.team d).left u := by
  rw [h.left, Function.update_of_ne hu]

theorem le_left (u : Nat) : (s.team d).left u ≤ (s'.team d).left u := by
  by_cases hu : u = pid
  · subst hu
    rw [h.left_pid]
    omega
  · rw [h.left_ne hu]

theorem held {j : Nat} (hheld : s'.Held d j) : s.Held d j := by
  obtain ⟨u, hu, hle⟩ := hheld
  exact ⟨u, h.threads ▸ hu, (h.le_left u).trans hle⟩

theorem inUse (hws : s'.InUse d c ws) : s.InUse d c ws := by
  obtain ⟨j, hj, hheld, rfl⟩ := hws
  exact ⟨j, hj, h.held hheld, rfl⟩

/-- Only the construct the thread leaves gets one more thread. -/
theorem card_filter (hpid : pid ∈ (s.team d).threads) (j : Nat) :
    ((s'.team d).threads.filter (j ≤ (s'.team d).left ·)).card =
      ((s.team d).threads.filter (j ≤ (s.team d).left ·)).card +
        if j = (s.team d).left pid + 1 then 1 else 0 := by
  rw [h.threads]
  by_cases hj : j = (s.team d).left pid + 1
  · have hfilter : (s.team d).threads.filter (j ≤ (s'.team d).left ·) =
        insert pid ((s.team d).threads.filter (j ≤ (s.team d).left ·)) := by
      ext u
      by_cases hu : u = pid
      · subst hu
        simp [hpid, h.left_pid, hj]
      · simp [hu, h.left_ne hu]
    rw [hfilter, Finset.card_insert_of_notMem, if_pos hj]
    simp [hj]
  · rw [if_neg hj, Nat.add_zero]
    congr 1
    apply Finset.filter_congr
    intro u _
    by_cases hu : u = pid
    · subst hu
      rw [h.left_pid]
      omega
    · rw [h.left_ne hu]

/-- The construct before is passed when the last thread leaves. -/
theorem passed_iff (hrunning : (s.team d).running = true) (hpid : pid ∈ (s.team d).threads)
    {i : Nat} : s'.Passed d i ↔ s.Passed d i ∨ i = (s.team d).left pid ∧
      ∀ u ∈ (s.team d).threads, u ≠ pid → i + 1 ≤ (s.team d).left u := by
  simp only [Passed, h.running, hrunning, h.threads, true_implies]
  constructor
  · intro hpassed
    by_cases hi : i + 1 ≤ (s.team d).left pid
    · refine Or.inl ?_
      intro u hu
      by_cases hupid : u = pid
      · exact hupid ▸ hi
      · exact h.left_ne hupid ▸ hpassed u hu
    · have hle := hpassed pid hpid
      rw [h.left_pid] at hle
      refine Or.inr ⟨by omega, ?_⟩
      intro u hu hupid
      exact h.left_ne hupid ▸ hpassed u hu
  · intro hpassed u hu
    obtain hpassed | ⟨hi, hothers⟩ := hpassed
    · exact (hpassed u hu).trans (h.le_left u)
    · by_cases hupid : u = pid
      · subst hupid
        rw [h.left_pid]
        omega
      · rw [h.left_ne hupid]
        exact hothers u hu hupid

end Left

/-- All other threads of the team have left construct `e`. -/
def OthersLeft (s : WsData) (d : TeamId) (pid e : Nat) : Prop :=
  ∀ u ∈ (s.team d).threads, u ≠ pid → e ≤ (s.team d).left u

instance (s : WsData) (d : TeamId) (pid e : Nat) : Decidable (s.OthersLeft d pid e) :=
  inferInstanceAs (Decidable (∀ u ∈ (s.team d).threads, _))

/-- The count says whether a thread is the last to leave. -/
theorem card_filter_iff {e : Nat} (hpid : pid ∈ (s.team d).threads)
    (hleft : (s.team d).left pid < e) :
    ((s.team d).threads.filter (e ≤ (s.team d).left ·)).card + 1 = (s.team d).threads.card ↔
      s.OthersLeft d pid e := by
  have hsub : (s.team d).threads.filter (e ≤ (s.team d).left ·) ⊆ (s.team d).threads.erase pid := by
    intro u hu
    rw [Finset.mem_filter] at hu
    refine Finset.mem_erase.mpr ⟨?_, hu.1⟩
    intro heq
    rw [heq] at hu
    omega
  have herase : ((s.team d).threads.erase pid).card + 1 = (s.team d).threads.card :=
    Finset.card_erase_add_one hpid
  constructor
  · intro hcard u hu hupid
    have heq := Finset.eq_of_subset_of_card_le hsub (by omega)
    have hmem := Finset.mem_erase.mpr ⟨hupid, hu⟩
    rw [← heq, Finset.mem_filter] at hmem
    exact hmem.2
  · intro hothers
    have heq : (s.team d).threads.filter (e ≤ (s.team d).left ·) =
        (s.team d).threads.erase pid := by
      apply Finset.Subset.antisymm hsub
      intro u hu
      rw [Finset.mem_erase] at hu
      exact Finset.mem_filter.mpr ⟨hu.2, hothers u hu.2 hu.1⟩
    rw [heq, herase]

/-- What a thread that leaves construct `e` does to the work shares: the one before goes to the
pool if it is the last to leave. -/
structure CountedOut (s : WsData) (d : TeamId) (c : Chain) (pid e : Nat) (s₁ : WsData)
    (returned : Option WsId) : Prop where
  team : s₁.team = s.team
  brk : s₁.brk = s.brk
  ws_ne : ∀ w ≠ c.obj e, s₁.ws w = s.ws w
  ws_obj : s₁.ws (c.obj e) =
    { s.ws (c.obj e) with completed := (s.ws (c.obj e)).completed + 1 }
  pool : returned = none ∧ s₁.wsPoolList = s.wsPoolList ∧
      (e = 1 ∧ d ≠ 0 ∨ ¬ s.OthersLeft d pid e) ∨
    returned = some (c.obj (e - 1)) ∧ s₁.wsPoolList = c.obj (e - 1) :: s.wsPoolList ∧
      s.OthersLeft d pid e ∧ (2 ≤ e ∨ d = 0)

theorem ChainOf.countedOut (hc : s.ChainOf d c) (hpool : s.PoolOk)
    (hpid : pid ∈ (s.team d).threads) (hinside : (s.team d).entered pid = (s.team d).left pid + 1) :
    ∃ s₁ returned, gompWorkShareEndNowait d pid s = some (s₁, returned) ∧
      s.CountedOut d c pid ((s.team d).entered pid) s₁ returned := by
  have hle := hc.entered_le pid hpid
  have hheld := hc.held_entered hpid
  have hwork := hc.workShare pid hpid
  have hcompleted := hc.completed _ (by omega) hle hheld
  have hprev := hc.prevWs ((s.team d).entered pid - 1) (by omega)
    (by rwa [Nat.sub_add_cancel (by omega)])
  rw [Nat.sub_add_cancel (by omega)] at hprev
  have hothers := card_filter_iff (e := (s.team d).entered pid) hpid (by omega)
  have hlast : (s.ws (c.obj ((s.team d).entered pid))).completed + 1 = (s.team d).nthreads ↔
      s.OthersLeft d pid ((s.team d).entered pid) := by
    rw [hcompleted, hc.nthreads]
    exact hothers
  generalize he : (s.team d).entered pid = e at *
  by_cases hall : s.OthersLeft d pid e
  · have hend : gompWorkShareEndNowait d pid s = some (gompFreeWorkShare (c.obj (e - 1))
        (s.modifyWs (c.obj e) fun w => { w with completed := w.completed + 1 })) := by
      simp [gompWorkShareEndNowait, hwork, modifyWs, hlast.mpr hall, hprev]
    have hembed : ∀ w, ((s.modifyWs (c.obj e) fun w => { w with completed := w.completed + 1 }).ws
        w).embedded = (s.ws w).embedded := by
      intro w
      by_cases hw : w = c.obj e <;> simp [modifyWs, hw]
    by_cases hembedded : e = 1 ∧ d ≠ 0
    · obtain ⟨hone, hd⟩ := hembedded
      have hfree : ((s.modifyWs (c.obj e) fun w => { w with completed := w.completed + 1 }).ws
          (c.obj (e - 1))).embedded = true := by
        rw [hembed, hone, Nat.sub_self, hc.obj_zero, hpool.embedded_root]
        simp [Fin.one_le_of_ne_zero hd]
      refine ⟨_, _, by rw [hend, gompFreeWorkShare, if_pos hfree], ?_⟩
      constructor
      case pool => exact Or.inl ⟨rfl, rfl, Or.inl ⟨hone, hd⟩⟩
      case ws_ne =>
        intro w hw
        simp [modifyWs, hw]
      all_goals simp [modifyWs]
    · have hfree : ((s.modifyWs (c.obj e) fun w => { w with completed := w.completed + 1 }).ws
          (c.obj (e - 1))).embedded = false := by
        rw [hembed]
        by_cases hone : e = 1
        · have hd : d = 0 := by
            by_contra hd
            exact hembedded ⟨hone, hd⟩
          rw [hone, Nat.sub_self, hc.obj_zero, hpool.embedded_root, hd]
          rfl
        · obtain ⟨m, -, hm⟩ := hc.heap (e - 1) (by omega) (by omega)
          rw [hm, hpool.embedded_heap]
      refine ⟨_, _, by rw [hend, gompFreeWorkShare, if_neg (by simp [hfree])], ?_⟩
      constructor
      case pool =>
        refine Or.inr ⟨rfl, rfl, hall, ?_⟩
        by_cases hd : d = 0
        · exact Or.inr hd
        · refine Or.inl ?_
          by_contra hlt
          exact hembedded ⟨by omega, hd⟩
      case ws_ne =>
        intro w hw
        simp [gompPushWsPool, modifyWs, hw]
      all_goals simp [gompPushWsPool, modifyWs]
  · have hne : (s.ws (c.obj e)).completed + 1 ≠ (s.team d).nthreads := fun h => hall (hlast.mp h)
    refine ⟨_, _, by
      simp only [gompWorkShareEndNowait, hwork, modifyWs, Function.update_self, hne, if_false,
        Option.bind_eq_bind, Option.bind_some, Option.pure_def]
      rfl, ?_⟩
    constructor
    case pool => exact Or.inl ⟨rfl, rfl, Or.inr hall⟩
    case ws_ne =>
      intro w hw
      simp [hw]
    all_goals simp

/-- A thread that leaves a construct keeps the chain. -/
theorem ChainOf.leave (hc : s.ChainOf d c) {s₁ : WsData} {returned : Option WsId}
    (hpid : pid ∈ (s.team d).threads) (hinside : (s.team d).entered pid = (s.team d).left pid + 1)
    (h : s.Left d pid s') (hout : s.CountedOut d c pid ((s.team d).entered pid) s₁ returned)
    (hws : s'.ws = s₁.ws) (hlist : s'.wsPoolList = s₁.wsPoolList) (hbrk : s'.brk = s₁.brk) :
    s'.ChainOf d c := by
  have hobj : ∀ j ≤ c.last, s.Held d j → j ≠ (s.team d).entered pid →
      c.obj j ≠ c.obj ((s.team d).entered pid) := by
    intro j hj hheld hne heq
    exact hne (hc.inj j _ hj (hc.entered_le pid hpid) hheld (hc.held_entered hpid) heq)
  have hnext : ∀ j ≤ c.last, s.Held d j → (s'.ws (c.obj j)).nextWs = (s.ws (c.obj j)).nextWs := by
    intro j hj hheld
    by_cases hne : j = (s.team d).entered pid
    · rw [hws, hne, hout.ws_obj]
    · rw [hws, hout.ws_ne _ (hobj j hj hheld hne)]
  have hprev : ∀ j ≤ c.last, s.Held d j → (s'.ws (c.obj j)).prevWs = (s.ws (c.obj j)).prevWs := by
    intro j hj hheld
    by_cases hne : j = (s.team d).entered pid
    · rw [hws, hne, hout.ws_obj]
    · rw [hws, hout.ws_ne _ (hobj j hj hheld hne)]
  constructor
  case nthreads => rw [h.nthreads, h.threads, hc.nthreads]
  case obj_zero => exact hc.obj_zero
  case left_le =>
    intro u hu
    rw [h.threads] at hu
    rw [h.entered]
    by_cases hupid : u = pid
    · subst hupid
      rw [h.left_pid]
      omega
    · rw [h.left_ne hupid]
      exact hc.left_le u hu
  case entered_le_left =>
    intro u hu
    rw [h.threads] at hu
    rw [h.entered]
    exact (hc.entered_le_left u hu).trans (Nat.succ_le_succ (h.le_left u))
  case entered_le =>
    rw [h.threads, h.entered]
    exact hc.entered_le
  case top =>
    rw [h.threads, h.entered]
    exact hc.top
  case workShare =>
    rw [h.threads, h.entered, h.workShare]
    exact hc.workShare
  case nextWs =>
    intro j hj hheld
    rw [hnext j hj.le (h.held hheld)]
    exact hc.nextWs j hj (h.held hheld)
  case nextWs_last =>
    rw [hnext c.last (Nat.le_refl _) hc.held_last]
    exact hc.nextWs_last
  case prevWs =>
    intro j hj hheld
    rw [hprev (j + 1) hj (h.held hheld)]
    exact hc.prevWs j hj (h.held hheld)
  case prevWs_zero =>
    intro hheld
    rw [hprev 0 (Nat.zero_le _) (h.held hheld)]
    exact hc.prevWs_zero (h.held hheld)
  case completed =>
    intro j hpos hj hheld
    have hheld := h.held hheld
    rw [h.card_filter hpid, ← hinside, ← hc.completed j hpos hj hheld, hws]
    by_cases hne : j = (s.team d).entered pid
    · rw [if_pos hne, hne, hout.ws_obj]
    · rw [if_neg hne, hout.ws_ne _ (hobj j hj hheld hne), Nat.add_zero]
  case heap =>
    rw [hbrk, hout.brk]
    exact hc.heap
  case inj =>
    intro j k hj hk hheldj hheldk
    exact hc.inj j k hj hk (h.held hheldj) (h.held hheldk)
  case unpooled =>
    intro w hw
    have hpool := hc.unpooled w (h.inUse hw)
    rw [hlist]
    obtain ⟨-, hsame, -⟩ | ⟨-, hpush, hothers, -⟩ := hout.pool
    · rwa [hsame]
    · rw [hpush, List.mem_cons, not_or]
      refine ⟨?_, hpool⟩
      -- the work share before is held by no thread any more
      obtain ⟨j, hj, hheld, rfl⟩ := hw
      intro heq
      obtain ⟨u, hu, hle⟩ := hheld
      rw [h.threads] at hu
      have hge : (s.team d).entered pid ≤ (s'.team d).left u := by
        by_cases hupid : u = pid
        · rw [hupid, h.left_pid, hinside]
        · rw [h.left_ne hupid]
          exact hothers u hu hupid
      have hbefore : s.Held d ((s.team d).entered pid - 1) := ⟨pid, hpid, by omega⟩
      have := hc.inj j _ hj ((Nat.sub_le _ _).trans (hc.entered_le pid hpid))
        (h.held ⟨u, h.threads ▸ hu, hle⟩) hbefore heq
      omega

end WsData

end Hero.Libgomp
