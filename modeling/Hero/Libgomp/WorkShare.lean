import Hero.Framework.Machine
import Hero.Libgomp.Team
import Mathlib.Data.Finset.Card

/-!
# Work shares of libgomp

The threads of a team go from one work share to the next along a chain, which the first thread to
come extends.  The last thread to leave a work share returns the one before it to a pool that all
teams allocate from.

A thread holds the lock of the work share it comes from until it has that of the one it goes to,
and it counts itself out under the lock of the one it leaves, so each call is one step.
-/

namespace Hero.Libgomp

/-- A work share: the one in a team descriptor, or the `n`-th of the others, of which the first two
are those of `ws_descriptor_pool` and the rest come from `l1malloc`. -/
inductive WsId where
  | root (team : TeamId)
  | heap (n : Nat)
  deriving DecidableEq

/-- `gomp_work_share_t`, the part that links it. -/
structure WorkShare where
  embedded : Bool
  completed : Nat
  nextWs : Option WsId
  prevWs : Option WsId

/-- A team and where its threads are: how many constructs each has entered and left, and whether it
waits at the end of the last one. -/
structure WsTeam where
  running : Bool
  threads : Finset Nat
  nthreads : Nat
  workShare : Nat → Option WsId
  entered : Nat → Nat
  left : Nat → Nat
  waits : Nat → Bool

/-- `brk` counts the work shares outside the team descriptors that exist. -/
structure WsData where
  wsPoolList : List WsId
  brk : Nat
  ws : WsId → WorkShare
  team : TeamId → WsTeam

namespace WsData

def modifyWs (s : WsData) (ws : WsId) (f : WorkShare → WorkShare) : WsData :=
  { s with ws := Function.update s.ws ws (f (s.ws ws)) }

def modifyTeam (s : WsData) (d : TeamId) (f : WsTeam → WsTeam) : WsData :=
  { s with team := Function.update s.team d (f (s.team d)) }

/-- `CURR_WS(pid) = ws` -/
def setWorkShare (s : WsData) (d : TeamId) (pid : Nat) (ws : WsId) : WsData :=
  s.modifyTeam d fun team => { team with workShare := Function.update team.workShare pid (some ws) }

end WsData

def gompPushWsPool (ws : WsId) (s : WsData) : WsData :=
  { s with wsPoolList := ws :: s.wsPoolList }

/-- `alloc_work_share`, where `mem` says whether `l1malloc` finds memory.  `gomp_malloc_ws` does not
look, so that without it the null pointer is written through. -/
def allocWorkShare (mem : Bool) (s : WsData) : Option (WsId × WsData) :=
  match s.wsPoolList with
  | ws :: next => some (ws, { s with wsPoolList := next })
  | [] =>
    if mem then
      let ws := .heap s.brk
      some (ws, { s with brk := s.brk + 1 }.modifyWs ws fun w => { w with embedded := false })
    else none

/-- `gomp_free_work_share`, with the work share that it has put in the pool. -/
def gompFreeWorkShare (ws : WsId) (s : WsData) : WsData × Option WsId :=
  if (s.ws ws).embedded then (s, none) else (gompPushWsPool ws s, some ws)

def gompNewWorkShare (mem : Bool) (s : WsData) : Option (WsId × WsData) := do
  let (newWs, s) ← allocWorkShare mem s
  return (newWs, s.modifyWs newWs fun w => { w with nextWs := none, prevWs := none })

/-- `gomp_work_share_start`: the work share that is entered and whether it is new.  The result is
`none` where a null pointer is followed. -/
def gompWorkShareStart (d : TeamId) (pid : Nat) (mem : Bool) (s : WsData) :
    Option (WsId × Bool × WsData) := do
  let currWs ← (s.team d).workShare pid
  match (s.ws currWs).nextWs with
  | some newWs => return (newWs, false, s.setWorkShare d pid newWs)
  | none => do
    let (newWs, s) ← gompNewWorkShare mem s
    let s := s.modifyWs newWs fun w => { w with prevWs := some currWs }
    let s := s.modifyWs currWs fun w => { w with nextWs := some newWs }
    let s := s.modifyWs newWs fun w => { w with completed := 0 }
    return (newWs, true, s.setWorkShare d pid newWs)

/-- `gomp_work_share_end_nowait`, with the work share that has gone to the pool. -/
def gompWorkShareEndNowait (d : TeamId) (pid : Nat) (s : WsData) :
    Option (WsData × Option WsId) := do
  let ws ← (s.team d).workShare pid
  let s := s.modifyWs ws fun w => { w with completed := w.completed + 1 }
  if (s.ws ws).completed = (s.team d).nthreads then
    match (s.ws ws).prevWs with
    | some prevWs => return gompFreeWorkShare prevWs s
    | none => return (s, none)
  else return (s, none)

/-- `GOMP_single_start`, which counts the thread out at once and follows `prev_ws` unchecked. -/
def gompSingleStart (d : TeamId) (pid : Nat) (mem : Bool) (s : WsData) :
    Option (WsId × Bool × WsData × Option WsId) := do
  let (ws, first, s) ← gompWorkShareStart d pid mem s
  let s := s.modifyWs ws fun w => { w with completed := w.completed + 1 }
  if (s.ws ws).completed = (s.team d).nthreads then do
    let prevWs ← (s.ws ws).prevWs
    let (s, returned) := gompFreeWorkShare prevWs s
    return (ws, first, s, returned)
  else return (ws, first, s, none)

/-- The part of `gomp_team_start` that is about work shares, with `gomp_init_thread` on each
slave. -/
def gompTeamStartWs (d : TeamId) (threads : Finset Nat) (s : WsData) : WsData :=
  let s := s.modifyWs (.root d) fun w => { w with nextWs := none, prevWs := none }
  s.modifyTeam d fun team =>
    { running := true
      threads := threads
      nthreads := threads.card
      workShare := fun pid => if pid ∈ threads then some (.root d) else team.workShare pid
      entered := fun _ => 0
      left := fun _ => 0
      waits := fun _ => false }

/-- The part of `gomp_team_end` that is about work shares. -/
def gompTeamEndWs (d : TeamId) (pid : Nat) (s : WsData) : Option (WsData × Option WsId) := do
  let ws ← (s.team d).workShare pid
  let (s, returned) := gompFreeWorkShare ws s
  return (s.modifyTeam d fun team => { team with running := false }, returned)

local instance neZeroTeams : NeZero 4 := ⟨four_ne_zero⟩

/-- The descriptor of `gomp_master_region_start`. -/
abbrev masterTeam : TeamId := 3

/-- After `gomp_team_pool_init`, `gomp_ws_pool_init` and `gomp_master_region_start`.  The team of
the initial thread is said to have all cores, and nothing sets its work share. -/
def wsInit (nprocs : Nat) : WsData where
  wsPoolList := [.heap 1, .heap 0]
  brk := 2
  ws := fun ws =>
    { embedded := match ws with
        | .root d => decide (1 ≤ d)
        | .heap _ => false
      completed := 0
      nextWs := none
      prevWs := none }
  team := fun d =>
    { running := decide (d = masterTeam)
      threads := {0}
      nthreads := nprocs
      workShare := fun _ => none
      entered := fun _ => 0
      left := fun _ => 0
      waits := fun _ => false }

/-! ## Runs -/

/-- Loops and sections are entered and left; a single is left as it is entered.  In a combined
parallel construct the work share that is left is that of the team. -/
inductive WsCall where
  | start (d : TeamId) (threads : Finset Nat)
  | enter (d : TeamId) (pid : Nat) (mem : Bool)
  | single (d : TeamId) (pid : Nat) (mem wait : Bool)
  | leave (d : TeamId) (pid : Nat) (wait : Bool)
  | leaveCombined (d : TeamId) (pid : Nat)
  | finish (d : TeamId) (pid : Nat)

/-- Thread `pid` enters its `i`-th construct, the work share of construct `i` goes to the pool, or
a null pointer is followed. -/
inductive WsEvent where
  | started (d : TeamId)
  | entered (d : TeamId) (pid i : Nat) (ws : WsId) (first : Bool)
  | returned (d : TeamId) (i : Nat) (ws : WsId)
  | fault (d : TeamId) (pid : Nat)
  deriving DecidableEq

namespace WsData

variable (s : WsData) (d : TeamId) (pid : Nat)

/-- The thread is between two constructs, and no barrier holds it. -/
def CanEnter : Prop :=
  (s.team d).running = true ∧ pid ∈ (s.team d).threads ∧
    (s.team d).left pid = (s.team d).entered pid ∧
    ((s.team d).waits pid = true →
      ∀ u ∈ (s.team d).threads, (s.team d).left pid ≤ (s.team d).left u)

/-- The thread is in a construct. -/
def Inside : Prop :=
  (s.team d).running = true ∧ pid ∈ (s.team d).threads ∧
    (s.team d).entered pid = (s.team d).left pid + 1

/-- The thread has entered no construct but the combined one. -/
def InsideCombined : Prop :=
  d ≠ masterTeam ∧ (s.team d).running = true ∧ pid ∈ (s.team d).threads ∧
    (s.team d).entered pid = 0

/-- All threads have left the last construct. -/
def CanFinish : Prop :=
  d ≠ masterTeam ∧ (s.team d).running = true ∧ pid ∈ (s.team d).threads ∧
    ∀ u ∈ (s.team d).threads,
      (s.team d).entered u = (s.team d).entered pid ∧ (s.team d).left u = (s.team d).entered pid

instance : Decidable (s.CanEnter d pid) := inferInstanceAs (Decidable (_ ∧ _))

instance : Decidable (s.Inside d pid) := inferInstanceAs (Decidable (_ ∧ _))

instance : Decidable (s.InsideCombined d pid) := inferInstanceAs (Decidable (_ ∧ _))

instance : Decidable (s.CanFinish d pid) := inferInstanceAs (Decidable (_ ∧ _))

def enters : WsData :=
  s.modifyTeam d fun team =>
    { team with entered := Function.update team.entered pid (team.entered pid + 1) }

def leaves (wait : Bool) : WsData :=
  s.modifyTeam d fun team =>
    { team with
      left := Function.update team.left pid (team.left pid + 1)
      waits := Function.update team.waits pid wait }

end WsData

/-- The event of a work share that may have gone to the pool. -/
def returnedEvent (d : TeamId) (i : Nat) : Option WsId → List WsEvent
  | none => []
  | some ws => [.returned d i ws]

/-- All teams with their threads. -/
def workSharing : Machine WsData WsCall WsEvent := fun s call =>
  match call with
  | .start d threads =>
    if (s.team d).running = false ∧ threads.Nonempty then
      some (gompTeamStartWs d threads s, [.started d])
    else none
  | .enter d pid mem =>
    if s.CanEnter d pid then
      match gompWorkShareStart d pid mem s with
      | none => some (s, [.fault d pid])
      | some (ws, first, s') =>
        some (s'.enters d pid, [.entered d pid ((s.team d).entered pid + 1) ws first])
    else none
  | .single d pid mem wait =>
    if s.CanEnter d pid then
      match gompSingleStart d pid mem s with
      | none => some (s, [.fault d pid])
      | some (ws, first, s', returned) =>
        some ((s'.enters d pid).leaves d pid wait,
          .entered d pid ((s.team d).entered pid + 1) ws first ::
            returnedEvent d ((s.team d).entered pid) returned)
    else none
  | .leave d pid wait =>
    if s.Inside d pid then
      match gompWorkShareEndNowait d pid s with
      | none => some (s, [.fault d pid])
      | some (s', returned) =>
        some (s'.leaves d pid wait, returnedEvent d ((s.team d).left pid) returned)
    else none
  | .leaveCombined d pid =>
    if s.InsideCombined d pid then
      match gompWorkShareEndNowait d pid s with
      | none => some (s, [.fault d pid])
      | some (s', returned) => some (s', returnedEvent d 0 returned)
    else none
  | .finish d pid =>
    if s.CanFinish d pid then
      match gompTeamEndWs d pid s with
      | none => some (s, [.fault d pid])
      | some (s', returned) =>
        some (s', returnedEvent d ((s.team d).entered pid) returned)
    else none

namespace WsEvent

/-- An event of team `d` after the start of its region. -/
def isOf (d : TeamId) : WsEvent → Bool
  | started _ => false
  | entered d' _ _ _ _ => d' = d
  | returned d' _ _ => d' = d
  | fault d' _ => d' = d

/-- A thread initialises construct `i`. -/
def opens (i : Nat) : WsEvent → Bool
  | entered _ _ i' _ true => i' = i
  | _ => false

/-- The work share of construct `i` goes to the pool. -/
def returns (i : Nat) : WsEvent → Bool
  | returned _ i' _ => i' = i
  | _ => false

end WsEvent

/-- The events of the region team `d` has started last. -/
def region (d : TeamId) (h : List WsEvent) : List WsEvent :=
  h.foldl (fun r e => if e = .started d then [] else if e.isOf d then r ++ [e] else r) []

/-- All threads of the team have left the construct after construct `i`, or its region has ended. -/
def WsData.Passed (s : WsData) (d : TeamId) (i : Nat) : Prop :=
  (s.team d).running = true → ∀ pid ∈ (s.team d).threads, i + 1 ≤ (s.team d).left pid

/-- Each construct has one work share, which one thread initialises and which goes to the pool once
when all threads have passed it; what is in the pool is in use by no thread and not embedded. -/
structure WsSound (s : WsData) (h : List WsEvent) : Prop where
  no_fault : ∀ d pid, .fault d pid ∉ h
  same : ∀ d pid pid' i ws ws' first first', .entered d pid i ws first ∈ region d h →
    .entered d pid' i ws' first' ∈ region d h → ws = ws'
  opened_once : ∀ d pid i ws first, .entered d pid i ws first ∈ region d h →
    (region d h).countP (WsEvent.opens i) = 1
  returned_passed : ∀ d i ws, .returned d i ws ∈ region d h →
    s.Passed d i ∧ ∃ pid first, .entered d pid i ws first ∈ region d h
  returned_once : ∀ d i, (region d h).countP (WsEvent.returns i) ≤ 1
  returned_of_passed : ∀ d pid i ws first, .entered d pid i ws first ∈ region d h →
    s.Passed d i → .returned d i ws ∈ region d h
  pool_nodup : s.wsPoolList.Nodup
  not_embedded : ∀ d, .root d ∉ s.wsPoolList
  unused : ∀ ws ∈ s.wsPoolList, ∀ d, (s.team d).running = true → ∀ pid ∈ (s.team d).threads,
    (s.team d).workShare pid ≠ some ws

end Hero.Libgomp
