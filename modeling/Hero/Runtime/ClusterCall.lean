import Hero.Framework.DoubleBuffer
import Hero.Framework.Machine
import Mathlib.Data.List.Infix

/-!
# Cluster calls

`rt_cluster_call` on the fabric controller and the loop of the cluster master, which share the two
entries of `__rt_cluster_call`.
-/

namespace Hero.Runtime

open Hero.DoubleBuffer

/-- `__rt_cluster_call_t`.  `job` is the number of the request and has no place in memory. -/
structure ClusterCall where
  nbPe : Int
  entry : Nat
  arg : Nat
  stacksPtr : Int
  masterStackSize : Int
  slaveStackSize : Int
  event : Nat
  sched : Nat
  job : Nat
  deriving DecidableEq, Repr

/-- `nb_pe` is written last and marks an entry as full. -/
def ClusterCall.Ready (c : ClusterCall) : Prop := c.nbPe ≠ 0

instance : DecidablePred ClusterCall.Ready := fun c => inferInstanceAs (Decidable (c.nbPe ≠ 0))

/-- The entries after `__rt_init_cluster_data`. -/
def ClusterCall.zero : ClusterCall := ⟨0, 0, 0, 0, 0, 0, 0, 0, 0⟩

/-- The arguments of `rt_cluster_call`; null pointers are 0. -/
structure ClusterRequest where
  entry : Nat
  arg : Nat
  stacksPtr : Nat
  masterStackSize : Int
  slaveStackSize : Int
  nbPe : Int
  event : Nat

/-- The values the link-time configuration gives. -/
structure ClusterConfig where
  nbActivePe : Int
  clMasterStackSize : Int
  clSlaveStackSize : Int
  nbActivePe_ne : nbActivePe ≠ 0

/-- `call_head` and `call_stacks` at some point of a call. -/
structure CallPosition where
  callHead : Bool
  callStacks : Nat
  deriving DecidableEq

/-- Where the fabric controller is in `rt_cluster_call`, which runs with interrupts disabled.
`before` is the position the call found. -/
inductive FcPhase where
  | idle
  | claimed (r : ClusterRequest) (before : CallPosition)
  | released (r : ClusterRequest) (before : CallPosition)
  | prepared (r : ClusterRequest) (before : CallPosition) (stacksPtr : Nat)
  | filled (before : CallPosition) (call : ClusterCall)

/-- Where the master is in `__rt_master_loop` and `__rt_master_event`. -/
inductive MasterPhase where
  | poll
  | read (nbPe : Int)
  | clear (call : ClusterCall)
  | run (call : ClusterCall)
  | push (event : Nat)

structure ClusterState where
  slots : Bool → ClusterCall
  callHead : Bool
  callStacks : Nat
  callStacksSize : Int
  events : Nat
  fc : FcPhase
  master : MasterPhase
  /-- the entry that register `s0` points to -/
  next : Bool
  /-- the number of the current or next request -/
  jobs : Nat
  /-- the request that `callStacks` were allocated for -/
  stacksJob : Nat

def ClusterState.start : ClusterState :=
  ⟨fun _ => ClusterCall.zero, false, 0, 0, 0, .idle, .poll, false, 0, 0⟩

inductive ClusterStep where
  | request (r : ClusterRequest)
  | release
  /-- the allocator's answer -/
  | alloc (stacksPtr : Nat)
  /-- the event `__rt_wait_event_prepare` takes for a synchronous call, and the event's scheduler -/
  | fill (blocking sched : Nat)
  | publish
  | master
  /-- the handler `__rt_remote_enqueue_event` -/
  | deliver

inductive ClusterEvent where
  | accepted (call : ClusterCall)
  | started (call : ClusterCall)
  | finished (call : ClusterCall)
  | freed (job addr : Nat) (size : Int)
  /-- a call has returned an error -/
  | failed (before after : CallPosition)

namespace ClusterRequest

variable (P : ClusterConfig) (r : ClusterRequest)

def activePe : Int := if r.nbPe = 0 then P.nbActivePe else r.nbPe

def masterSize : Int := if r.masterStackSize = 0 then P.clMasterStackSize else r.masterStackSize

def slaveSize : Int := if r.slaveStackSize = 0 then P.clSlaveStackSize else r.slaveStackSize

/-- The size of the default stacks. -/
def stacksSize : Int := r.masterSize P + r.slaveSize P * (r.activePe P - 1)

def callEvent (blocking : Nat) : Nat := if r.event ≠ 0 then r.event else blocking

def toCall (job stacksPtr blocking sched : Nat) : ClusterCall where
  nbPe := r.activePe P
  entry := r.entry
  arg := r.arg
  stacksPtr := stacksPtr + r.masterSize P
  masterStackSize := r.masterSize P
  slaveStackSize := r.slaveSize P
  event := r.callEvent blocking
  sched := sched
  job := job

end ClusterRequest

namespace ClusterState

/-- The master's part.  A master that finds nothing to do sleeps. -/
def masterLoop (s : ClusterState) : Option (ClusterState × List ClusterEvent) :=
  match s.master with
  | .poll =>
    if (s.slots s.next).nbPe = 0 then none
    else some ({ s with master := .read (s.slots s.next).nbPe }, [])
  | .read nbPe => some ({ s with master := .clear { s.slots s.next with nbPe := nbPe } }, [])
  | .clear call =>
    some ({ s with
      slots := Function.update s.slots s.next { s.slots s.next with nbPe := 0 }
      next := !s.next
      master := .run call }, [.started call])
  | .run call => some ({ s with master := .push call.event }, [.finished call])
  | .push event =>
    if event = 0 then some ({ s with master := .poll }, [])
    else if s.events ≠ 0 then none
    else some ({ s with events := event, master := .poll }, [])

end ClusterState

/-- The fabric controller and the master.  A synchronous caller sleeps once its call is published,
and other threads may make calls meanwhile. -/
def rtClusterCall (P : ClusterConfig) : Machine ClusterState ClusterStep ClusterEvent := fun s i =>
  match i, s.fc with
  | .request r, .idle =>
    -- without a free entry the thread sleeps and starts again
    if (s.slots s.callHead).nbPe ≠ 0 then some (s, [])
    else some ({ s with
      callHead := !s.callHead
      fc := .claimed r ⟨s.callHead, s.callStacks⟩ }, [])
  | .release, .claimed r before =>
    if s.callStacks = 0 then some ({ s with fc := .released r before }, [])
    else some ({ s with callStacks := 0, fc := .released r before },
      [.freed s.stacksJob s.callStacks s.callStacksSize])
  | .alloc stacksPtr, .released r before =>
    if r.stacksPtr ≠ 0 then some ({ s with fc := .prepared r before r.stacksPtr }, [])
    else if stacksPtr = 0 then
      some ({ s with callStacksSize := r.stacksSize P, fc := .idle, jobs := s.jobs + 1 },
        [.failed before ⟨s.callHead, s.callStacks⟩])
    else some ({ s with
      callStacksSize := r.stacksSize P
      callStacks := stacksPtr
      stacksJob := s.jobs
      fc := .prepared r before stacksPtr }, [])
  | .fill blocking sched, .prepared r before stacksPtr =>
    let call := r.toCall P s.jobs stacksPtr blocking sched
    some ({ s with
      slots := Function.update s.slots before.callHead { call with nbPe := 0 }
      fc := .filled before call }, [])
  | .publish, .filled before call =>
    some ({ s with
      slots := Function.update s.slots before.callHead
        { s.slots before.callHead with nbPe := call.nbPe }
      fc := .idle
      jobs := s.jobs + 1 }, [.accepted call])
  | .master, _ => s.masterLoop
  | .deliver, .idle => if s.events = 0 then none else some ({ s with events := 0 }, [])
  | _, _ => none

section Histories

variable (h : List ClusterEvent)

def accepted : List ClusterCall := h.filterMap fun
  | .accepted call => some call
  | _ => none

def started : List ClusterCall := h.filterMap fun
  | .started call => some call
  | _ => none

def finished : List ClusterCall := h.filterMap fun
  | .finished call => some call
  | _ => none

end Histories

/-- What the histories of cluster calls shall be.  `p` is what happened before stacks were freed. -/
structure InOrder (h : List ClusterEvent) : Prop where
  distinct : ((accepted h).map ClusterCall.job).Nodup
  started : started h <+: accepted h
  finished : finished h <+: Hero.Runtime.started h
  freed : ∀ p q job addr size, h = p ++ .freed job addr size :: q →
    job ∈ (Hero.Runtime.finished p).map ClusterCall.job
  failed : ∀ before after, .failed before after ∈ h → before = after

/-- Steps that no new call begins with. -/
def ClusterStep.Inner : ClusterStep → Prop
  | .request _ => False
  | _ => True

def MasterPhase.running : MasterPhase → List ClusterCall
  | .run call => [call]
  | _ => []

namespace ClusterState

variable (s : ClusterState)

/-- The calls that wait in the entries. -/
def queue : List ClusterCall := contents ClusterCall.Ready s.slots s.next

/-- The accepted calls that have not finished. -/
def inFlight : List ClusterCall := s.master.running ++ s.queue

end ClusterState

/-- Default stacks are given back only once their call has finished, and are always found. -/
def Permitted (s : ClusterState) (i : ClusterStep) : Prop :=
  match i, s.fc with
  | .release, .claimed _ _ => s.callStacks ≠ 0 → s.stacksJob ∉ s.inFlight.map ClusterCall.job
  | .alloc stacksPtr, .released r _ => r.stacksPtr = 0 → stacksPtr ≠ 0
  | _, _ => True

instance (s : ClusterState) (i : ClusterStep) : Decidable (Permitted s i) := by
  unfold Permitted
  split <;> infer_instance

/-- Without new calls both sides come to rest, and then every accepted call has been executed. -/
def Executed (P : ClusterConfig) (s : ClusterState) (h : List ClusterEvent) : Prop :=
  ∃ n, ∀ is s' es, (∀ i ∈ is, i.Inner) → (rtClusterCall P).Along Permitted s is →
    (rtClusterCall P).run s is = some (s', es) →
    is.length ≤ n ∧
      ((∀ i : ClusterStep, i.Inner → rtClusterCall P s' i = none) →
        finished (h ++ es) = accepted (h ++ es))

section Histories

variable {h es : List ClusterEvent} {call : ClusterCall} {job addr : Nat} {size : Int}
  {before after : CallPosition}

@[simp] theorem accepted_append : accepted (h ++ es) = accepted h ++ accepted es := by
  simp [accepted]

@[simp] theorem started_append : started (h ++ es) = started h ++ started es := by
  simp [started]

@[simp] theorem finished_append : finished (h ++ es) = finished h ++ finished es := by
  simp [finished]

@[simp] theorem accepted_nil : accepted [] = [] := rfl

@[simp] theorem started_nil : started [] = [] := rfl

@[simp] theorem finished_nil : finished [] = [] := rfl

/-- Every release of stacks in the history came after the end of their call. -/
def FreedLate (h : List ClusterEvent) : Prop :=
  ∀ p q job addr size, h = p ++ .freed job addr size :: q →
    job ∈ (finished p).map ClusterCall.job

theorem FreedLate.append (hlate : FreedLate h)
    (hes : ∀ p q job addr size, es = p ++ .freed job addr size :: q →
      job ∈ (finished (h ++ p)).map ClusterCall.job) : FreedLate (h ++ es) := by
  intro p q job addr size heq
  rcases List.append_eq_append_iff.mp heq with ⟨t, hp, hes'⟩ | ⟨t, hh, hq⟩
  · rw [hp]
    exact hes t q job addr size hes'
  · cases t with
    | nil =>
      rw [List.append_nil] at hh
      have hlast := hes [] q job addr size (by simpa using hq.symm)
      rwa [List.append_nil, hh] at hlast
    | cons e t =>
      simp only [List.cons_append, List.cons.injEq] at hq
      rw [← hq.1] at hh
      exact hlate p t job addr size hh

theorem FreedLate.append_other (hlate : FreedLate h)
    (hes : ∀ job addr size, .freed job addr size ∉ es) : FreedLate (h ++ es) := by
  refine hlate.append ?_
  intro p q job addr size heq
  exact absurd (by simp [heq]) (hes job addr size)

theorem FreedLate.append_freed (hlate : FreedLate h)
    (hjob : job ∈ (finished h).map ClusterCall.job) :
    FreedLate (h ++ [.freed job addr size]) := by
  refine hlate.append ?_
  intro p q job' addr' size' heq
  cases p with
  | nil =>
    simp only [List.nil_append, List.cons.injEq, ClusterEvent.freed.injEq] at heq
    rw [← heq.1.1, List.append_nil]
    exact hjob
  | cons e p => simp at heq

end Histories

section Invariant

variable {P : ClusterConfig} {s s' : ClusterState} {h es : List ClusterEvent} {i : ClusterStep}
  {put : Bool} {q : List ClusterCall} {call : ClusterCall}

/-- The recorded stacks are those of an accepted call. -/
def ClusterState.Owned (s : ClusterState) (h : List ClusterEvent) : Prop :=
  s.callStacks ≠ 0 → s.stacksJob ∈ (accepted h).map ClusterCall.job

/-- The fabric controller is about to fill the entry `put`, which it found empty. -/
structure ClusterState.Filling (s : ClusterState) (put : Bool) (before : CallPosition) : Prop where
  position : before.callHead = put
  head : s.callHead = !put
  free : ¬ (s.slots put).Ready

/-- What is known at each point of `rt_cluster_call`. -/
def ClusterState.FcOk (s : ClusterState) (h : List ClusterEvent) (put : Bool) : Prop :=
  match s.fc with
  | .idle => s.callHead = put ∧ s.Owned h
  | .claimed _ before => s.Filling put before ∧ s.Owned h
  | .released _ before => s.Filling put before ∧ s.callStacks = 0
  | .prepared _ before _ => s.Filling put before ∧ (s.callStacks ≠ 0 → s.stacksJob = s.jobs)
  | .filled before call => s.Filling put before ∧ (s.callStacks ≠ 0 → s.stacksJob = s.jobs) ∧
      s.slots put = { call with nbPe := 0 } ∧ call.Ready ∧ call.job = s.jobs

/-- What is known at each point of the master's loop. -/
def ClusterState.MasterOk (s : ClusterState) : Prop :=
  match s.master with
  | .read nbPe => (s.slots s.next).nbPe = nbPe ∧ (s.slots s.next).Ready
  | .clear call => s.slots s.next = call ∧ (s.slots s.next).Ready
  | _ => True

/-- The invariant: the entries hold the queue `q` of calls that wait. -/
structure ClusterState.Inv (s : ClusterState) (h : List ClusterEvent) (put : Bool)
    (q : List ClusterCall) : Prop where
  holds : Holds ClusterCall.Ready s.slots s.next put q
  accepted : accepted h = finished h ++ s.master.running ++ q
  started : started h = finished h ++ s.master.running
  increasing : (Hero.Runtime.accepted h).Pairwise fun c d => c.job < d.job
  below : ∀ c ∈ Hero.Runtime.accepted h, c.job < s.jobs
  fc : s.FcOk h put
  master : s.MasterOk
  freed : FreedLate h
  failed : ∀ before after, .failed before after ∉ h

theorem ClusterState.FcOk.congr (hok : s.FcOk h put) {h' : List ClusterEvent} (hfc : s'.fc = s.fc)
    (hhead : s'.callHead = s.callHead) (hstacks : s'.callStacks = s.callStacks)
    (howner : s'.stacksJob = s.stacksJob) (hjobs : s'.jobs = s.jobs)
    (hslot : ¬ (s.slots put).Ready → s'.slots put = s.slots put)
    (hacc : accepted h' = accepted h) : s'.FcOk h' put := by
  have hfill : ∀ before, s.Filling put before → s'.Filling put before := by
    intro before hb
    refine ⟨hb.position, hhead.trans hb.head, ?_⟩
    rw [hslot hb.free]
    exact hb.free
  unfold ClusterState.FcOk ClusterState.Owned at hok ⊢
  rw [hfc, hhead, hstacks, howner, hjobs, hacc]
  cases hs : s.fc with
  | idle =>
    simp only [hs] at hok
    exact hok
  | claimed r before =>
    simp only [hs] at hok
    exact ⟨hfill before hok.1, hok.2⟩
  | released r before =>
    simp only [hs] at hok
    exact ⟨hfill before hok.1, hok.2⟩
  | prepared r before stacksPtr =>
    simp only [hs] at hok
    exact ⟨hfill before hok.1, hok.2⟩
  | filled before call =>
    simp only [hs] at hok
    refine ⟨hfill before hok.1, hok.2.1, ?_, hok.2.2.2⟩
    rw [hslot hok.1.free]
    exact hok.2.2.1

theorem ClusterState.start_inv : ClusterState.start.Inv [] false [] := by
  constructor
  · exact .empty (by decide) (by decide)
  · rfl
  · rfl
  · simp
  · simp
  · exact ⟨rfl, fun hne => absurd rfl hne⟩
  · trivial
  · intro p q job addr size heq
    simp at heq
  · simp

namespace ClusterState.Inv

theorem queue_eq (hinv : s.Inv h put q) : s.queue = q := hinv.holds.contents_eq

theorem inOrder (hinv : s.Inv h put q) : InOrder h := by
  constructor
  · exact (List.pairwise_map.mpr (hinv.increasing.imp fun hlt => Nat.ne_of_lt hlt))
  · rw [hinv.accepted, hinv.started]
    exact List.prefix_append _ _
  · rw [hinv.started]
    exact List.prefix_append _ _
  · exact hinv.freed
  · intro before after hmem
    exact absurd hmem (hinv.failed before after)

/-- The calls in flight are those accepted and not finished. -/
theorem inFlight_iff (hinv : s.Inv h put q) {job : Nat}
    (hjob : job ∈ (Hero.Runtime.accepted h).map ClusterCall.job) :
    job ∉ s.inFlight.map ClusterCall.job ↔ job ∈ (finished h).map ClusterCall.job := by
  have hnodup := hinv.inOrder.distinct
  rw [hinv.accepted, List.append_assoc] at hnodup hjob
  rw [ClusterState.inFlight, hinv.queue_eq]
  rw [List.map_append] at hnodup hjob
  have hdisj := (List.nodup_append.mp hnodup).2.2
  constructor
  · intro hnot
    exact (List.mem_append.mp hjob).resolve_right hnot
  · intro hmem hmem'
    exact hdisj job hmem job hmem' rfl

/-- A step that leaves the entries, the master and the history alone. -/
theorem fcStep (hinv : s.Inv h put q) (hslots : s'.slots = s.slots) (hnext : s'.next = s.next)
    (hmaster : s'.master = s.master) (hjobs : s.jobs ≤ s'.jobs) (hfc : s'.FcOk h put) :
    s'.Inv h put q := by
  constructor
  · rw [hslots, hnext]
    exact hinv.holds
  · rw [hmaster]
    exact hinv.accepted
  · rw [hmaster]
    exact hinv.started
  · exact hinv.increasing
  · intro c hc
    exact Nat.lt_of_lt_of_le (hinv.below c hc) hjobs
  · exact hfc
  · have hok := hinv.master
    unfold ClusterState.MasterOk at hok ⊢
    rwa [hmaster, hslots, hnext]
  · exact hinv.freed
  · exact hinv.failed

theorem log_freed (hinv : s.Inv h put q) {job addr : Nat} {size : Int}
    (hjob : job ∈ (finished h).map ClusterCall.job) :
    s.Inv (h ++ [.freed job addr size]) put q := by
  have hacc : Hero.Runtime.accepted (h ++ [.freed job addr size]) = Hero.Runtime.accepted h := by
    simp [Hero.Runtime.accepted]
  have hfin : finished (h ++ [.freed job addr size]) = finished h := by simp [finished]
  have hstart : Hero.Runtime.started (h ++ [.freed job addr size]) = Hero.Runtime.started h := by
    simp [Hero.Runtime.started]
  constructor
  · exact hinv.holds
  · rw [hacc, hfin]
    exact hinv.accepted
  · rw [hstart, hfin]
    exact hinv.started
  · rw [hacc]
    exact hinv.increasing
  · rw [hacc]
    exact hinv.below
  · exact hinv.fc.congr rfl rfl rfl rfl rfl (fun _ => rfl) hacc
  · exact hinv.master
  · exact hinv.freed.append_freed hjob
  · intro before after hmem
    rcases List.mem_append.mp hmem with hmem | hmem
    · exact hinv.failed before after hmem
    · simp at hmem

theorem request (hinv : s.Inv h put q) (hfc : s.fc = .idle) {r : ClusterRequest}
    (hfree : ¬ (s.slots s.callHead).Ready) :
    { s with
      callHead := !s.callHead
      fc := .claimed r ⟨s.callHead, s.callStacks⟩ : ClusterState }.Inv h put q := by
  have hok := hinv.fc
  simp only [ClusterState.FcOk, hfc] at hok
  obtain ⟨hhead, howned⟩ := hok
  refine hinv.fcStep rfl rfl rfl le_rfl ⟨⟨hhead, ?_, ?_⟩, howned⟩
  · simp [hhead]
  · rwa [← hhead]

theorem release (hinv : s.Inv h put q) {r : ClusterRequest} {before : CallPosition}
    (hfc : s.fc = .claimed r before) :
    { s with callStacks := 0, fc := .released r before : ClusterState }.Inv h put q := by
  have hok := hinv.fc
  simp only [ClusterState.FcOk, hfc] at hok
  exact hinv.fcStep rfl rfl rfl le_rfl ⟨⟨hok.1.position, hok.1.head, hok.1.free⟩, rfl⟩

theorem given (hinv : s.Inv h put q) {r : ClusterRequest} {before : CallPosition}
    (hfc : s.fc = .released r before) {stacksPtr : Nat} :
    { s with fc := .prepared r before stacksPtr : ClusterState }.Inv h put q := by
  have hok := hinv.fc
  simp only [ClusterState.FcOk, hfc] at hok
  obtain ⟨hfill, hnone⟩ := hok
  refine hinv.fcStep rfl rfl rfl le_rfl ⟨⟨hfill.position, hfill.head, hfill.free⟩, ?_⟩
  intro hne
  exact absurd hnone hne

theorem alloc (hinv : s.Inv h put q) {r : ClusterRequest} {before : CallPosition}
    (hfc : s.fc = .released r before) {stacksPtr : Nat} {size : Int} :
    { s with
      callStacksSize := size
      callStacks := stacksPtr
      stacksJob := s.jobs
      fc := .prepared r before stacksPtr : ClusterState }.Inv h put q := by
  have hok := hinv.fc
  simp only [ClusterState.FcOk, hfc] at hok
  exact hinv.fcStep rfl rfl rfl le_rfl
    ⟨⟨hok.1.position, hok.1.head, hok.1.free⟩, fun _ => rfl⟩

/-- Writing an entry that is empty does not concern the master. -/
theorem masterOk_update (hinv : s.Inv h put q) (hfree : ¬ (s.slots put).Ready)
    (hslots : s'.slots = Function.update s.slots put call) (hnext : s'.next = s.next)
    (hmaster : s'.master = s.master) : s'.MasterOk := by
  have hok := hinv.master
  have hother : (s.slots s.next).Ready → s'.slots s'.next = s.slots s.next := by
    intro hready
    have hne : s.next ≠ put := by
      intro he
      rw [← he] at hfree
      exact hfree hready
    rw [hslots, hnext, Function.update_of_ne hne]
  unfold ClusterState.MasterOk at hok ⊢
  rw [hmaster]
  cases hm : s.master with
  | read nbPe =>
    simp only [hm] at hok
    simp only [hother hok.2]
    exact hok
  | clear c =>
    simp only [hm] at hok
    simp only [hother hok.2]
    exact hok
  | poll => trivial
  | run => trivial
  | push => trivial

theorem fill (hinv : s.Inv h put q) {r : ClusterRequest} {before : CallPosition} {stacksPtr : Nat}
    (hfc : s.fc = .prepared r before stacksPtr) {call : ClusterCall} (hready : call.Ready)
    (hjob : call.job = s.jobs) :
    { s with
      slots := Function.update s.slots before.callHead { call with nbPe := 0 }
      fc := .filled before call : ClusterState }.Inv h put q := by
  have hok := hinv.fc
  simp only [ClusterState.FcOk, hfc] at hok
  obtain ⟨hfill, howned⟩ := hok
  have hempty : ¬ ({ call with nbPe := 0 } : ClusterCall).Ready := by simp [ClusterCall.Ready]
  rw [hfill.position]
  constructor
  · exact hinv.holds.write hfill.free hempty
  · exact hinv.accepted
  · exact hinv.started
  · exact hinv.increasing
  · exact hinv.below
  · refine ⟨⟨hfill.position, hfill.head, ?_⟩, howned, by simp, hready, hjob⟩
    simpa using hempty
  · exact hinv.masterOk_update hfill.free rfl rfl rfl
  · exact hinv.freed
  · exact hinv.failed

theorem publish (hinv : s.Inv h put q) {before : CallPosition} {call : ClusterCall}
    (hfc : s.fc = .filled before call) :
    { s with
      slots := Function.update s.slots before.callHead
        { s.slots before.callHead with nbPe := call.nbPe }
      fc := .idle
      jobs := s.jobs + 1 : ClusterState }.Inv (h ++ [.accepted call]) (!put) (q ++ [call]) := by
  have hok := hinv.fc
  simp only [ClusterState.FcOk, hfc] at hok
  obtain ⟨hfill, howned, hslot, hready, hjob⟩ := hok
  have hacc : Hero.Runtime.accepted (h ++ [.accepted call]) =
      Hero.Runtime.accepted h ++ [call] := by simp [Hero.Runtime.accepted]
  have hfin : finished (h ++ [.accepted call]) = finished h := by simp [finished]
  have hstart : Hero.Runtime.started (h ++ [.accepted call]) = Hero.Runtime.started h := by
    simp [Hero.Runtime.started]
  have hwritten : { s.slots put with nbPe := call.nbPe } = call := by rw [hslot]
  rw [hfill.position, hwritten]
  constructor
  · exact hinv.holds.push hfill.free hready
  · rw [hacc, hfin, hinv.accepted]
    exact List.append_assoc _ _ _
  · rw [hstart, hfin]
    exact hinv.started
  · rw [hacc]
    refine List.pairwise_append.mpr ⟨hinv.increasing, List.pairwise_singleton _ _, ?_⟩
    intro c hc d hd
    rw [List.mem_singleton.mp hd, hjob]
    exact hinv.below c hc
  · rw [hacc]
    intro c hc
    rcases List.mem_append.mp hc with hc | hc
    · exact Nat.lt_succ_of_lt (hinv.below c hc)
    · rw [List.mem_singleton.mp hc, hjob]
      exact Nat.lt_succ_self _
  · refine ⟨hfill.head, ?_⟩
    intro hne
    have hlast := howned hne
    rw [hacc, List.map_append, List.mem_append]
    right
    simpa [hjob] using hlast
  · exact hinv.masterOk_update hfill.free rfl rfl rfl
  · exact hinv.freed.append_other (by simp)
  · intro before after hmem
    rcases List.mem_append.mp hmem with hmem | hmem
    · exact hinv.failed before after hmem
    · simp at hmem

theorem deliver (hinv : s.Inv h put q) (hfc : s.fc = .idle) :
    { s with events := 0 : ClusterState }.Inv h put q := by
  have hok := hinv.fc
  simp only [ClusterState.FcOk, hfc] at hok
  refine hinv.fcStep rfl rfl rfl le_rfl ?_
  simp only [ClusterState.FcOk, hfc]
  exact hok

/-- A step of the master that neither starts nor ends a call. -/
theorem masterMove (hinv : s.Inv h put q) {m : MasterPhase} {events : Nat}
    (hrunning : m.running = s.master.running)
    (hok : { s with master := m, events := events : ClusterState }.MasterOk) :
    { s with master := m, events := events : ClusterState }.Inv h put q := by
  constructor
  · exact hinv.holds
  · rw [hinv.accepted, ← hrunning]
  · rw [hinv.started, ← hrunning]
  · exact hinv.increasing
  · exact hinv.below
  · exact hinv.fc.congr rfl rfl rfl rfl rfl (fun _ => rfl) rfl
  · exact hok
  · exact hinv.freed
  · exact hinv.failed

theorem start_call (hinv : s.Inv h put q) (hmaster : s.master = .clear call) :
    ∃ q', q = call :: q' ∧
      { s with
        slots := Function.update s.slots s.next { s.slots s.next with nbPe := 0 }
        next := !s.next
        master := .run call : ClusterState }.Inv (h ++ [.started call]) put q' := by
  have hok := hinv.master
  simp only [ClusterState.MasterOk, hmaster] at hok
  obtain ⟨hslot, hready⟩ := hok
  have hempty : ¬ ({ s.slots s.next with nbPe := 0 } : ClusterCall).Ready := by
    simp [ClusterCall.Ready]
  obtain ⟨q', hq, hholds⟩ := hinv.holds.pop hready hempty
  have hrun : s.master.running = [] := by rw [hmaster]; rfl
  have hacc : Hero.Runtime.accepted (h ++ [.started call]) = Hero.Runtime.accepted h := by
    simp [Hero.Runtime.accepted]
  have hfin : finished (h ++ [.started call]) = finished h := by simp [finished]
  have hstart : Hero.Runtime.started (h ++ [.started call]) =
      Hero.Runtime.started h ++ [call] := by simp [Hero.Runtime.started]
  rw [hslot] at hq
  refine ⟨q', hq, ?_⟩
  constructor
  · exact hholds
  · rw [hacc, hfin, hinv.accepted, hrun, hq]
    simp [MasterPhase.running]
  · rw [hstart, hfin, hinv.started, hrun]
    simp [MasterPhase.running]
  · rw [hacc]
    exact hinv.increasing
  · rw [hacc]
    exact hinv.below
  · refine hinv.fc.congr rfl rfl rfl rfl rfl ?_ hacc
    intro hfree
    have hne : put ≠ s.next := by
      intro he
      rw [he] at hfree
      exact hfree hready
    exact Function.update_of_ne hne _ _
  · trivial
  · exact hinv.freed.append_other (by simp)
  · intro before after hmem
    rcases List.mem_append.mp hmem with hmem | hmem
    · exact hinv.failed before after hmem
    · simp at hmem

theorem finish_call (hinv : s.Inv h put q) (hmaster : s.master = .run call) {event : Nat} :
    { s with master := .push event : ClusterState }.Inv (h ++ [.finished call]) put q := by
  have hrun : s.master.running = [call] := by rw [hmaster]; rfl
  have hacc : Hero.Runtime.accepted (h ++ [.finished call]) = Hero.Runtime.accepted h := by
    simp [Hero.Runtime.accepted]
  have hfin : finished (h ++ [.finished call]) = finished h ++ [call] := by simp [finished]
  have hstart : Hero.Runtime.started (h ++ [.finished call]) = Hero.Runtime.started h := by
    simp [Hero.Runtime.started]
  constructor
  · exact hinv.holds
  · rw [hacc, hfin, hinv.accepted, hrun]
    simp [MasterPhase.running]
  · rw [hstart, hfin, hinv.started, hrun]
    simp [MasterPhase.running]
  · rw [hacc]
    exact hinv.increasing
  · rw [hacc]
    exact hinv.below
  · exact hinv.fc.congr rfl rfl rfl rfl rfl (fun _ => rfl) hacc
  · trivial
  · exact hinv.freed.append_other (by simp)
  · intro before after hmem
    rcases List.mem_append.mp hmem with hmem | hmem
    · exact hinv.failed before after hmem
    · simp at hmem

end ClusterState.Inv

def FcPhase.work : FcPhase → Nat
  | .idle => 0
  | .claimed _ _ => 11
  | .released _ _ => 10
  | .prepared _ _ _ => 9
  | .filled _ _ => 8

def MasterPhase.work : MasterPhase → Nat
  | .poll => 3
  | .read _ => 2
  | .clear _ => 1
  | .run _ => 6
  | .push _ => 5

/-- A bound on the steps before both sides come to rest. -/
def ClusterState.work (s : ClusterState) : Nat :=
  7 * s.queue.length + s.fc.work + s.master.work + if s.events = 0 then 0 else 1

theorem ClusterRequest.toCall_ready (r : ClusterRequest) (job stacksPtr blocking sched : Nat) :
    (r.toCall P job stacksPtr blocking sched).Ready := by
  simp only [ClusterCall.Ready, ClusterRequest.toCall, ClusterRequest.activePe]
  split
  · exact P.nbActivePe_ne
  · assumption

namespace ClusterState.Inv

/-- A step of the master keeps the invariant and leaves less to do. -/
theorem masterLoop (hinv : s.Inv h put q) (hstep : s.masterLoop = some (s', es)) :
    ∃ q', s'.Inv (h ++ es) put q' ∧ s'.work < s.work := by
  unfold ClusterState.masterLoop at hstep
  cases hm : s.master with
  | poll =>
    simp only [hm] at hstep
    split at hstep
    · cases hstep
    · rename_i hready
      cases hstep
      refine ⟨q, ?_, ?_⟩
      · rw [List.append_nil]
        exact hinv.masterMove (by rw [hm]; rfl) ⟨rfl, hready⟩
      · simp [ClusterState.work, ClusterState.queue, hm, MasterPhase.work]
  | read nbPe =>
    have hok := hinv.master
    simp only [ClusterState.MasterOk, hm] at hok
    simp only [hm, Option.some.injEq, Prod.mk.injEq] at hstep
    obtain ⟨rfl, rfl⟩ := hstep
    refine ⟨q, ?_, ?_⟩
    · rw [List.append_nil, ← hok.1]
      exact hinv.masterMove (by rw [hm]; rfl) ⟨rfl, hok.2⟩
    · simp [ClusterState.work, ClusterState.queue, hm, MasterPhase.work]
  | clear call =>
    obtain ⟨q', hq, hinv'⟩ := hinv.start_call hm
    simp only [hm, Option.some.injEq, Prod.mk.injEq] at hstep
    obtain ⟨rfl, rfl⟩ := hstep
    refine ⟨q', hinv', ?_⟩
    unfold ClusterState.work
    rw [hinv'.queue_eq, hinv.queue_eq, hq, hm]
    simp only [MasterPhase.work, List.length_cons]
    omega
  | run call =>
    simp only [hm, Option.some.injEq, Prod.mk.injEq] at hstep
    obtain ⟨rfl, rfl⟩ := hstep
    refine ⟨q, hinv.finish_call hm, ?_⟩
    simp [ClusterState.work, ClusterState.queue, hm, MasterPhase.work]
  | push event =>
    simp only [hm] at hstep
    have hmove : ∀ events,
        { s with master := .poll, events := events : ClusterState }.Inv h put q := by
      intro events
      exact hinv.masterMove (by rw [hm]; rfl) trivial
    split at hstep
    · cases hstep
      refine ⟨q, ?_, ?_⟩
      · rw [List.append_nil]
        exact hmove s.events
      · simp [ClusterState.work, ClusterState.queue, hm, MasterPhase.work]
    · split at hstep
      · cases hstep
      · rename_i hevent hfree
        cases hstep
        refine ⟨q, ?_, ?_⟩
        · rw [List.append_nil]
          exact hmove event
        · simp only [ClusterState.work, ClusterState.queue, hm, MasterPhase.work, hevent]
          split <;> omega

/-- Every permitted step keeps the invariant, and leaves less to do unless a call begins. -/
theorem step (hinv : s.Inv h put q) (hperm : Permitted s i)
    (hstep : rtClusterCall P s i = some (s', es)) :
    ∃ put' q', s'.Inv (h ++ es) put' q' ∧ (i.Inner → s'.work < s.work) := by
  cases i with
  | request r =>
    cases hfc : s.fc with
    | idle =>
      simp only [rtClusterCall, hfc] at hstep
      split at hstep
      · cases hstep
        exact ⟨put, q, by rwa [List.append_nil], False.elim⟩
      · rename_i hfree
        cases hstep
        refine ⟨put, q, ?_, False.elim⟩
        rw [List.append_nil]
        exact hinv.request hfc hfree
    | _ => simp [rtClusterCall, hfc] at hstep
  | release =>
    cases hfc : s.fc with
    | claimed r before =>
      simp only [rtClusterCall, hfc] at hstep
      have hinv' := hinv.release hfc
      split at hstep
      · rename_i hnone
        cases hstep
        refine ⟨put, q, ?_, ?_⟩
        · rw [List.append_nil, hnone]
          exact hinv'
        · intro _
          simp [ClusterState.work, ClusterState.queue, hfc, FcPhase.work]
      · rename_i hsome
        cases hstep
        refine ⟨put, q, hinv'.log_freed ?_, ?_⟩
        · have hok := hinv.fc
          simp only [ClusterState.FcOk, hfc] at hok
          simp only [Permitted, hfc] at hperm
          exact (hinv.inFlight_iff (hok.2 hsome)).mp (hperm hsome)
        · intro _
          simp [ClusterState.work, ClusterState.queue, hfc, FcPhase.work]
    | _ => simp [rtClusterCall, hfc] at hstep
  | alloc stacksPtr =>
    cases hfc : s.fc with
    | released r before =>
      simp only [rtClusterCall, hfc] at hstep
      simp only [Permitted, hfc] at hperm
      split at hstep
      · cases hstep
        refine ⟨put, q, ?_, ?_⟩
        · rw [List.append_nil]
          exact hinv.given hfc
        · intro _
          simp [ClusterState.work, ClusterState.queue, hfc, FcPhase.work]
      · rename_i hgiven
        rw [if_neg (hperm (not_not.mp hgiven))] at hstep
        cases hstep
        refine ⟨put, q, ?_, ?_⟩
        · rw [List.append_nil]
          exact hinv.alloc hfc
        · intro _
          simp [ClusterState.work, ClusterState.queue, hfc, FcPhase.work]
    | _ => simp [rtClusterCall, hfc] at hstep
  | fill blocking sched =>
    cases hfc : s.fc with
    | prepared r before stacksPtr =>
      simp only [rtClusterCall, hfc, Option.some.injEq, Prod.mk.injEq] at hstep
      obtain ⟨rfl, rfl⟩ := hstep
      have hinv' := hinv.fill hfc (r.toCall_ready (P := P) s.jobs stacksPtr blocking sched) rfl
      refine ⟨put, q, ?_, ?_⟩
      · rwa [List.append_nil]
      · intro _
        unfold ClusterState.work
        rw [hinv'.queue_eq, hinv.queue_eq, hfc]
        simp [FcPhase.work]
    | _ => simp [rtClusterCall, hfc] at hstep
  | publish =>
    cases hfc : s.fc with
    | filled before call =>
      simp only [rtClusterCall, hfc, Option.some.injEq, Prod.mk.injEq] at hstep
      obtain ⟨rfl, rfl⟩ := hstep
      have hinv' := hinv.publish hfc
      refine ⟨!put, q ++ [call], hinv', ?_⟩
      intro _
      unfold ClusterState.work
      rw [hinv'.queue_eq, hinv.queue_eq, hfc, List.length_append]
      simp only [FcPhase.work, List.length_singleton]
      omega
    | _ => simp [rtClusterCall, hfc] at hstep
  | master =>
    have hstep' : s.masterLoop = some (s', es) := by
      cases hfc : s.fc <;> simpa only [rtClusterCall, hfc] using hstep
    obtain ⟨q', hinv', hwork⟩ := hinv.masterLoop hstep'
    exact ⟨put, q', hinv', fun _ => hwork⟩
  | deliver =>
    cases hfc : s.fc with
    | idle =>
      simp only [rtClusterCall, hfc] at hstep
      split at hstep
      · cases hstep
      · rename_i hevent
        cases hstep
        refine ⟨put, q, ?_, ?_⟩
        · rw [List.append_nil, ← hfc]
          exact hinv.deliver hfc
        · intro _
          simp [ClusterState.work, ClusterState.queue, hfc, hevent]
    | _ => simp [rtClusterCall, hfc] at hstep

/-- Where no inner step is possible, nothing is in flight. -/
theorem rest (hinv : s.Inv h put q)
    (hrest : ∀ i : ClusterStep, i.Inner → rtClusterCall P s i = none) :
    finished h = Hero.Runtime.accepted h := by
  have hfc : s.fc = .idle := by
    cases hfc : s.fc with
    | idle => rfl
    | claimed r before =>
      have hnone := hrest .release trivial
      simp only [rtClusterCall, hfc] at hnone
      split at hnone <;> cases hnone
    | released r before =>
      have hnone := hrest (.alloc 1) trivial
      simp only [rtClusterCall, hfc] at hnone
      split at hnone
      · cases hnone
      · simp at hnone
    | prepared r before stacksPtr =>
      have hnone := hrest (.fill 0 0) trivial
      simp [rtClusterCall, hfc] at hnone
    | filled before call =>
      have hnone := hrest .publish trivial
      simp [rtClusterCall, hfc] at hnone
  have hevents : s.events = 0 := by
    have hnone := hrest .deliver trivial
    simpa [rtClusterCall, hfc] using hnone
  have hloop : s.masterLoop = none := by
    have hnone := hrest .master trivial
    simpa only [rtClusterCall, hfc] using hnone
  have hacc := hinv.accepted
  unfold ClusterState.masterLoop at hloop
  cases hm : s.master with
  | poll =>
    have hempty : ¬ (s.slots s.next).Ready := by
      simpa [hm, ClusterCall.Ready] using hloop
    rw [hm, hinv.holds.eq_nil hempty] at hacc
    simpa [MasterPhase.running] using hacc.symm
  | read nbPe => simp [hm] at hloop
  | clear call => simp [hm] at hloop
  | run call => simp [hm] at hloop
  | push event =>
    simp only [hm, hevents] at hloop
    split at hloop
    · cases hloop
    · simp at hloop

/-- Both sides come to rest when no call begins. -/
theorem inner_run {is : List ClusterStep} (hinv : s.Inv h put q) (hinner : ∀ i ∈ is, i.Inner)
    (hok : (rtClusterCall P).Along Permitted s is)
    (hrun : (rtClusterCall P).run s is = some (s', es)) :
    is.length + s'.work ≤ s.work ∧ ∃ put' q', s'.Inv (h ++ es) put' q' := by
  induction is generalizing s h es put q with
  | nil =>
    cases hrun
    refine ⟨by simp, put, q, ?_⟩
    rwa [List.append_nil]
  | cons i is ih =>
    obtain ⟨t, fs, gs, hstep, hrest, rfl⟩ := Machine.run_cons.mp hrun
    obtain ⟨put', q', hinv', hwork⟩ := hinv.step hok.1 hstep
    have hless := hwork (hinner i (by simp))
    obtain ⟨hlen, hend⟩ := ih hinv' (fun j hj => hinner j (by simp [hj])) (hok.2 t fs hstep) hrest
    rw [List.append_assoc] at hend
    refine ⟨?_, hend⟩
    rw [List.length_cons]
    omega

theorem executed (hinv : s.Inv h put q) : Executed P s h := by
  refine ⟨s.work, ?_⟩
  intro is s' es hinner hok hrun
  obtain ⟨hlen, put', q', hinv'⟩ := hinv.inner_run hinner hok hrun
  exact ⟨by omega, fun hrest => hinv'.rest hrest⟩

/-- A step that is not permitted breaks the order for good. -/
theorem permitted (hinv : s.Inv h put q) {rest : List ClusterEvent}
    (hstep : rtClusterCall P s i = some (s', es)) (horder : InOrder (h ++ es ++ rest)) :
    Permitted s i := by
  unfold Permitted
  split
  · rename_i r before hfc
    intro hsome
    have hok := hinv.fc
    simp only [ClusterState.FcOk, hfc] at hok
    simp only [rtClusterCall, hfc, if_neg hsome, Option.some.injEq, Prod.mk.injEq] at hstep
    obtain ⟨-, rfl⟩ := hstep
    refine (hinv.inFlight_iff (hok.2 hsome)).mpr ?_
    exact horder.freed h rest s.stacksJob s.callStacks s.callStacksSize (by simp)
  · rename_i stacksPtr r before hfc
    intro hnone hzero
    have hok := hinv.fc
    simp only [ClusterState.FcOk, hfc] at hok
    simp only [rtClusterCall, hfc, hnone, hzero, ne_eq, not_true_eq_false, if_false, if_true,
      Option.some.injEq, Prod.mk.injEq] at hstep
    obtain ⟨-, rfl⟩ := hstep
    have hsame := horder.failed before ⟨s.callHead, s.callStacks⟩ (by simp)
    have hhead := congrArg CallPosition.callHead hsame
    simp only [hok.1.position, hok.1.head] at hhead
    simp at hhead
  · trivial

end ClusterState.Inv

theorem along_of_inOrder {is : List ClusterStep} (hinv : s.Inv h put q)
    (hrun : (rtClusterCall P).run s is = some (s', es)) (horder : InOrder (h ++ es)) :
    (rtClusterCall P).Along Permitted s is := by
  induction is generalizing s h es put q with
  | nil => trivial
  | cons i is ih =>
    obtain ⟨t, fs, gs, hstep, hrest, rfl⟩ := Machine.run_cons.mp hrun
    rw [← List.append_assoc] at horder
    have hperm := hinv.permitted hstep horder
    refine ⟨hperm, ?_⟩
    intro t' fs' hstep'
    rw [hstep, Option.some.injEq, Prod.mk.injEq] at hstep'
    obtain ⟨rfl, rfl⟩ := hstep'
    obtain ⟨put', q', hinv', -⟩ := hinv.step hperm hstep
    exact ih hinv' hrest horder

end Invariant

/-- Eight cores with stacks of 1 KiB. -/
def ClusterConfig.eight : ClusterConfig := ⟨8, 1024, 1024, by decide⟩

/-- An asynchronous call on all cores with default stacks. -/
def ClusterRequest.default : ClusterRequest := ⟨0x1c008000, 0, 0, 0, 0, 0, 0x1c001000⟩

/-- Such a call, with stacks at `stacksPtr`. -/
def asyncCall (stacksPtr : Nat) : List ClusterStep :=
  [.request .default, .release, .alloc stacksPtr, .fill 0 0x1c000100, .publish]

end Hero.Runtime
