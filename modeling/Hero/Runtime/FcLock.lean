import Hero.Framework.LinkedList
import Hero.Framework.Machine

/-!
# The lock between the fabric controller and the clusters

A thread of the fabric controller tries to take the lock in a loop and executes events in between.  A
core of a cluster sends a request, whose event the fabric controller executes, and waits for the request
to be done.  The fabric controller changes the lock with interrupts disabled, so that the steps are the
rounds of the loop, the whole of the other functions and the executions of the requests.
-/

namespace Hero.Runtime

open Hero.LinkedList

/-- `rt_fc_lock_req_t`.  A core waits for its request, so that requests are named after cores. -/
structure FcLockReq where
  next : Option Nat
  done : Bool
  reqLock : Bool

/-- `rt_fc_lock_t`, with the requests. -/
structure FcLock where
  locked : Bool
  waiting : Option Nat
  lastWaiting : Nat
  fcWait : Option Nat
  reqs : Nat → FcLockReq

/-- A notification that the request of a core is done, or the wake-up of a thread. -/
inductive LockEvent where
  | granted (core : Nat)
  | released (core : Nat)
  | wakeUp (thread : Nat)
  deriving DecidableEq, Repr

namespace FcLock

variable (l : FcLock)

def next (c : Nat) : Option Nat := (l.reqs c).next

def set (c : Nat) (req : FcLockReq) : FcLock := { l with reqs := Function.update l.reqs c req }

/-- `req->done = 1` -/
def setDone (c : Nat) : FcLock := l.set c { l.reqs c with done := true }

def setNext (c : Nat) (next : Option Nat) : FcLock := l.set c { l.reqs c with next := next }

/-- The test of the loop of `__rt_fc_lock` and what follows it, up to the execution of events or to the
return; tells whether the lock was taken. -/
def fcLock (thread : Nat) : FcLock × Bool :=
  if l.locked then ({ l with fcWait := some thread }, false) else ({ l with locked := true }, true)

/-- `__rt_fc_unlock_to_cluster` -/
def fcUnlockToCluster : FcLock × Option Nat := match l.waiting with
  | none => (l, none)
  | some c => ({ l with waiting := l.next c }.setDone c, some c)

/-- The lock is given to a cluster if one waits for it. -/
def unlockOrPass : FcLock × List LockEvent := match l.fcUnlockToCluster with
  | (l, some c) => (l, [.granted c])
  | (l, none) => ({ l with locked := false }, [])

/-- `__rt_fc_unlock` -/
def fcUnlock : FcLock × List LockEvent := l.unlockOrPass

/-- The part of `__rt_fc_cluster_lock_req` for a lock request. -/
def clusterLockReq (c : Nat) : FcLock × List LockEvent :=
  if l.locked then
    let l := match l.waiting with
      | some _ => l.setNext l.lastWaiting (some c)
      | none => { l with waiting := some c }
    ({ l with lastWaiting := c }.setNext c none, [])
  else ({ l.setDone c with locked := true }, [.granted c])

/-- The choice of `__rt_fc_cluster_lock_req` for an unlock request: a thread comes first. -/
def unlockOrWake : FcLock × List LockEvent := match l.fcWait with
  | some thread => ({ l with locked := false, fcWait := none }, [.wakeUp thread])
  | none => l.unlockOrPass

/-- The part of `__rt_fc_cluster_lock_req` for an unlock request. -/
def clusterUnlockReq (c : Nat) : FcLock × List LockEvent :=
  (l.unlockOrWake.1.setDone c, l.unlockOrWake.2 ++ [.released c])

/-- `__rt_fc_cluster_lock_req` -/
def fcClusterLockReq (c : Nat) : FcLock × List LockEvent :=
  if (l.reqs c).reqLock then l.clusterLockReq c else l.clusterUnlockReq c

/-- `__rt_fc_cluster_lock` and `__rt_fc_cluster_unlock` up to the push of the event. -/
def send (c : Nat) (reqLock : Bool) : FcLock :=
  l.set c { l.reqs c with done := false, reqLock := reqLock }

end FcLock

/-- Where a thread is: outside, in the loop of `__rt_fc_lock` since it last noted itself in `fc_wait`,
there but woken up since, or between the two functions. -/
inductive ThreadPc where
  | out
  | waiting
  | woken
  | inside
  deriving DecidableEq, Repr

/-- Where a core is: outside, waiting for its lock request, between the two functions, or waiting for
its unlock request. -/
inductive CorePc where
  | out
  | locking
  | inside
  | unlocking
  deriving DecidableEq, Repr

/-- The lock and those who use it; the events of the requests in flight wait to be executed. -/
structure LockWorld where
  lock : FcLock
  thread : Nat → ThreadPc
  core : Nat → CorePc
  inFlight : Nat → Bool

/-- A thread that waits and is woken up. -/
def ThreadPc.wake (t : Nat) (es : List LockEvent) : ThreadPc → ThreadPc
  | .waiting => if .wakeUp t ∈ es then .woken else .waiting
  | pc => pc

inductive LockStep where
  | fcLock (t : Nat)
  | fcUnlock (t : Nat)
  | clusterLock (c : Nat)
  | clusterUnlock (c : Nat)
  /-- The fabric controller executes the event of a request. -/
  | serve (c : Nat)
  /-- `__rt_fc_cluster_lock_wait` ends. -/
  | waited (c : Nat)

/-- The event of a request is executed. -/
def LockWorld.served (w : LockWorld) (c : Nat) : LockWorld where
  lock := (w.lock.fcClusterLockReq c).1
  thread t := (w.thread t).wake t (w.lock.fcClusterLockReq c).2
  core := w.core
  inFlight := Function.update w.inFlight c false

/-- A core sends a request and starts to wait. -/
def LockWorld.sent (w : LockWorld) (c : Nat) (reqLock : Bool) (pc : CorePc) : LockWorld where
  lock := w.lock.send c reqLock
  thread := w.thread
  core := Function.update w.core c pc
  inFlight := Function.update w.inFlight c true

def lockMachine : Machine LockWorld LockStep LockEvent
  | w, .fcLock t =>
    if w.thread t = .inside then none
    else some ({ w with
      lock := (w.lock.fcLock t).1
      thread := Function.update w.thread t (if (w.lock.fcLock t).2 then .inside else .waiting) }, [])
  | w, .fcUnlock t =>
    if w.thread t = .inside then some ({ w with
      lock := w.lock.fcUnlock.1
      thread := Function.update w.thread t .out }, w.lock.fcUnlock.2)
    else none
  | w, .clusterLock c => if w.core c = .out then some (w.sent c true .locking, []) else none
  | w, .clusterUnlock c => if w.core c = .inside then some (w.sent c false .unlocking, []) else none
  | w, .serve c => if w.inFlight c then some (w.served c, (w.lock.fcClusterLockReq c).2) else none
  | w, .waited c =>
    if (w.lock.reqs c).done then match w.core c with
      | .locking => some ({ w with core := Function.update w.core c .inside }, [])
      | .unlocking => some ({ w with core := Function.update w.core c .out }, [])
      | _ => none
    else none

/-- Those who use the lock. -/
inductive LockParty where
  | thread (t : Nat)
  | core (c : Nat)
  deriving DecidableEq, Repr

namespace LockWorld

/-- A core has sent a lock request, which was not granted. -/
def Asking (w : LockWorld) (c : Nat) : Prop := w.core c = .locking ∧ (w.lock.reqs c).done = false

instance decidableAsking (w : LockWorld) (c : Nat) : Decidable (w.Asking c) :=
  inferInstanceAs (Decidable (_ ∧ _))

/-- A core holds the lock from the grant on until its unlock request is done. -/
def Holds (w : LockWorld) : LockParty → Prop
  | .thread t => w.thread t = .inside
  | .core c => w.core c = .inside ∨ w.core c = .locking ∧ (w.lock.reqs c).done = true ∨
      w.core c = .unlocking ∧ (w.lock.reqs c).done = false

/-- The request of the core is linked into the list of those that wait. -/
def Registered (w : LockWorld) (c : Nat) : Prop :=
  ∃ as, Seg w.lock.next w.lock.waiting as none ∧ c ∈ as

/-- At most one party holds the lock, no lock request is lost, and nobody waits for a lock that is
free. -/
structure Safe (w : LockWorld) : Prop where
  alone : ∀ p q, w.Holds p → w.Holds q → p = q
  held : ∀ p, w.Holds p → w.lock.locked = true
  kept : ∀ c, w.Asking c → w.inFlight c = true ∨ w.Registered c
  settled : w.lock.locked = false → (∀ c, ¬ w.Registered c) ∧ ∀ t, w.thread t ≠ .waiting

/-- The step leaves the lock safe, and grants once each lock request that it settles and no other. -/
def Right (w : LockWorld) (i : LockStep) : Prop :=
  ∀ w' es, lockMachine w i = some (w', es) →
    w'.Safe ∧ ∀ c, es.count (.granted c) = if w.Asking c ∧ ¬ w'.Asking c then 1 else 0

/-- A thread gives the lock back while a request is in the list or no thread is noted, and a core while
no thread is noted, or no request is in the list and no other thread waits. -/
def Fits (w : LockWorld) : LockStep → Prop
  | .fcUnlock t => w.thread t = .inside → w.lock.waiting ≠ none ∨ w.lock.fcWait = none
  | .serve c => w.inFlight c = true → (w.lock.reqs c).reqLock = false → w.lock.fcWait = none ∨
      w.lock.waiting = none ∧ ∀ t, w.thread t = .waiting → w.lock.fcWait = some t
  | _ => True

end LockWorld

/-- The states of a core, whether its request is in the list, and whether it holds the lock. -/
inductive CoreAt (listed holder : Prop) : CorePc → (done reqLock inFlight : Bool) → Prop where
  | out (done reqLock : Bool) : ¬ listed → ¬ holder → CoreAt listed holder .out done reqLock false
  | sent : ¬ listed → ¬ holder → CoreAt listed holder .locking false true true
  | queued (reqLock : Bool) : listed → ¬ holder → CoreAt listed holder .locking false reqLock false
  | granted (reqLock : Bool) : ¬ listed → holder → CoreAt listed holder .locking true reqLock false
  | inside (done reqLock : Bool) : ¬ listed → holder → CoreAt listed holder .inside done reqLock false
  | leaving : ¬ listed → holder → CoreAt listed holder .unlocking false false true
  | left (reqLock : Bool) : ¬ listed → ¬ holder → CoreAt listed holder .unlocking true reqLock false

/-- What the threads do while someone holds the lock: one that waits is noted, and the one that is noted
waits. -/
structure ThreadsOk (thread : Nat → ThreadPc) (fcWait : Option Nat) (holder : Option LockParty) : Prop where
  inside : ∀ t, thread t = .inside ↔ holder = some (.thread t)
  slot : ∀ t, fcWait = some t → thread t = .waiting
  noted : ∀ t, thread t = .waiting → fcWait ≠ none
  settled : holder = none → fcWait = none

/-- The list of the requests that wait. -/
structure LinksOk (l : FcLock) (as : List Nat) : Prop where
  listed : Seg l.next l.waiting as none
  last : ∀ c ∈ as.getLast?, l.lastWaiting = c

structure LockWorld.Inv (w : LockWorld) (holder : Option LockParty) (as : List Nat) : Prop where
  cores : ∀ c, CoreAt (c ∈ as) (holder = some (.core c)) (w.core c) (w.lock.reqs c).done
    (w.lock.reqs c).reqLock (w.inFlight c)
  threads : ThreadsOk w.thread w.lock.fcWait holder
  links : LinksOk w.lock as
  locked : w.lock.locked = holder.isSome
  settled : holder = none → as = []

section

variable {w w' : LockWorld} {holder holder' : Option LockParty} {as : List Nat} {l : FcLock}
  {c d t : Nat} {es : List LockEvent}

namespace FcLock

theorem unlockOrPass_none (h : l.waiting = none) :
    l.unlockOrPass = ({ l with locked := false }, []) := by
  simp only [unlockOrPass, fcUnlockToCluster, h]

theorem unlockOrPass_some (h : l.waiting = some c) :
    l.unlockOrPass = ({ l with waiting := l.next c }.setDone c, [.granted c]) := by
  simp only [unlockOrPass, fcUnlockToCluster, h]

theorem clusterLockReq_first (hlocked : l.locked = true) (h : l.waiting = none) :
    l.clusterLockReq c = ({ l with waiting := some c, lastWaiting := c }.setNext c none, []) := by
  simp only [clusterLockReq, hlocked, h, if_true]

theorem clusterLockReq_behind (hlocked : l.locked = true) (h : l.waiting = some d) :
    l.clusterLockReq c =
      ({ l.setNext l.lastWaiting (some c) with lastWaiting := c }.setNext c none, []) := by
  simp only [clusterLockReq, hlocked, h, if_true]

/-- Links do not matter to what else the requests say. -/
theorem reqs_setNext (l : FcLock) (c : Nat) (p : Option Nat) (d : Nat) :
    ((l.setNext c p).reqs d).done = (l.reqs d).done ∧
      ((l.setNext c p).reqs d).reqLock = (l.reqs d).reqLock := by
  by_cases hd : d = c
  · subst hd
    simp [setNext, set]
  · simp [setNext, set, hd]

theorem clusterLockReq_frame (hlocked : l.locked = true) (c : Nat) :
    (l.clusterLockReq c).2 = [] ∧ (l.clusterLockReq c).1.fcWait = l.fcWait ∧
      (l.clusterLockReq c).1.locked = l.locked ∧
      ∀ d, ((l.clusterLockReq c).1.reqs d).done = (l.reqs d).done ∧
        ((l.clusterLockReq c).1.reqs d).reqLock = (l.reqs d).reqLock := by
  cases hwaiting : l.waiting with
  | none =>
    rw [clusterLockReq_first hlocked hwaiting]
    exact ⟨rfl, rfl, rfl, fun d => reqs_setNext _ c none d⟩
  | some b =>
    rw [clusterLockReq_behind hlocked hwaiting]
    refine ⟨rfl, rfl, rfl, fun d => ?_⟩
    have hfirst := l.reqs_setNext l.lastWaiting (some c) d
    have hthen := reqs_setNext { l.setNext l.lastWaiting (some c) with lastWaiting := c } c none d
    exact ⟨hthen.1.trans hfirst.1, hthen.2.trans hfirst.2⟩

theorem next_set (l : FcLock) (c : Nat) (req : FcLockReq) :
    (l.set c req).next = Function.update l.next c req.next := by
  funext d
  by_cases hd : d = c
  · subst hd
    simp [next, set]
  · simp [next, set, hd]

theorem next_set_same (l : FcLock) (c : Nat) (req : FcLockReq) (h : req.next = (l.reqs c).next) :
    (l.set c req).next = l.next := by
  rw [next_set, h]
  exact Function.update_eq_self c l.next

end FcLock

section

variable {listed listed' holder holder' : Prop} {pc : CorePc} {done reqLock inFlight : Bool}

theorem CoreAt.congr (h : CoreAt listed holder pc done reqLock inFlight) (hlisted : listed ↔ listed')
    (hholder : holder ↔ holder') : CoreAt listed' holder' pc done reqLock inFlight := by
  rw [← propext hlisted, ← propext hholder]
  exact h

theorem CoreAt.holds_iff (h : CoreAt listed holder pc done reqLock inFlight) :
    (pc = .inside ∨ pc = .locking ∧ done = true ∨ pc = .unlocking ∧ done = false) ↔ holder := by
  cases h <;> simp [*]

theorem CoreAt.asking_iff (h : CoreAt listed holder pc done reqLock inFlight) :
    (pc = .locking ∧ done = false) ↔ listed ∨ pc = .locking ∧ inFlight = true := by
  cases h <;> simp [*]

end

namespace LockWorld

theorem Inv.holds_iff (h : w.Inv holder as) (p : LockParty) : w.Holds p ↔ holder = some p := by
  cases p with
  | thread t => exact h.threads.inside t
  | core c => exact (h.cores c).holds_iff

theorem Inv.asking_iff (h : w.Inv holder as) (c : Nat) :
    w.Asking c ↔ c ∈ as ∨ w.core c = .locking ∧ w.inFlight c = true := (h.cores c).asking_iff

theorem Inv.safe (h : w.Inv holder as) : w.Safe where
  alone p q hp hq := by
    have hp' := (h.holds_iff p).mp hp
    have hq' := (h.holds_iff q).mp hq
    exact Option.some.inj (hp'.symm.trans hq')
  held p hp := by
    rw [h.locked, (h.holds_iff p).mp hp]
    rfl
  kept c hc := by
    rcases (h.asking_iff c).mp hc with hlisted | hsent
    · exact Or.inr ⟨as, h.links.listed, hlisted⟩
    · exact Or.inl hsent.2
  settled hfree := by
    rw [h.locked, Option.isSome_eq_false_iff, Option.isNone_iff_eq_none] at hfree
    constructor
    · intro c hc
      obtain ⟨bs, hbs, hmem⟩ := hc
      rw [← h.links.listed.unique hbs, h.settled hfree] at hmem
      cases hmem
    · intro t ht
      exact h.threads.noted t ht (h.threads.settled hfree)

end LockWorld

namespace ThreadsOk

variable {thread : Nat → ThreadPc} {fcWait : Option Nat} {o : Option Nat}

/-- A thread takes a free lock. -/
theorem take (h : ThreadsOk thread fcWait none) (t : Nat) :
    ThreadsOk (Function.update thread t .inside) fcWait (some (.thread t)) := by
  have hnone := h.settled rfl
  have hidle : ∀ u, thread u ≠ .waiting := fun u hu => h.noted u hu hnone
  refine ⟨?_, ?_, ?_, nofun⟩
  · intro u
    by_cases hu : u = t
    · subst hu
      simp
    · have hout := h.inside u
      rw [Function.update_of_ne hu]
      simpa [Ne.symm hu] using hout
  · intro u hu
    cases hnone.symm.trans hu
  · intro u hu
    by_cases hut : u = t
    · subst hut
      simp at hu
    · rw [Function.update_of_ne hut] at hu
      exact absurd hu (hidle u)

/-- A thread notes itself while someone else holds the lock. -/
theorem note {p : LockParty} (h : ThreadsOk thread fcWait (some p)) (ht : thread t ≠ .inside) :
    ThreadsOk (Function.update thread t .waiting) (some t) (some p) := by
  refine ⟨?_, ?_, ?_, nofun⟩
  · intro u
    by_cases hu : u = t
    · subst hu
      rw [Function.update_self, ← h.inside u]
      simp [ht]
    · rw [Function.update_of_ne hu]
      exact h.inside u
  · intro u hu
    cases hu
    exact Function.update_self t .waiting thread
  · intro u _ hnone
    cases hnone

/-- A thread gives the lock back to nobody or to a core. -/
theorem leave (h : ThreadsOk thread fcWait (some (.thread t))) (hsettled : o = none → fcWait = none) :
    ThreadsOk (Function.update thread t .out) fcWait (o.map .core) := by
  have hinside : thread t = .inside := (h.inside t).mpr rfl
  refine ⟨?_, ?_, ?_, fun hholder => hsettled (Option.map_eq_none_iff.mp hholder)⟩
  · intro u
    by_cases hu : u = t
    · subst hu
      simp
    · rw [Function.update_of_ne hu, h.inside u]
      simp [Ne.symm hu]
  · intro u hu
    have hwaiting := h.slot u hu
    have hne : u ≠ t := by
      intro heq
      rw [heq, hinside] at hwaiting
      cases hwaiting
    rw [Function.update_of_ne hne]
    exact hwaiting
  · intro u hu
    by_cases hut : u = t
    · subst hut
      simp at hu
    · rw [Function.update_of_ne hut] at hu
      exact h.noted u hu

/-- The lock goes from nobody or a core to nobody or a core. -/
theorem hand (h : ThreadsOk thread fcWait (o.map .core)) (o' : Option Nat)
    (hsettled : o' = none → fcWait = none) : ThreadsOk thread fcWait (o'.map .core) := by
  refine ⟨?_, h.slot, h.noted, fun hholder => hsettled (Option.map_eq_none_iff.mp hholder)⟩
  intro t
  rw [h.inside t]
  simp

/-- A core gives the lock back and the only thread that waits is woken up. -/
theorem wake (h : ThreadsOk thread (some t) (o.map .core)) (honly : ∀ u, thread u = .waiting → u = t)
    (hes : .wakeUp t ∈ es) : ThreadsOk (fun u => (thread u).wake u es) none none := by
  have hout : ∀ u, thread u ≠ .inside := by
    intro u hu
    have hholder := (h.inside u).mp hu
    simp at hholder
  have hnot : ∀ u, (thread u).wake u es ≠ .inside ∧ (thread u).wake u es ≠ .waiting := by
    intro u
    have hu := hout u
    cases hpc : thread u with
    | waiting =>
      cases honly u hpc
      simp [ThreadPc.wake, hes]
    | inside => exact absurd hpc hu
    | out => simp [ThreadPc.wake]
    | woken => simp [ThreadPc.wake]
  refine ⟨?_, ?_, ?_, fun _ => rfl⟩
  · intro u
    simp [(hnot u).1]
  · intro u hu
    cases hu
  · intro u hu
    exact absurd hu (hnot u).2

end ThreadsOk

/-- Threads that are not woken up stay where they are. -/
theorem wake_eq_self (thread : Nat → ThreadPc) (es : List LockEvent) (hes : ∀ t, .wakeUp t ∉ es) :
    (fun t => (thread t).wake t es) = thread := by
  funext t
  cases hpc : thread t with
  | waiting => simp [ThreadPc.wake, hes t]
  | _ => rfl

namespace LinksOk

theorem frame {k : FcLock} (h : LinksOk l as) (hnext : k.next = l.next) (hwaiting : k.waiting = l.waiting)
    (hlast : k.lastWaiting = l.lastWaiting) : LinksOk k as := by
  refine ⟨?_, ?_⟩
  · rw [hnext, hwaiting]
    exact h.listed
  · rw [hlast]
    exact h.last

/-- The first request is taken out. -/
theorem pop (h : LinksOk l (c :: as)) : LinksOk ({ l with waiting := l.next c }.setDone c) as := by
  have hnext : ({ l with waiting := l.next c }.setDone c).next = l.next := FcLock.next_set_same _ c _ rfl
  refine ⟨?_, ?_⟩
  · rw [hnext]
    exact h.listed.2
  · intro d hd
    apply h.last d
    rw [Option.mem_def] at hd ⊢
    rw [List.getLast?_cons, hd]
    rfl

/-- A request goes behind the last one. -/
theorem append (h : LinksOk l as) (hc : c ∉ as) (hlocked : l.locked = true) :
    LinksOk (l.clusterLockReq c).1 (as ++ [c]) := by
  obtain hnil | ⟨bs, b, hconcat⟩ := List.eq_nil_or_concat as
  · subst hnil
    rw [FcLock.clusterLockReq_first hlocked h.listed]
    refine ⟨⟨rfl, ?_⟩, by simp [FcLock.setNext, FcLock.set]⟩
    change FcLock.next (FcLock.setNext _ c none) c = none
    rw [FcLock.setNext, FcLock.next_set, Function.update_self]
  · rw [List.concat_eq_append] at hconcat
    subst hconcat
    obtain rfl : l.lastWaiting = b := h.last b (by simp)
    have hfirst : l.waiting = (bs ++ [l.lastWaiting]).head? := h.listed.head
    obtain ⟨d, hd⟩ : ∃ d, (bs ++ [l.lastWaiting]).head? = some d := by
      cases bs <;> simp
    rw [FcLock.clusterLockReq_behind hlocked (hfirst.trans hd)]
    have hne : c ≠ l.lastWaiting := by
      intro heq
      rw [heq] at hc
      exact hc List.mem_concat_self
    have hnext : FcLock.next (FcLock.setNext
        { l.setNext l.lastWaiting (some c) with lastWaiting := c } c none) =
        Function.update (Function.update l.next c none) l.lastWaiting (some c) := by
      rw [Function.update_comm hne, FcLock.setNext, FcLock.next_set]
      exact congrArg (fun next => Function.update next c none) (FcLock.next_set l _ _)
    refine ⟨?_, by simp [FcLock.setNext, FcLock.set]⟩
    rw [hnext]
    exact h.listed.enqueue hc

end LinksOk

namespace CoreAt

variable {listed listed' holder holder' : Prop} {pc : CorePc} {done reqLock inFlight : Bool}

/-- A request of the list is granted. -/
theorem pass (h : CoreAt listed holder pc done reqLock inFlight) (hin : listed) (hlisted : ¬ listed')
    (hholder : holder') : CoreAt listed' holder' pc true reqLock inFlight := by
  cases h with
  | queued => exact granted reqLock hlisted hholder
  | _ => contradiction

/-- A request just sent is not in the list and not granted. -/
theorem asked (h : CoreAt listed holder pc done true true) :
    ¬ listed ∧ ¬ holder ∧ pc = .locking ∧ done = false := by
  cases h with
  | sent hlisted hholder => exact ⟨hlisted, hholder, rfl, rfl⟩

theorem grant (h : CoreAt listed holder pc done true true) (hlisted : ¬ listed') (hholder : holder') :
    CoreAt listed' holder' pc true true false := by
  cases h with
  | sent => exact granted true hlisted hholder

theorem register (h : CoreAt listed holder pc done true true) (hlisted : listed') (hholder : ¬ holder') :
    CoreAt listed' holder' pc done true false := by
  cases h with
  | sent => exact queued true hlisted hholder

/-- A core that gives the lock back has it. -/
theorem gives (h : CoreAt listed holder pc done false true) : ¬ listed ∧ holder := by
  cases h with
  | leaving hlisted hholder => exact ⟨hlisted, hholder⟩

theorem release (h : CoreAt listed holder pc done false true) (hlisted : ¬ listed')
    (hholder : ¬ holder') : CoreAt listed' holder' pc true false false := by
  cases h with
  | leaving => exact left false hlisted hholder

theorem lock (h : CoreAt listed holder .out done reqLock inFlight) :
    CoreAt listed holder .locking false true true := by
  cases h with
  | out _ _ hlisted hholder => exact sent hlisted hholder

theorem unlock (h : CoreAt listed holder .inside done reqLock inFlight) :
    CoreAt listed holder .unlocking false false true := by
  cases h with
  | inside _ _ hlisted hholder => exact leaving hlisted hholder

theorem locked (h : CoreAt listed holder .locking true reqLock inFlight) :
    CoreAt listed holder .inside true reqLock inFlight := by
  cases h with
  | granted _ hlisted hholder => exact inside true reqLock hlisted hholder

theorem unlocked (h : CoreAt listed holder .unlocking true reqLock inFlight) :
    CoreAt listed holder .out true reqLock inFlight := by
  cases h with
  | left _ hlisted hholder => exact out true reqLock hlisted hholder

theorem not_asking (h : CoreAt listed holder pc done reqLock inFlight) (hholder : holder) :
    ¬ (pc = .locking ∧ done = false) := by
  cases h <;> simp_all

end CoreAt

namespace LockWorld

/-- Steps that grant nothing. -/
theorem count_granted_nil (hes : ∀ c, .granted c ∉ es) (hasking : ∀ c, w.Asking c → w'.Asking c) (c : Nat) :
    es.count (.granted c) = if w.Asking c ∧ ¬ w'.Asking c then 1 else 0 := by
  rw [List.count_eq_zero.mpr (hes c), if_neg]
  intro h
  exact h.2 (hasking c h.1)

/-- A step that grants one request. -/
theorem count_granted_cons (hes : ∀ c, .granted c ∉ es) (hc : w.Asking c)
    (hnew : w'.Inv (some (.core c)) as)
    (hasking : ∀ d, d ≠ c → w.Asking d → w'.Asking d) (d : Nat) :
    (LockEvent.granted c :: es).count (.granted d) = if w.Asking d ∧ ¬ w'.Asking d then 1 else 0 := by
  by_cases hd : d = c
  · subst hd
    rw [List.count_cons_self, List.count_eq_zero.mpr (hes d), if_pos ⟨hc, (hnew.cores d).not_asking rfl⟩]
  · rw [List.count_cons_of_ne (by simp [Ne.symm hd]), List.count_eq_zero.mpr (hes d), if_neg]
    intro h
    exact h.2 (hasking d hd h.1)

/-- A round of the loop of a thread. -/
theorem Inv.fcLock (h : w.Inv holder as) (ht : w.thread t ≠ .inside) : ∃ holder',
    Inv ⟨(w.lock.fcLock t).1,
      Function.update w.thread t (if (w.lock.fcLock t).2 then .inside else .waiting), w.core, w.inFlight⟩
      holder' as := by
  cases holder with
  | none =>
    have hfree : ¬ w.lock.locked = true := by simp [h.locked]
    have hlocked : w.lock.fcLock t = ({ w.lock with locked := true }, true) := if_neg hfree
    rw [hlocked]
    refine ⟨some (.thread t), ?_, h.threads.take t, h.links.frame rfl rfl rfl, rfl,
      nofun⟩
    intro c
    exact (h.cores c).congr Iff.rfl (by simp)
  | some p =>
    have hlocked : w.lock.fcLock t = ({ w.lock with fcWait := some t }, false) := if_pos h.locked
    rw [hlocked]
    exact ⟨some p, h.cores, h.threads.note ht, h.links.frame rfl rfl rfl, h.locked, h.settled⟩

/-- The lock goes to the core whose request is the first one in the list. -/
theorem cores_pass {p : LockParty} {l : FcLock} {core : Nat → CorePc} {inFlight : Nat → Bool}
    (hcores : ∀ d, CoreAt (d ∈ c :: as) (some p = some (.core d)) (core d) (l.reqs d).done
      (l.reqs d).reqLock (inFlight d)) (hc : c ∉ as) (hd : some p ≠ some (.core d)) :
    CoreAt (d ∈ as) (some (.core c) = some (LockParty.core d)) (core d)
      (({ l with waiting := l.next c }.setDone c).reqs d).done
      (({ l with waiting := l.next c }.setDone c).reqs d).reqLock (inFlight d) := by
  by_cases hdc : d = c
  · subst hdc
    have hreq : ({ l with waiting := l.next d }.setDone d).reqs d = { l.reqs d with done := true } :=
      Function.update_self d _ l.reqs
    rw [hreq]
    exact (hcores d).pass List.mem_cons_self hc rfl
  · have hreq : ({ l with waiting := l.next c }.setDone c).reqs d = l.reqs d :=
      Function.update_of_ne hdc _ l.reqs
    rw [hreq]
    apply (hcores d).congr
    · simp [hdc]
    · simp [hd, Ne.symm hdc]

/-- A thread gives the lock back. -/
theorem Inv.fcUnlock (h : w.Inv holder as) (ht : w.thread t = .inside)
    (hfits : w.lock.waiting ≠ none ∨ w.lock.fcWait = none) : ∃ holder' as',
    Inv ⟨w.lock.fcUnlock.1, Function.update w.thread t .out, w.core, w.inFlight⟩ holder' as' ∧
      ∀ c, w.lock.fcUnlock.2.count (.granted c) = if w.Asking c ∧ ¬ Asking
        ⟨w.lock.fcUnlock.1, Function.update w.thread t .out, w.core, w.inFlight⟩ c then 1 else 0 := by
  obtain rfl := (h.threads.inside t).mp ht
  rw [FcLock.fcUnlock]
  cases as with
  | nil =>
    have hwaiting : w.lock.waiting = none := h.links.listed
    have hslot := hfits.resolve_left (fun hne => hne hwaiting)
    rw [FcLock.unlockOrPass_none hwaiting]
    refine ⟨none, [], ⟨?_, ?_, ?_, rfl, fun _ => rfl⟩, ?_⟩
    · intro c
      exact (h.cores c).congr Iff.rfl (by simp)
    · have hleave := h.threads.leave (o := none) fun _ => hslot
      exact hleave
    · exact h.links.frame rfl rfl rfl
    · exact count_granted_nil (by simp) fun c hc => hc
  | cons c as =>
    have hwaiting : w.lock.waiting = some c := h.links.listed.1
    have hc : c ∉ as := (List.nodup_cons.mp h.links.listed.nodup).1
    rw [FcLock.unlockOrPass_some hwaiting]
    have hnew : Inv ⟨{ w.lock with waiting := w.lock.next c }.setDone c,
        Function.update w.thread t .out, w.core, w.inFlight⟩ (some (.core c)) as := by
      refine ⟨?_, ?_, h.links.pop, h.locked, nofun⟩
      · intro d
        exact cores_pass h.cores hc (by simp)
      · exact h.threads.leave (o := some c) nofun
    refine ⟨some (.core c), as, hnew, count_granted_cons (by simp) ?_ hnew ?_⟩
    · exact (h.asking_iff c).mpr (Or.inl List.mem_cons_self)
    · intro d hd hasking
      refine ⟨hasking.1, ?_⟩
      exact (congrArg FcLockReq.done (Function.update_of_ne hd _ w.lock.reqs)).trans hasking.2

/-- A core sends a lock request. -/
theorem Inv.clusterLock (h : w.Inv holder as) (hc : w.core c = .out) :
    (w.sent c true .locking).Inv holder as := by
  refine ⟨?_, h.threads, h.links.frame (FcLock.next_set_same _ c _ rfl) rfl rfl, h.locked, h.settled⟩
  intro d
  have hd := h.cores d
  by_cases hdc : d = c
  · subst hdc
    simp only [sent, FcLock.send, FcLock.set, Function.update_self]
    rw [hc] at hd
    exact hd.lock
  · simp only [sent, FcLock.send, FcLock.set, Function.update_of_ne hdc]
    exact hd

/-- A core sends an unlock request. -/
theorem Inv.clusterUnlock (h : w.Inv holder as) (hc : w.core c = .inside) :
    (w.sent c false .unlocking).Inv holder as := by
  refine ⟨?_, h.threads, h.links.frame (FcLock.next_set_same _ c _ rfl) rfl rfl, h.locked, h.settled⟩
  intro d
  have hd := h.cores d
  by_cases hdc : d = c
  · subst hdc
    simp only [sent, FcLock.send, FcLock.set, Function.update_self]
    rw [hc] at hd
    exact hd.unlock
  · simp only [sent, FcLock.send, FcLock.set, Function.update_of_ne hdc]
    exact hd

/-- The wait of a core ends. -/
theorem Inv.waited (h : w.Inv holder as) (pc : CorePc) (hpc : ∀ listed holder reqLock inFlight,
      CoreAt listed holder (w.core c) true reqLock inFlight →
        CoreAt listed holder pc true reqLock inFlight)
    (hdone : (w.lock.reqs c).done = true) :
    Inv ⟨w.lock, w.thread, Function.update w.core c pc, w.inFlight⟩ holder as := by
  refine ⟨?_, h.threads, h.links, h.locked, h.settled⟩
  intro d
  have hd := h.cores d
  by_cases hdc : d = c
  · subst hdc
    simp only [Function.update_self]
    rw [hdone] at hd ⊢
    exact hpc _ _ _ _ hd
  · simp only [Function.update_of_ne hdc]
    exact hd

/-- A lock request is put into the list, or granted if the lock is free. -/
theorem Inv.serveLock (h : w.Inv holder as) (hflight : w.inFlight c = true)
    (hreq : (w.lock.reqs c).reqLock = true) : ∃ holder' as', (w.served c).Inv holder' as' ∧
      ∀ d, (w.lock.fcClusterLockReq c).2.count (.granted d) =
        if w.Asking d ∧ ¬ (w.served c).Asking d then 1 else 0 := by
  have hserve : w.lock.fcClusterLockReq c = w.lock.clusterLockReq c := if_pos hreq
  have hc := h.cores c
  rw [hflight, hreq] at hc
  cases holder with
  | none =>
    have hfree : ¬ w.lock.locked = true := by simp [h.locked]
    have hgrant : w.lock.clusterLockReq c = ({ w.lock.setDone c with locked := true }, [.granted c]) :=
      if_neg hfree
    have hworld : w.served c = ⟨{ w.lock.setDone c with locked := true }, w.thread, w.core,
        Function.update w.inFlight c false⟩ := by
      rw [served, hserve, hgrant, wake_eq_self w.thread [.granted c] (by simp)]
    have hnew : (w.served c).Inv (some (.core c)) as := by
      rw [hworld]
      refine ⟨?_, h.threads.hand (o := none) (some c) nofun,
        h.links.frame (FcLock.next_set_same _ c _ rfl) rfl rfl, rfl, nofun⟩
      intro d
      by_cases hdc : d = c
      · subst hdc
        simp only [FcLock.setDone, FcLock.set, Function.update_self]
        rw [hreq]
        exact hc.grant hc.asked.1 trivial
      · simp only [FcLock.setDone, FcLock.set, Function.update_of_ne hdc]
        exact (h.cores d).congr Iff.rfl (by simp [Ne.symm hdc])
    rw [hserve, hgrant]
    refine ⟨some (.core c), as, hnew, count_granted_cons (by simp) hc.asked.2.2 hnew ?_⟩
    intro d hd hasking
    rw [hworld]
    refine ⟨hasking.1, ?_⟩
    exact (congrArg FcLockReq.done (Function.update_of_ne hd _ w.lock.reqs)).trans hasking.2
  | some p =>
    obtain ⟨hes, hslot, hlocked, hreqs⟩ := FcLock.clusterLockReq_frame h.locked c
    have hworld : w.served c = ⟨(w.lock.clusterLockReq c).1, w.thread, w.core,
        Function.update w.inFlight c false⟩ := by
      rw [served, hserve, hes, wake_eq_self w.thread [] (by simp)]
    have hnew : (w.served c).Inv (some p) (as ++ [c]) := by
      rw [hworld]
      refine ⟨?_, ?_, h.links.append hc.asked.1 h.locked, hlocked.trans h.locked,
        nofun⟩
      · intro d
        simp only [(hreqs d).1, (hreqs d).2]
        by_cases hdc : d = c
        · subst hdc
          rw [Function.update_self, hreq]
          exact hc.register List.mem_concat_self hc.asked.2.1
        · rw [Function.update_of_ne hdc]
          exact (h.cores d).congr (by simp [hdc]) Iff.rfl
      · rw [hslot]
        exact h.threads
    rw [hserve, hes]
    refine ⟨some p, as ++ [c], hnew, count_granted_nil (by simp) ?_⟩
    intro d hasking
    rw [hworld]
    exact ⟨hasking.1, (hreqs d).1.trans hasking.2⟩

/-- The core whose unlock request is done leaves, whatever became of the lock. -/
theorem cores_release {listed held : Prop} {done : Bool} {k : FcLock}
    (hc : CoreAt listed held (w.core c) done false true) (hreq : (k.reqs c).reqLock = false)
    (hlisted : c ∉ as) (hholder : holder ≠ some (.core c))
    (hrest : ∀ d, d ≠ c → CoreAt (d ∈ as) (holder = some (.core d)) (w.core d) (k.reqs d).done
      (k.reqs d).reqLock (w.inFlight d)) (d : Nat) :
    CoreAt (d ∈ as) (holder = some (.core d)) (w.core d) ((k.setDone c).reqs d).done
      ((k.setDone c).reqs d).reqLock (Function.update w.inFlight c false d) := by
  by_cases hdc : d = c
  · subst hdc
    simp only [FcLock.setDone, FcLock.set, Function.update_self]
    rw [hreq]
    exact hc.release hlisted hholder
  · simp only [FcLock.setDone, FcLock.set, Function.update_of_ne hdc]
    exact hrest d hdc

/-- A core's unlock request is done, and the lock goes to a thread, to a core or to nobody. -/
theorem Inv.serveUnlock (h : w.Inv holder as) (hflight : w.inFlight c = true)
    (hreq : (w.lock.reqs c).reqLock = false) (hfits : w.lock.fcWait = none ∨
      w.lock.waiting = none ∧ ∀ t, w.thread t = .waiting → w.lock.fcWait = some t) :
    ∃ holder' as', (w.served c).Inv holder' as' ∧
      ∀ d, (w.lock.fcClusterLockReq c).2.count (.granted d) =
        if w.Asking d ∧ ¬ (w.served c).Asking d then 1 else 0 := by
  have hserve : w.lock.fcClusterLockReq c = w.lock.clusterUnlockReq c := by
    rw [FcLock.fcClusterLockReq, hreq]
    rfl
  have hc := h.cores c
  rw [hflight, hreq] at hc
  obtain ⟨hlisted, hholder⟩ := hc.gives
  subst hholder
  have hstill : ∀ (k : FcLock) d, (d ≠ c → (k.reqs d).done = (w.lock.reqs d).done) → w.Asking d →
      w.core d = .locking ∧ ((k.setDone c).reqs d).done = false := by
    intro k d hk hasking
    have hdc : d ≠ c := by
      intro heq
      rw [heq] at hasking
      exact hc.not_asking rfl hasking
    refine ⟨hasking.1, ?_⟩
    have hreqs := congrArg FcLockReq.done
      (Function.update_of_ne hdc { k.reqs c with done := true } k.reqs)
    exact hreqs.trans ((hk hdc).trans hasking.2)
  cases hslot : w.lock.fcWait with
  | some t =>
    obtain ⟨hwaiting, honly⟩ := hfits.resolve_left (by simp [hslot])
    have hnil : as = [] := List.head?_eq_none_iff.mp (h.links.listed.head.symm.trans hwaiting)
    subst hnil
    have hwake : w.lock.clusterUnlockReq c = ({ w.lock with locked := false, fcWait := none }.setDone c,
        [.wakeUp t, .released c]) := by
      rw [FcLock.clusterUnlockReq, FcLock.unlockOrWake, hslot]
      rfl
    refine ⟨none, [], ?_, ?_⟩
    · rw [served, hserve, hwake]
      refine ⟨cores_release hc hreq hlisted nofun ?_, ?_,
        h.links.frame (FcLock.next_set_same _ c _ rfl) rfl rfl, rfl, fun _ => rfl⟩
      · intro d hd
        exact (h.cores d).congr Iff.rfl (by simp [Ne.symm hd])
      · have hthreads := h.threads
        rw [hslot] at hthreads
        refine hthreads.wake (o := some c) ?_ List.mem_cons_self
        intro u hu
        exact (Option.some.inj (hslot.symm.trans (honly u hu))).symm
    · rw [served, hserve, hwake]
      apply count_granted_nil (by simp)
      intro d hasking
      exact hstill _ d (fun _ => rfl) hasking
  | none =>
    cases as with
    | nil =>
      have hpass : w.lock.clusterUnlockReq c = ({ w.lock with locked := false }.setDone c,
          [.released c]) := by
        rw [FcLock.clusterUnlockReq, FcLock.unlockOrWake, hslot]
        simp only [FcLock.unlockOrPass_none h.links.listed]
        rfl
      refine ⟨none, [], ?_, ?_⟩
      · rw [served, hserve, hpass, wake_eq_self w.thread [.released c] (by simp)]
        refine ⟨cores_release hc hreq hlisted nofun ?_, ?_,
          h.links.frame (FcLock.next_set_same _ c _ rfl) rfl rfl, rfl, fun _ => rfl⟩
        · intro d hd
          exact (h.cores d).congr Iff.rfl (by simp [Ne.symm hd])
        · exact h.threads.hand (o := some c) none fun _ => hslot
      · rw [served, hserve, hpass]
        apply count_granted_nil (by simp)
        intro d hasking
        exact hstill _ d (fun _ => rfl) hasking
    | cons d as =>
      have hd : d ∉ as := (List.nodup_cons.mp h.links.listed.nodup).1
      have hdc : d ≠ c := by
        intro heq
        rw [heq] at hlisted
        exact hlisted List.mem_cons_self
      have hpass : w.lock.clusterUnlockReq c =
          (({ w.lock with waiting := w.lock.next d }.setDone d).setDone c, [.granted d, .released c]) := by
        rw [FcLock.clusterUnlockReq, FcLock.unlockOrWake, hslot]
        simp only [FcLock.unlockOrPass_some h.links.listed.1]
        rfl
      have hother : ∀ e, e ≠ d → ({ w.lock with waiting := w.lock.next d }.setDone d).reqs e =
          w.lock.reqs e := fun e he => Function.update_of_ne he _ w.lock.reqs
      have hnew : (w.served c).Inv (some (.core d)) as := by
        rw [served, hserve, hpass, wake_eq_self w.thread [.granted d, .released c] (by simp)]
        refine ⟨cores_release hc ?_ (fun hmem => hlisted (List.mem_cons_of_mem d hmem))
          (by simp [hdc]) ?_, ?_, ?_, h.locked, nofun⟩
        · rw [hother c (Ne.symm hdc)]
          exact hreq
        · intro e he
          exact cores_pass h.cores hd (by simp [Ne.symm he])
        · exact h.threads.hand (o := some c) (some d) nofun
        · exact h.links.pop.frame (FcLock.next_set_same _ c _ rfl) rfl rfl
      rw [hserve, hpass]
      refine ⟨some (.core d), as, hnew, count_granted_cons (by simp) ?_ hnew ?_⟩
      · exact (h.asking_iff d).mpr (Or.inl List.mem_cons_self)
      · intro e he hasking
        rw [served, hserve, hpass]
        exact hstill _ e (fun _ => congrArg FcLockReq.done (hother e he)) hasking

/-- The other cores' requests stay as they are when a core sends one. -/
theorem asking_sent {reqLock : Bool} {pc : CorePc} (hc : w.core c ≠ .locking) (hd : w.Asking d) :
    (w.sent c reqLock pc).Asking d := by
  have hdc : d ≠ c := by
    intro heq
    rw [heq] at hd
    exact hc hd.1
  simp only [Asking, sent, FcLock.send, FcLock.set, Function.update_of_ne hdc]
  exact hd

theorem asking_waited {pc : CorePc} (hdone : (w.lock.reqs c).done = true) (hd : w.Asking d) :
    Asking ⟨w.lock, w.thread, Function.update w.core c pc, w.inFlight⟩ d := by
  have hdc : d ≠ c := by
    intro heq
    rw [heq] at hd
    cases hdone.symm.trans hd.2
  simp only [Asking, Function.update_of_ne hdc]
  exact hd

/-- A step that fits does what it has to and keeps the invariant. -/
theorem Inv.step {i : LockStep} (h : w.Inv holder as) (hfits : w.Fits i)
    (hstep : lockMachine w i = some (w', es)) : (∃ holder' as', w'.Inv holder' as') ∧
      ∀ c, es.count (.granted c) = if w.Asking c ∧ ¬ w'.Asking c then 1 else 0 := by
  cases i with
  | fcLock t =>
    obtain ⟨ht, heq⟩ := Option.ite_none_left_eq_some.mp hstep
    cases heq
    obtain ⟨holder', hnew⟩ := h.fcLock ht
    refine ⟨⟨holder', as, hnew⟩, count_granted_nil (by simp) ?_⟩
    intro c hc
    refine ⟨hc.1, ?_⟩
    rw [← hc.2]
    simp only [FcLock.fcLock]
    split <;> rfl
  | fcUnlock t =>
    obtain ⟨ht, heq⟩ := Option.ite_none_right_eq_some.mp hstep
    cases heq
    obtain ⟨holder', as', hnew, hgrants⟩ := h.fcUnlock ht (hfits ht)
    exact ⟨⟨holder', as', hnew⟩, hgrants⟩
  | clusterLock c =>
    obtain ⟨hc, heq⟩ := Option.ite_none_right_eq_some.mp hstep
    cases heq
    refine ⟨⟨holder, as, h.clusterLock hc⟩, count_granted_nil (by simp) ?_⟩
    intro d hd
    exact asking_sent (by simp [hc]) hd
  | clusterUnlock c =>
    obtain ⟨hc, heq⟩ := Option.ite_none_right_eq_some.mp hstep
    cases heq
    refine ⟨⟨holder, as, h.clusterUnlock hc⟩, count_granted_nil (by simp) ?_⟩
    intro d hd
    exact asking_sent (by simp [hc]) hd
  | serve c =>
    obtain ⟨hc, heq⟩ := Option.ite_none_right_eq_some.mp hstep
    cases heq
    cases hreq : (w.lock.reqs c).reqLock with
    | true =>
      obtain ⟨holder', as', hnew, hgrants⟩ := h.serveLock hc hreq
      exact ⟨⟨holder', as', hnew⟩, hgrants⟩
    | false =>
      obtain ⟨holder', as', hnew, hgrants⟩ := h.serveUnlock hc hreq (hfits hc hreq)
      exact ⟨⟨holder', as', hnew⟩, hgrants⟩
  | waited c =>
    obtain ⟨hdone, heq⟩ := Option.ite_none_right_eq_some.mp hstep
    split at heq
    · rename_i hc
      cases heq
      have hnew := h.waited .inside (by
        intro listed holder reqLock inFlight hcore
        rw [hc] at hcore
        exact hcore.locked) hdone
      exact ⟨⟨holder, as, hnew⟩, count_granted_nil (by simp) fun d hd => asking_waited hdone hd⟩
    · rename_i hc
      cases heq
      have hnew := h.waited .out (by
        intro listed holder reqLock inFlight hcore
        rw [hc] at hcore
        exact hcore.unlocked) hdone
      exact ⟨⟨holder, as, hnew⟩, count_granted_nil (by simp) fun d hd => asking_waited hdone hd⟩
    · cases heq

/-- A thread that gives the lock back leaves another one waiting for a free lock. -/
theorem Inv.fcUnlock_bad (h : w.Inv holder as) (ht : w.thread t = .inside)
    (hwaiting : w.lock.waiting = none) (hslot : w.lock.fcWait ≠ none) : ¬ w.Right (.fcUnlock t) := by
  intro hright
  obtain ⟨u, hu⟩ := Option.ne_none_iff_exists'.mp hslot
  have hwait := h.threads.slot u hu
  have hne : u ≠ t := by
    intro heq
    rw [heq, ht] at hwait
    cases hwait
  obtain ⟨hsafe, -⟩ := hright _ _ (if_pos ht)
  refine (hsafe.settled ?_).2 u ?_
  · rw [FcLock.fcUnlock, FcLock.unlockOrPass_none hwaiting]
  · exact (Function.update_of_ne hne _ _).trans hwait

/-- A core that gives the lock back while a thread is noted wakes up only that one. -/
theorem Inv.serve_bad (h : w.Inv holder as) (hflight : w.inFlight c = true)
    (hreq : (w.lock.reqs c).reqLock = false) (hslot : w.lock.fcWait ≠ none)
    (hothers : ¬ (w.lock.waiting = none ∧ ∀ t, w.thread t = .waiting → w.lock.fcWait = some t)) :
    ¬ w.Right (.serve c) := by
  intro hright
  obtain ⟨u, hu⟩ := Option.ne_none_iff_exists'.mp hslot
  have hserve : w.lock.fcClusterLockReq c = ({ w.lock with locked := false, fcWait := none }.setDone c,
      [.wakeUp u, .released c]) := by
    rw [FcLock.fcClusterLockReq, hreq, FcLock.clusterUnlockReq, FcLock.unlockOrWake, hu]
    rfl
  obtain ⟨hsafe, -⟩ := hright _ _ (if_pos hflight)
  rw [served, hserve] at hsafe
  obtain ⟨hlist, hthreads⟩ := hsafe.settled rfl
  apply hothers
  constructor
  · by_contra hwaiting
    obtain ⟨d, hd⟩ := Option.ne_none_iff_exists'.mp hwaiting
    have has := h.links.listed.head
    rw [hd] at has
    have hmem : d ∈ as := List.mem_of_mem_head? has.symm
    have hlinks : LinksOk ({ w.lock with locked := false, fcWait := none }.setDone c) as :=
      h.links.frame (FcLock.next_set_same _ c _ rfl) rfl rfl
    exact hlist d ⟨as, hlinks.listed, hmem⟩
  · intro t ht
    have hnot := hthreads t
    by_contra hne
    apply hnot
    have hut : t ≠ u := by
      intro heq
      rw [heq] at hne
      exact hne hu
    simp [ThreadPc.wake, ht, hut]

/-- A step does what it has to exactly if it fits. -/
theorem Inv.right_iff (h : w.Inv holder as) (i : LockStep) : w.Right i ↔ w.Fits i := by
  constructor
  · intro hright
    cases i with
    | fcUnlock t =>
      intro ht
      by_contra hnot
      rw [not_or] at hnot
      exact h.fcUnlock_bad ht (not_not.mp hnot.1) hnot.2 hright
    | serve c =>
      intro hflight hreq
      by_contra hnot
      rw [not_or] at hnot
      exact h.serve_bad hflight hreq hnot.1 hnot.2 hright
    | _ => trivial
  · intro hfits w' es hstep
    obtain ⟨⟨holder', as', hnew⟩, hgrants⟩ := h.step hfits hstep
    exact ⟨hnew.safe, hgrants⟩

end LockWorld

/-- The lock after `__rt_fc_lock_init`, with nobody in its functions. -/
def fcLockInit (lastWaiting : Nat) (reqs : Nat → FcLockReq) : LockWorld where
  lock := ⟨false, none, lastWaiting, none, reqs⟩
  thread _ := .out
  core _ := .out
  inFlight _ := false

theorem fcLockInit_inv (lastWaiting : Nat) (reqs : Nat → FcLockReq) :
    (fcLockInit lastWaiting reqs).Inv none [] where
  cores c := .out _ _ (by simp) (by simp)
  threads := ⟨by simp [fcLockInit], nofun, nofun, fun _ => rfl⟩
  links := ⟨rfl, by simp⟩
  locked := rfl
  settled _ := rfl

theorem fc_lock_right_iff (lastWaiting : Nat) (reqs : Nat → FcLockReq) (is : List LockStep) :
    Machine.Along lockMachine LockWorld.Right (fcLockInit lastWaiting reqs) is ↔
      Machine.Along lockMachine LockWorld.Fits (fcLockInit lastWaiting reqs) is := by
  have hstep : ∀ w i w' es, (∃ holder as, LockWorld.Inv w holder as) → w.Fits i →
      lockMachine w i = some (w', es) → ∃ holder as, w'.Inv holder as := by
    intro w i w' es h hfits hnext
    obtain ⟨holder, as, hinv⟩ := h
    exact (hinv.step hfits hnext).1
  have hright : ∀ w i, (∃ holder as, LockWorld.Inv w holder as) → (w.Right i ↔ w.Fits i) := by
    intro w i h
    obtain ⟨holder, as, hinv⟩ := h
    exact hinv.right_iff i
  exact Machine.along_iff hstep hright ⟨none, [], fcLockInit_inv lastWaiting reqs⟩

/-- Thread 1 waits for the lock of thread 0, which gives it back to nobody. -/
theorem thread_not_woken : ¬ ∀ (lastWaiting : Nat) (reqs : Nat → FcLockReq) (is : List LockStep),
    Machine.Along lockMachine LockWorld.Right (fcLockInit lastWaiting reqs) is := by
  intro hall
  have hright := hall 0 (fun _ => ⟨none, false, false⟩) ([.fcLock 0, .fcLock 1] ++ .fcUnlock 0 :: [])
  have hstep := hright.at (s := fcLockInit _ _) rfl
  obtain ⟨hsafe, -⟩ := hstep _ _ rfl
  exact (hsafe.settled rfl).2 1 rfl

end

end Hero.Runtime
