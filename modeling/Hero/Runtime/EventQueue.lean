import Hero.Framework.LinkedList
import Hero.Framework.Machine

/-!
# The event queue of a scheduler

Events are linked into the queue of the scheduler or into the list of free events, and any other event
is its user's.  Each function runs with interrupts disabled, and the scheduler enables them only while
a callback runs, so that the steps are whole functions and single iterations of `__rt_event_execute`.
-/

namespace Hero.Runtime

open Hero.LinkedList

/-- The fields of `rt_event_t` that the scheduler uses; addresses are numbers. -/
structure RtEvent where
  callback : Option Nat
  arg : Nat
  next : Option Nat
  thread : Option Nat
  pending : Bool

/-- A scheduler and the free events. -/
structure EventSched where
  events : Nat → RtEvent
  /-- `__rt_first_free` -/
  firstFree : Option Nat
  first : Option Nat
  last : Nat
  waiting : Option Nat

/-- What the rest of the system gets to see. -/
inductive SchedEvent where
  | execute (event : Nat) (callback : Option Nat) (arg : Nat)
  | wakeUp (thread : Nat)
  | got (event : Option Nat)
  deriving DecidableEq, Repr

namespace EventSched

variable (k : EventSched)

def next (e : Nat) : Option Nat := (k.events e).next

def set (e : Nat) (ev : RtEvent) : EventSched := { k with events := Function.update k.events e ev }

def setNext (e : Nat) (next : Option Nat) : EventSched := k.set e { k.events e with next := next }

/-- `__rt_event_release` -/
def rtEventRelease (e : Nat) : EventSched := { k.setNext e k.firstFree with firstFree := some e }

/-- One round of the loop of `rt_event_alloc`, with `__rt_event_init`. -/
def rtEventAlloc (e : Nat) : EventSched :=
  (k.set e { k.events e with thread := none, pending := false, callback := none }).rtEventRelease e

/-- `__rt_get_event` -/
def rtGetEvent (callback : Option Nat) (arg : Nat) : EventSched × Option Nat := match k.firstFree with
  | none => (k, none)
  | some e =>
    ({ k.set e { k.events e with callback := callback, arg := arg } with firstFree := k.next e }, some e)

/-- `__rt_event_set_pending` -/
def setPending (e : Nat) : EventSched := k.set e { k.events e with pending := true }

/-- `rt_event_get_blocking` -/
def rtEventGetBlocking : EventSched × Option Nat := match k.rtGetEvent none 0 with
  | (k, none) => (k, none)
  | (k, some e) => (k.setPending e, some e)

/-- `__rt_event_enqueue` and `__rt_enqueue_event_to_sched` -/
def rtEventEnqueue (e : Nat) : EventSched :=
  let k := k.setNext e none
  let k := match k.first with
    | none => { k with first := some e }
    | some _ => k.setNext k.last (some e)
  { k with last := e }

/-- `__rt_wakeup_thread` -/
def rtWakeupThread : EventSched × List SchedEvent := match k.waiting with
  | none => (k, [])
  | some thread => ({ k with waiting := none }, [.wakeUp thread])

/-- `__rt_push_event` -/
def rtPushEvent (e : Nat) : EventSched × List SchedEvent := (k.rtEventEnqueue e).rtWakeupThread

/-- `__rt_sched_event_cancel`, whose loop ends within `n` rounds -/
def rtSchedEventCancel (e n : Nat) : Option EventSched :=
  (search k.next (fun current => current = e) n none k.first).map fun
    | (_, none) => k
    | (some prev, some current) => k.setNext prev (k.next current)
    | (none, some current) => { k with first := k.next current }

/-- `__rt_event_unblock` -/
def rtEventUnblock (e : Nat) : EventSched × List SchedEvent :=
  (k.set e { k.events e with pending := false },
    match (k.events e).thread with
    | none => []
    | some thread => [.wakeUp thread])

/-- The loop of `__rt_event_execute` up to the callback, for the event in front. -/
def rtEventExecute : Option (EventSched × List SchedEvent) := match k.first with
  | none => none
  | some e =>
    let k := { k with first := k.next e }
    let callback := (k.events e).callback
    let arg := (k.events e).arg
    let k := if (k.events e).pending then k else k.rtEventRelease e
    let (k, woken) := k.rtEventUnblock e
    some (k, woken ++ [.execute e callback arg])

/-- The start of `__rt_event_execute` where a thread waits for events. -/
def waitFor (thread : Nat) : EventSched := match k.first with
  | none => { k with waiting := some thread }
  | some _ => k

/-- The thread that `__rt_wait_event` notes in an event. -/
def setThread (e thread : Nat) : EventSched := k.set e { k.events e with thread := some thread }

end EventSched

/-- Calls of the functions; the bound is that of the loop of a cancellation. -/
inductive SchedStep where
  | alloc (e : Nat)
  | get (callback : Option Nat) (arg : Nat)
  | getBlocking
  | release (e : Nat)
  | setPending (e : Nat)
  | setThread (e thread : Nat)
  | waitFor (thread : Nat)
  | enqueue (e : Nat)
  | push (e : Nat)
  | cancel (e n : Nat)
  | execute

/-- A scheduler, with the queue and the list of free events as they should be: `queue` are the events
pushed and neither cancelled nor executed since, in the order in which they were pushed. -/
structure SchedWorld where
  sched : EventSched
  queue : List Nat
  free : List Nat

/-- An event that the queue or the list of free events has is not its user's. -/
def SchedWorld.Owned (w : SchedWorld) (e : Nat) : Prop := e ∉ w.queue ∧ e ∉ w.free

instance decidableOwned (w : SchedWorld) (e : Nat) : Decidable (w.Owned e) :=
  inferInstanceAs (Decidable (_ ∧ _))

/-- What becomes of the free events when the event in front is executed. -/
def SchedWorld.recycled (w : SchedWorld) : List Nat := match w.queue with
  | [] => w.free
  | e :: _ => if (w.sched.events e).pending then w.free else e :: w.free

def schedMachine : Machine SchedWorld SchedStep SchedEvent
  | w, .alloc e => some (⟨w.sched.rtEventAlloc e, w.queue, e :: w.free⟩, [])
  | w, .get callback arg =>
    some (⟨(w.sched.rtGetEvent callback arg).1, w.queue, w.free.tail⟩,
      [.got (w.sched.rtGetEvent callback arg).2])
  | w, .getBlocking =>
    some (⟨w.sched.rtEventGetBlocking.1, w.queue, w.free.tail⟩, [.got w.sched.rtEventGetBlocking.2])
  | w, .release e => some (⟨w.sched.rtEventRelease e, w.queue, e :: w.free⟩, [])
  | w, .setPending e => some (⟨w.sched.setPending e, w.queue, w.free⟩, [])
  | w, .setThread e thread => some (⟨w.sched.setThread e thread, w.queue, w.free⟩, [])
  | w, .waitFor thread => some (⟨w.sched.waitFor thread, w.queue, w.free⟩, [])
  | w, .enqueue e => some (⟨w.sched.rtEventEnqueue e, w.queue ++ [e], w.free⟩, [])
  | w, .push e => some (⟨(w.sched.rtPushEvent e).1, w.queue ++ [e], w.free⟩, (w.sched.rtPushEvent e).2)
  | w, .cancel e n =>
    (w.sched.rtSchedEventCancel e n).map fun k => (⟨k, w.queue.erase e, w.free⟩, [])
  | w, .execute => w.sched.rtEventExecute.map fun r => (⟨r.1, w.queue.tail, w.recycled⟩, r.2)

/-- The lists of the scheduler are what they should be. -/
structure SchedWorld.Faithful (w : SchedWorld) : Prop where
  queued : Seg w.sched.next w.sched.first w.queue none
  freed : Seg w.sched.next w.sched.firstFree w.free none
  apart : w.queue.Disjoint w.free

/-- The event and what it is executed with. -/
def SchedEvent.executed : SchedEvent → Option (Nat × Option Nat × Nat)
  | .execute e callback arg => some (e, callback, arg)
  | _ => none

/-- The events to be executed by a step: the first one of the queue. -/
def SchedWorld.due (w : SchedWorld) : SchedStep → List (Nat × Option Nat × Nat)
  | .execute => (w.queue.take 1).map fun e => (e, (w.sched.events e).callback, (w.sched.events e).arg)
  | _ => []

/-- An execution has something to do while events are queued, a cancellation ends if it has a round for
each of them, and nothing else can fail. -/
def SchedWorld.Enabled (w : SchedWorld) : SchedStep → Prop
  | .execute => w.queue ≠ []
  | .cancel _ n => w.queue.length < n
  | _ => True

/-- The step executes what it has to, and leaves the lists as they should be. -/
def SchedWorld.Right (w : SchedWorld) (i : SchedStep) : Prop :=
  (w.Enabled i → ∃ w' es, schedMachine w i = some (w', es)) ∧
    ∀ w' es, schedMachine w i = some (w', es) → w'.Faithful ∧ es.filterMap SchedEvent.executed = w.due i

/-- The event that a push takes for the last one is the last one. -/
def SchedWorld.LastRight (w : SchedWorld) : Prop := ∀ e ∈ w.queue.getLast?, w.sched.last = e

/-- An event that is pushed or given back is its user's, and the events are pushed behind the last
one. -/
def SchedWorld.Fits (w : SchedWorld) : SchedStep → Prop
  | .alloc e => w.Owned e
  | .release e => w.Owned e
  | .enqueue e => w.Owned e ∧ w.LastRight
  | .push e => w.Owned e ∧ w.LastRight
  | _ => True

/-- The scheduler after `rt_event_sched_init`, without events. -/
def schedInit (events : Nat → RtEvent) (last : Nat) : SchedWorld :=
  ⟨⟨events, none, none, last, none⟩, [], []⟩

section

variable {w : SchedWorld} {k : EventSched} {e f : Nat}

namespace EventSched

theorem next_set (k : EventSched) (e : Nat) (ev : RtEvent) :
    (k.set e ev).next = Function.update k.next e ev.next := by
  funext f
  by_cases hf : f = e
  · subst hf
    simp [next, set]
  · simp [next, set, hf]

theorem next_setNext (k : EventSched) (e : Nat) (p : Option Nat) :
    (k.setNext e p).next = Function.update k.next e p := next_set k e _

theorem next_set_same (k : EventSched) (e : Nat) (ev : RtEvent) (h : ev.next = (k.events e).next) :
    (k.set e ev).next = k.next := by
  rw [next_set, h]
  exact Function.update_eq_self e k.next

@[simp] theorem first_set (k : EventSched) (e : Nat) (ev : RtEvent) : (k.set e ev).first = k.first := rfl

@[simp] theorem firstFree_set (k : EventSched) (e : Nat) (ev : RtEvent) :
    (k.set e ev).firstFree = k.firstFree := rfl

@[simp] theorem last_set (k : EventSched) (e : Nat) (ev : RtEvent) : (k.set e ev).last = k.last := rfl

/-- Threads that are woken up are no executions. -/
theorem rtEventUnblock_executed (k : EventSched) (e : Nat) :
    (k.rtEventUnblock e).2.filterMap SchedEvent.executed = [] := by
  simp only [rtEventUnblock]
  cases (k.events e).thread <;> rfl

theorem rtWakeupThread_executed (k : EventSched) :
    k.rtWakeupThread.2.filterMap SchedEvent.executed = [] := by
  simp only [rtWakeupThread]
  cases k.waiting <;> rfl

theorem next_rtWakeupThread (k : EventSched) : k.rtWakeupThread.1.next = k.next ∧
    k.rtWakeupThread.1.first = k.first ∧ k.rtWakeupThread.1.firstFree = k.firstFree := by
  simp only [rtWakeupThread]
  cases k.waiting <;> exact ⟨rfl, rfl, rfl⟩

theorem rtEventEnqueue_none (h : k.first = none) :
    k.rtEventEnqueue e = { k.setNext e none with first := some e, last := e } := by
  have hfirst : (k.setNext e none).first = none := h
  simp only [rtEventEnqueue, hfirst]

theorem rtEventEnqueue_some (h : k.first = some f) :
    k.rtEventEnqueue e = { (k.setNext e none).setNext k.last (some e) with last := e } := by
  have hfirst : (k.setNext e none).first = some f := h
  simp only [rtEventEnqueue, hfirst]
  rfl

@[simp] theorem next_setPending (k : EventSched) (e : Nat) : (k.setPending e).next = k.next :=
  k.next_set_same e _ rfl

@[simp] theorem next_setThread (k : EventSched) (e thread : Nat) : (k.setThread e thread).next = k.next :=
  k.next_set_same e _ rfl

@[simp] theorem next_waitFor (k : EventSched) (thread : Nat) : (k.waitFor thread).next = k.next := by
  simp only [waitFor]
  cases k.first <;> rfl

@[simp] theorem next_rtGetEvent (k : EventSched) (callback : Option Nat) (arg : Nat) :
    (k.rtGetEvent callback arg).1.next = k.next := by
  simp only [rtGetEvent]
  cases k.firstFree with
  | none => rfl
  | some e => exact k.next_set_same e _ rfl

@[simp] theorem next_rtEventGetBlocking (k : EventSched) : k.rtEventGetBlocking.1.next = k.next := by
  have hget := k.next_rtGetEvent none 0
  simp only [rtEventGetBlocking]
  cases hgot : k.rtGetEvent none 0 with
  | mk k' got =>
    rw [hgot] at hget
    cases got with
    | none => exact hget
    | some e => exact (k'.next_setPending e).trans hget

theorem next_rtEventRelease (k : EventSched) (e : Nat) :
    (k.rtEventRelease e).next = Function.update k.next e k.firstFree := k.next_setNext e _

theorem next_rtEventAlloc (k : EventSched) (e : Nat) :
    (k.rtEventAlloc e).next = Function.update k.next e k.firstFree := by
  rw [rtEventAlloc, next_rtEventRelease]
  have hcleared := k.next_set_same e
    { k.events e with thread := none, pending := false, callback := none } rfl
  exact congrArg (fun next => Function.update next e k.firstFree) hcleared

@[simp] theorem next_rtEventUnblock (k : EventSched) (e : Nat) : (k.rtEventUnblock e).1.next = k.next :=
  k.next_set_same e _ rfl

/-- An event that is queued changes its own link and that of the event taken for the last one. -/
theorem next_rtEventEnqueue_of_ne (hfe : f ≠ e) (hlast : k.first ≠ none → f ≠ k.last) :
    (k.rtEventEnqueue e).next f = k.next f := by
  cases hfirst : k.first with
  | none =>
    rw [rtEventEnqueue_none hfirst]
    change (k.setNext e none).next f = k.next f
    rw [next_setNext, Function.update_of_ne hfe]
  | some g =>
    rw [rtEventEnqueue_some hfirst]
    change ((k.setNext e none).setNext k.last (some e)).next f = k.next f
    rw [next_setNext, next_setNext, Function.update_of_ne (hlast (by simp [hfirst])),
      Function.update_of_ne hfe]

theorem next_rtPushEvent_of_ne (hfe : f ≠ e) (hlast : k.first ≠ none → f ≠ k.last) :
    (k.rtPushEvent e).1.next f = k.next f :=
  (congrFun (k.rtEventEnqueue e).next_rtWakeupThread.1 f).trans (next_rtEventEnqueue_of_ne hfe hlast)

/-- An event that was pushed is the last one, of a queue that is not empty. -/
theorem last_rtPushEvent (k : EventSched) (e : Nat) :
    (k.rtPushEvent e).1.last = e ∧ (k.rtPushEvent e).1.first ≠ none := by
  have hlast : (k.rtPushEvent e).1.last = (k.rtEventEnqueue e).last := by
    simp only [rtPushEvent, rtWakeupThread]
    split <;> rfl
  have hfirst : (k.rtPushEvent e).1.first = (k.rtEventEnqueue e).first :=
    (k.rtEventEnqueue e).next_rtWakeupThread.2.1
  rw [hlast, hfirst]
  refine ⟨rfl, ?_⟩
  cases hk : k.first with
  | none =>
    rw [rtEventEnqueue_none hk]
    simp
  | some g =>
    rw [rtEventEnqueue_some hk]
    simp [setNext, hk]

/-- An execution changes at most the link of the event in front. -/
theorem next_rtEventExecute_of_ne {k' : EventSched} {es : List SchedEvent} (hfirst : k.first = some e)
    (hk : k.rtEventExecute = some (k', es)) (hfe : f ≠ e) : k'.next f = k.next f := by
  simp only [rtEventExecute, hfirst, Option.some.injEq, Prod.mk.injEq] at hk
  rw [← hk.1, next_rtEventUnblock]
  by_cases hpending : (k.events e).pending = true
  · rw [if_pos hpending]
    rfl
  · rw [if_neg hpending, next_rtEventRelease, Function.update_of_ne hfe]
    rfl

end EventSched

namespace SchedWorld

/-- Changes to other fields of the events do not matter to the lists. -/
theorem Faithful.frame (h : w.Faithful) (hnext : k.next = w.sched.next) (hfirst : k.first = w.sched.first)
    (hfree : k.firstFree = w.sched.firstFree) : Faithful ⟨k, w.queue, w.free⟩ := by
  refine ⟨?_, ?_, h.apart⟩
  · rw [hnext, hfirst]
    exact h.queued
  · rw [hnext, hfree]
    exact h.freed

/-- Links of events of their users do not matter either. -/
theorem Faithful.congr (h : w.Faithful) (hnext : ∀ f, ¬ w.Owned f → k.next f = w.sched.next f)
    (hfirst : k.first = w.sched.first) (hfree : k.firstFree = w.sched.firstFree) :
    Faithful ⟨k, w.queue, w.free⟩ := by
  refine ⟨?_, ?_, h.apart⟩
  · rw [hfirst]
    exact h.queued.congr fun f hf => hnext f fun howned => howned.1 hf
  · rw [hfree]
    exact h.freed.congr fun f hf => hnext f fun howned => howned.2 hf

/-- An event of its user's goes to the front of the free ones. -/
theorem Faithful.release (h : w.Faithful) (he : w.Owned e) :
    Faithful ⟨w.sched.rtEventRelease e, w.queue, e :: w.free⟩ := by
  have hnext : (w.sched.rtEventRelease e).next =
      Function.update w.sched.next e w.sched.firstFree := EventSched.next_setNext _ _ _
  refine ⟨?_, ⟨rfl, ?_⟩, ?_⟩
  · rw [hnext]
    exact h.queued.update he.1 _
  · rw [hnext, Function.update_self]
    exact h.freed.update he.2 _
  · rw [List.disjoint_cons_right]
    exact ⟨he.1, h.apart⟩

/-- The first free event is handed out. -/
theorem Faithful.getEvent (h : w.Faithful) (callback : Option Nat) (arg : Nat) :
    Faithful ⟨(w.sched.rtGetEvent callback arg).1, w.queue, w.free.tail⟩ := by
  obtain ⟨sched, queue, free⟩ := w
  cases free with
  | nil =>
    have hfree : sched.firstFree = none := h.freed
    rw [EventSched.rtGetEvent, hfree]
    exact h
  | cons e free =>
    have hfree : sched.firstFree = some e := h.freed.1
    rw [EventSched.rtGetEvent, hfree]
    have hnext := sched.next_set_same e { sched.events e with callback := callback, arg := arg } rfl
    refine ⟨?_, ?_, (List.disjoint_cons_right.mp h.apart).2⟩
    · exact h.queued.congr fun f _ => congrFun hnext f
    · exact h.freed.2.congr fun f _ => congrFun hnext f

theorem Faithful.getBlocking (h : w.Faithful) :
    Faithful ⟨w.sched.rtEventGetBlocking.1, w.queue, w.free.tail⟩ := by
  have hget := h.getEvent none 0
  cases hgot : w.sched.rtGetEvent none 0 with
  | mk k got =>
    simp only [EventSched.rtEventGetBlocking, hgot] at hget ⊢
    cases got with
    | none => exact hget
    | some e => exact hget.frame (EventSched.next_set_same _ e _ rfl) rfl rfl

/-- An event of its user's goes behind the last one of the queue. -/
theorem Faithful.enqueue (h : w.Faithful) (he : w.Owned e) (hlast : w.LastRight) :
    Faithful ⟨w.sched.rtEventEnqueue e, w.queue ++ [e], w.free⟩ := by
  obtain ⟨sched, queue, free⟩ := w
  have hapart : (queue ++ [e]).Disjoint free :=
    List.disjoint_append_left.mpr ⟨h.apart, List.disjoint_left.mpr (by simpa using he.2)⟩
  obtain hnil | ⟨bs, b, hconcat⟩ := List.eq_nil_or_concat queue
  · subst hnil
    rw [EventSched.rtEventEnqueue_none h.queued]
    have hnext := sched.next_setNext e none
    refine ⟨⟨rfl, ?_⟩, ?_, hapart⟩
    · change (sched.setNext e none).next e = none
      rw [hnext, Function.update_self]
    · exact (h.freed.update he.2 none).congr fun f _ => congrFun hnext f
  · rw [List.concat_eq_append] at hconcat
    subst hconcat
    obtain rfl : sched.last = b := hlast b (by simp)
    have hfirst : sched.first = (bs.head?).or (some sched.last) := by
      rw [h.queued.head, List.head?_append]
      rfl
    obtain ⟨f, hf⟩ : ∃ f, (bs.head?).or (some sched.last) = some f := by
      cases bs <;> simp
    rw [hf] at hfirst
    rw [EventSched.rtEventEnqueue_some hfirst]
    have hnext : ((sched.setNext e none).setNext sched.last (some e)).next =
        Function.update (Function.update sched.next e none) sched.last (some e) := by
      rw [EventSched.next_setNext, EventSched.next_setNext]
    refine ⟨?_, ?_, hapart⟩
    · exact (h.queued.enqueue he.1).congr fun f _ => congrFun hnext f
    · have hlast : sched.last ∉ free := fun hmem => h.apart (by simp) hmem
      exact ((h.freed.update he.2 none).update hlast (some e)).congr fun f _ => congrFun hnext f

theorem Faithful.push (h : w.Faithful) (he : w.Owned e) (hlast : w.LastRight) :
    Faithful ⟨(w.sched.rtPushEvent e).1, w.queue ++ [e], w.free⟩ := by
  obtain ⟨hnext, hfirst, hfree⟩ := (w.sched.rtEventEnqueue e).next_rtWakeupThread
  exact (h.enqueue he hlast).frame hnext hfirst hfree

/-- A cancellation that ends takes the event out of the queue. -/
theorem Faithful.cancel (h : w.Faithful) (e : Nat) {n : Nat} (hn : w.queue.length < n) :
    ∃ k, w.sched.rtSchedEventCancel e n = some k ∧ Faithful ⟨k, w.queue.erase e, w.free⟩ := by
  obtain ⟨sched, queue, free⟩ := w
  by_cases he : e ∈ queue
  · obtain ⟨as, bs, hsplit⟩ := List.append_of_mem he
    subst hsplit
    have hqueued : Seg sched.next sched.first (as ++ e :: bs) none := h.queued
    have has := hqueued.not_mem_front
    have hpass : ∀ a ∈ as, decide (a = e) = false := by
      intro a ha
      exact decide_eq_false fun heq => has (heq ▸ ha)
    have hsearch := search_found hqueued hn hpass (decide_eq_true rfl) none
    have herase : (as ++ e :: bs).erase e = as ++ bs := by
      rw [List.erase_append_right _ has, List.erase_cons_head]
    have hapart : (as ++ bs).Disjoint free := by
      intro a ha
      apply h.apart
      rcases List.mem_append.mp ha with ha | ha
      · exact List.mem_append_left _ ha
      · exact List.mem_append_right as (List.mem_cons_of_mem e ha)
    obtain hnil | ⟨as', b, hconcat⟩ := List.eq_nil_or_concat as
    · subst hnil
      refine ⟨{ sched with first := sched.next e }, ?_, ?_⟩
      · simp [EventSched.rtSchedEventCancel, hsearch]
      · rw [herase]
        exact ⟨hqueued.2, h.freed, hapart⟩
    · rw [List.concat_eq_append] at hconcat
      subst hconcat
      refine ⟨sched.setNext b (sched.next e), ?_, ?_⟩
      · simp [EventSched.rtSchedEventCancel, hsearch]
      · have hnext := sched.next_setNext b (sched.next e)
        have hb : b ∉ free := fun hmem => h.apart (by simp) hmem
        rw [herase]
        refine ⟨?_, ?_, hapart⟩
        · exact hqueued.unlink.congr fun f _ => congrFun hnext f
        · exact (h.freed.update hb _).congr fun f _ => congrFun hnext f
  · have hpass : ∀ a ∈ queue, decide (a = e) = false := by
      intro a ha
      exact decide_eq_false fun heq => he (heq ▸ ha)
    have hsearch := search_missed h.queued hn hpass none
    refine ⟨sched, ?_, ?_⟩
    · simp [EventSched.rtSchedEventCancel, hsearch]
    · rw [List.erase_of_not_mem he]
      exact h

theorem Faithful.of_cancel (h : w.Faithful) {n : Nat} (hk : w.sched.rtSchedEventCancel e n = some k) :
    Faithful ⟨k, w.queue.erase e, w.free⟩ := by
  obtain ⟨k', hk', hnew⟩ := h.cancel e (n := n + w.queue.length + 1) (by omega)
  rw [EventSched.rtSchedEventCancel, Option.map_eq_some_iff] at hk
  obtain ⟨found, hfound, rfl⟩ := hk
  rw [EventSched.rtSchedEventCancel, search_mono hfound (by omega), Option.map_some] at hk'
  cases hk'
  exact hnew

/-- An execution takes the event in front, with its callback and argument, and recycles it unless
someone waits for it. -/
theorem Faithful.execute {queue : List Nat} (h : w.Faithful) (hqueue : w.queue = e :: queue) :
    ∃ k woken, w.sched.rtEventExecute =
        some (k, woken ++ [.execute e (w.sched.events e).callback (w.sched.events e).arg]) ∧
      woken.filterMap SchedEvent.executed = [] ∧ Faithful ⟨k, queue, w.recycled⟩ := by
  obtain ⟨sched, queue', free⟩ := w
  subst hqueue
  have hfirst : sched.first = some e := h.queued.1
  have hrest : Faithful ⟨{ sched with first := sched.next e }, queue, free⟩ :=
    ⟨h.queued.2, h.freed, (List.disjoint_cons_left.mp h.apart).2⟩
  have howned : Owned ⟨{ sched with first := sched.next e }, queue, free⟩ e :=
    ⟨(List.nodup_cons.mp h.queued.nodup).1, (List.disjoint_cons_left.mp h.apart).1⟩
  by_cases hpending : (sched.events e).pending = true
  · refine ⟨({ sched with first := sched.next e }.rtEventUnblock e).1, _, ?_,
      EventSched.rtEventUnblock_executed { sched with first := sched.next e } e, ?_⟩
    · simp only [EventSched.rtEventExecute, hfirst, hpending, if_true]
    · simp only [recycled, hpending, if_true]
      exact hrest.frame (EventSched.next_set_same _ e _ rfl) rfl rfl
  · refine ⟨(({ sched with first := sched.next e }.rtEventRelease e).rtEventUnblock e).1, _, ?_,
      EventSched.rtEventUnblock_executed ({ sched with first := sched.next e }.rtEventRelease e) e, ?_⟩
    · simp only [EventSched.rtEventExecute, hfirst, hpending, Bool.false_eq_true, if_false]
    · simp only [recycled, hpending, Bool.false_eq_true, if_false]
      exact (hrest.release howned).frame (EventSched.next_set_same _ e _ rfl) rfl rfl

theorem right_of_eq {w' : SchedWorld} {i : SchedStep} {es : List SchedEvent}
    (hstep : schedMachine w i = some (w', es)) (hnew : w'.Faithful)
    (hes : es.filterMap SchedEvent.executed = w.due i) : w.Right i := by
  refine ⟨fun _ => ⟨w', es, hstep⟩, ?_⟩
  intro t fs heq
  cases hstep.symm.trans heq
  exact ⟨hnew, hes⟩

/-- An event in the queue or among the free ones is not given back. -/
theorem owned_of_release (hnew : Faithful ⟨k, w.queue, e :: w.free⟩) : w.Owned e :=
  ⟨(List.disjoint_cons_right.mp hnew.apart).1, (List.nodup_cons.mp hnew.freed.nodup).1⟩

/-- An event that is not put behind the last one is lost. -/
theorem fits_of_enqueue (h : w.Faithful)
    (hnew : Faithful ⟨w.sched.rtEventEnqueue e, w.queue ++ [e], w.free⟩) : w.Owned e ∧ w.LastRight := by
  obtain ⟨sched, queue, free⟩ := w
  have howned : Owned ⟨sched, queue, free⟩ e := by
    obtain ⟨-, -, hne⟩ := List.nodup_append.mp hnew.queued.nodup
    refine ⟨?_, hnew.apart List.mem_concat_self⟩
    intro he
    exact hne e he e (List.mem_singleton.mpr rfl) rfl
  refine ⟨howned, ?_⟩
  intro b hb
  obtain ⟨bs, hsplit⟩ := List.getLast?_eq_some_iff.mp hb
  change queue = bs ++ [b] at hsplit
  subst hsplit
  obtain ⟨f, hfirst⟩ : ∃ f, sched.first = some f := by
    rw [h.queued.head]
    cases bs <;> simp
  by_contra hlast
  have hlink : (sched.rtEventEnqueue e).next b = some e :=
    (seg_concat.mp (seg_concat.mp hnew.queued).1).2
  have hb' : b ≠ e := by
    intro heq
    rw [heq] at howned
    exact howned.1 List.mem_concat_self
  have hnone : (sched.rtEventEnqueue e).next b = sched.next b := by
    rw [EventSched.rtEventEnqueue_some hfirst]
    change ((sched.setNext e none).setNext sched.last (some e)).next b = sched.next b
    rw [EventSched.next_setNext, EventSched.next_setNext, Function.update_of_ne (Ne.symm hlast),
      Function.update_of_ne hb']
  rw [hnone, (seg_concat.mp h.queued).2] at hlink
  cases hlink

/-- A step that leaves the lists as they should be fits. -/
theorem fits_of_faithful {i : SchedStep} (h : w.Faithful)
    (hnew : ∀ w' es, schedMachine w i = some (w', es) → w'.Faithful) : w.Fits i := by
  cases i with
  | alloc e => exact owned_of_release (hnew _ _ rfl)
  | release e => exact owned_of_release (hnew _ _ rfl)
  | enqueue e => exact fits_of_enqueue h (hnew _ _ rfl)
  | push e =>
    obtain ⟨hnext, hfirst, hfree⟩ := (w.sched.rtEventEnqueue e).next_rtWakeupThread
    exact fits_of_enqueue h ((hnew _ _ rfl).frame hnext.symm hfirst.symm hfree.symm)
  | _ => trivial

/-- A step that fits does what it has to. -/
theorem Faithful.right {i : SchedStep} (h : w.Faithful) (hfits : w.Fits i) : w.Right i := by
  cases i with
  | alloc e =>
    have hcleared := h.frame (k := w.sched.set e
      { w.sched.events e with thread := none, pending := false, callback := none })
      (EventSched.next_set_same _ e _ rfl) rfl rfl
    exact right_of_eq rfl (hcleared.release hfits) rfl
  | get callback arg => exact right_of_eq rfl (h.getEvent callback arg) rfl
  | getBlocking => exact right_of_eq rfl h.getBlocking rfl
  | release e => exact right_of_eq rfl (h.release hfits) rfl
  | setPending e => exact right_of_eq rfl (h.frame (w.sched.next_setPending e) rfl rfl) rfl
  | setThread e thread => exact right_of_eq rfl (h.frame (w.sched.next_setThread e thread) rfl rfl) rfl
  | waitFor thread =>
    have hnew : Faithful ⟨w.sched.waitFor thread, w.queue, w.free⟩ := by
      rw [EventSched.waitFor]
      split
      · exact h.frame rfl rfl rfl
      · exact h
    exact right_of_eq rfl hnew rfl
  | enqueue e => exact right_of_eq rfl (h.enqueue hfits.1 hfits.2) rfl
  | push e => exact right_of_eq rfl (h.push hfits.1 hfits.2) (EventSched.rtWakeupThread_executed _)
  | cancel e n =>
    constructor
    · intro hn
      obtain ⟨k, hk, -⟩ := h.cancel e hn
      exact ⟨_, _, Option.map_eq_some_iff.mpr ⟨k, hk, rfl⟩⟩
    · intro w' es hstep
      obtain ⟨k, hk, heq⟩ := Option.map_eq_some_iff.mp hstep
      cases heq
      exact ⟨h.of_cancel hk, rfl⟩
  | execute =>
    cases hqueue : w.queue with
    | nil =>
      have hfirst : w.sched.first = none := by
        rw [h.queued.head, hqueue]
        rfl
      have hnone : schedMachine w .execute = none := by
        rw [schedMachine, EventSched.rtEventExecute, hfirst]
        rfl
      refine ⟨fun hne => absurd hqueue hne, ?_⟩
      intro w' es hstep
      cases hnone.symm.trans hstep
    | cons e queue =>
      obtain ⟨k, woken, hk, hwoken, hnew⟩ := h.execute hqueue
      have hstep : schedMachine w .execute = some (⟨k, queue, w.recycled⟩,
          woken ++ [.execute e (w.sched.events e).callback (w.sched.events e).arg]) := by
        rw [schedMachine, hk, hqueue]
        rfl
      apply right_of_eq hstep hnew
      rw [List.filterMap_append, hwoken, due, hqueue]
      rfl

/-- A step in a world whose lists are right does what it has to exactly if it fits. -/
theorem right_iff (h : w.Faithful) (i : SchedStep) : w.Right i ↔ w.Fits i := by
  constructor
  · intro hright
    exact fits_of_faithful h fun w' es hstep => (hright.2 w' es hstep).1
  · intro hfits
    exact h.right hfits

end SchedWorld

theorem queue_right_iff (events : Nat → RtEvent) (last : Nat) (is : List SchedStep) :
    Machine.Along schedMachine SchedWorld.Right (schedInit events last) is ↔
      Machine.Along schedMachine SchedWorld.Fits (schedInit events last) is := by
  have hinit : (schedInit events last).Faithful := ⟨rfl, rfl, List.disjoint_nil_left []⟩
  exact Machine.along_iff
    (fun w i w' es h hfits hstep => (((SchedWorld.right_iff h i).mpr hfits).2 w' es hstep).1)
    (fun w i h => SchedWorld.right_iff h i) hinit

/-- Events are allocated once, and given back or pushed while they are their user's. -/
def SchedWorld.Used (w : SchedWorld) : SchedStep → Prop
  | .alloc e => w.Owned e
  | .release e => w.Owned e
  | .enqueue e => w.Owned e
  | .push e => w.Owned e
  | _ => True

instance decidableUsed (w : SchedWorld) : ∀ i, Decidable (w.Used i)
  | .alloc e => decidableOwned w e
  | .release e => decidableOwned w e
  | .enqueue e => decidableOwned w e
  | .push e => decidableOwned w e
  | .get _ _ => isTrue trivial
  | .getBlocking => isTrue trivial
  | .setPending _ => isTrue trivial
  | .setThread _ _ => isTrue trivial
  | .waitFor _ => isTrue trivial
  | .cancel _ _ => isTrue trivial
  | .execute => isTrue trivial

private def threeEvents : List SchedStep :=
  [.alloc 0, .alloc 1, .alloc 2, .get (some 7) 0, .get (some 7) 1, .get (some 7) 2]

/-- Three events are taken; 2 and 1 are pushed, 1 is cancelled and 0 pushed, behind 1. -/
theorem pushed_behind_cancelled : ¬ ∀ (events : Nat → RtEvent) (last : Nat) (is : List SchedStep),
    Machine.Along schedMachine SchedWorld.Used (schedInit events last) is →
      Machine.Along schedMachine SchedWorld.Right (schedInit events last) is := by
  intro hall
  have hright := hall (fun _ => ⟨none, 0, none, none, false⟩) 0
    (threeEvents ++ [.push 2, .push 1, .cancel 1 3] ++ .push 0 :: []) (by decide)
  have hstep := hright.at (s := schedInit _ _) rfl
  have hnew := (hstep.2 _ _ rfl).1
  have hlink := hnew.queued.2.1
  revert hlink
  decide

/-- Only an event that stands alone is cancelled while it is the last one. -/
def SchedWorld.TailKept (w : SchedWorld) : SchedStep → Prop
  | .cancel e _ => w.queue.getLast? = some e → w.queue = [e]
  | _ => True

section

variable {w' : SchedWorld} {i : SchedStep} {es : List SchedEvent}

theorem last_step (hstep : schedMachine w i = some (w', es)) :
    w'.queue = w.queue ∧ w'.sched.last = w.sched.last ∨
      w'.queue.getLast? = some w'.sched.last ∨
      w'.queue = w.queue.tail ∧ w'.sched.last = w.sched.last ∨
      ∃ e n, i = .cancel e n ∧ w'.queue = w.queue.erase e ∧ w'.sched.last = w.sched.last := by
  cases i with
  | get callback arg =>
    cases hstep
    refine Or.inl ⟨rfl, ?_⟩
    simp only [EventSched.rtGetEvent]
    split <;> rfl
  | getBlocking =>
    cases hstep
    refine Or.inl ⟨rfl, ?_⟩
    simp only [EventSched.rtEventGetBlocking, EventSched.rtGetEvent]
    cases w.sched.firstFree <;> rfl
  | waitFor thread =>
    cases hstep
    refine Or.inl ⟨rfl, ?_⟩
    simp only [EventSched.waitFor]
    split <;> rfl
  | enqueue e =>
    cases hstep
    exact Or.inr (Or.inl List.getLast?_concat)
  | push e =>
    cases hstep
    refine Or.inr (Or.inl ?_)
    simp only [EventSched.rtPushEvent, EventSched.rtWakeupThread, List.getLast?_concat]
    split <;> rfl
  | cancel e n =>
    obtain ⟨k, hk, heq⟩ := Option.map_eq_some_iff.mp hstep
    cases heq
    obtain ⟨found, -, rfl⟩ := Option.map_eq_some_iff.mp hk
    refine Or.inr (Or.inr (Or.inr ⟨e, n, rfl, rfl, ?_⟩))
    split <;> rfl
  | execute =>
    obtain ⟨r, hr, heq⟩ := Option.map_eq_some_iff.mp hstep
    cases heq
    refine Or.inr (Or.inr (Or.inl ⟨rfl, ?_⟩))
    rw [EventSched.rtEventExecute] at hr
    split at hr
    · cases hr
    · cases hr
      simp only [EventSched.last_set]
      split <;> rfl
  | _ =>
    cases hstep
    exact Or.inl ⟨rfl, rfl⟩

/-- The last event stays the last one unless it is cancelled. -/
theorem lastRight_step (h : w.Faithful) (hlast : w.LastRight)
    (hkept : w.TailKept i) (hstep : schedMachine w i = some (w', es)) : w'.LastRight := by
  intro b hb
  obtain ⟨hqueue, hsame⟩ | hnew | ⟨hqueue, hsame⟩ | ⟨e, n, rfl, hqueue, hsame⟩ := last_step hstep
  · rw [hqueue] at hb
    rw [hsame]
    exact hlast b hb
  · rw [hnew] at hb
    exact Option.some.inj hb
  · rw [hqueue] at hb
    rw [hsame]
    apply hlast b
    rw [Option.mem_def] at hb ⊢
    cases hq : w.queue with
    | nil => simp [hq] at hb
    | cons a queue =>
      rw [hq, List.tail_cons] at hb
      rw [List.getLast?_cons, hb]
      rfl
  · rw [hqueue] at hb
    rw [hsame]
    by_cases he : e ∈ w.queue
    · obtain ⟨as, bs, hsplit⟩ := List.append_of_mem he
      have hqueued := h.queued
      rw [hsplit] at hqueued
      have has := hqueued.not_mem_front
      rw [hsplit, List.erase_append_right _ has, List.erase_cons_head] at hb
      obtain hnil | ⟨cs, c, hconcat⟩ := List.eq_nil_or_concat bs
      · subst hnil
        have hone : w.queue = [e] := hkept (by rw [hsplit, List.getLast?_concat])
        rw [hsplit, List.append_eq_singleton_iff] at hone
        have hnil : as = [] := by simpa using hone
        simp [hnil] at hb
      · rw [hconcat, List.concat_eq_append, ← List.append_assoc, List.getLast?_concat] at hb
        apply hlast b
        rw [hsplit, hconcat, List.concat_eq_append, ← List.cons_append, ← List.append_assoc,
          List.getLast?_concat]
        exact hb
    · rw [List.erase_of_not_mem he] at hb
      exact hlast b hb

end

/-- Where no event is cancelled while others are queued in front of it and none behind it, the
scheduler does what it has to. -/
theorem right_of_tailKept (events : Nat → RtEvent) (last : Nat) (is : List SchedStep)
    (hkept : Machine.Along schedMachine (fun w i => w.Used i ∧ w.TailKept i) (schedInit events last) is) :
    Machine.Along schedMachine SchedWorld.Right (schedInit events last) is := by
  have hinit : (schedInit events last).Faithful ∧ (schedInit events last).LastRight :=
    ⟨⟨rfl, rfl, List.disjoint_nil_left []⟩, by simp [SchedWorld.LastRight, schedInit]⟩
  have hstep : ∀ (w : SchedWorld) i, w.Faithful ∧ w.LastRight → w.Used i ∧ w.TailKept i →
      w.Right i ∧ ∀ w' es, schedMachine w i = some (w', es) → w'.Faithful ∧ w'.LastRight := by
    intro w i h hok
    have hfits : w.Fits i := by
      cases i with
      | enqueue e => exact ⟨hok.1, h.2⟩
      | push e => exact ⟨hok.1, h.2⟩
      | alloc e => exact hok.1
      | release e => exact hok.1
      | _ => trivial
    have hright := (SchedWorld.right_iff h.1 i).mpr hfits
    refine ⟨hright, ?_⟩
    intro w' es hnext
    exact ⟨(hright.2 w' es hnext).1, lastRight_step h.1 h.2 hok.2 hnext⟩
  exact Machine.along_of_inv hstep hinit hkept

end

end Hero.Runtime
