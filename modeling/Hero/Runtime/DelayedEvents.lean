import Hero.Framework.WrappingClock
import Hero.Runtime.EventQueue

/-!
# Delayed events

Events that wait for a time are linked into a list that the interrupt handler of the timer takes them
from.  The timer counts ticks in 32 bits.  The functions run with interrupts disabled, but time goes on
between the two readings of the timer in one of them.
-/

namespace Hero.Runtime

open Hero.LinkedList

/-- `1000000 / ARCHI_REF_CLOCK` -/
def usPerTick : Nat := 1000000 / 2 ^ 15

/-- The ticks of a delay; a negative one counts as zero. -/
def delayTicks (us : BitVec 32) : Nat := us.toInt.toNat / usPerTick + 1

/-- `hal_timer_count_get` -/
def timerCount (now : Nat) : BitVec 32 := BitVec.ofNat 32 now

/-- The state of the scheduler, the times of the events, the list and the timer. -/
structure DelayState where
  sched : EventSched
  /-- The field `time` of the events. -/
  time : Nat → BitVec 32
  /-- `first_delayed` -/
  firstDelayed : Option Nat
  cmp : BitVec 32
  irqEnabled : Bool

/-- What the scheduler shows, and the pushes of the handler. -/
inductive DelayEvent where
  | pushed (event : Nat)
  | sched (event : SchedEvent)
  deriving DecidableEq, Repr

/-- The comparison of the insertion; the most significant bit is left out. -/
def seemsEarlier (time : Nat → BitVec 32) (bound : BitVec 32) (current : Nat) : Bool :=
  (time current &&& 0x7fffffff#32) < bound

namespace DelayState

variable (k : DelayState)

/-- `rt_event_push_delayed` at a time, with the second reading of the timer `late` ticks after the first;
its loop ends within `n` rounds. -/
def rtEventPushDelayed (e : Nat) (us : BitVec 32) (n now late : Nat) : Option DelayState :=
  let currentTime := timerCount now
  let ticks := BitVec.ofNat 32 (delayTicks us)
  let time := (currentTime &&& 0x7fffffff#32) + ticks
  let k := { k with time := Function.update k.time e (currentTime + ticks) }
  (search k.sched.next (fun current => !seemsEarlier k.time time current) n none k.firstDelayed).map fun
    | (some prev, current) => { k with sched := (k.sched.setNext prev (some e)).setNext e current }
    | (none, current) => { k with
        sched := k.sched.setNext e current
        firstDelayed := some e
        cmp := timerCount (now + late) + ticks
        irqEnabled := true }

/-- The loop of `__rt_timer_handler`, which ends within the given number of rounds; also what is left of
the list. -/
def dequeueExpired (time : Nat → BitVec 32) (currentTime : BitVec 32) :
    Nat → EventSched → Option Nat → Option (EventSched × List DelayEvent × Option Nat)
  | 0, _, _ => none
  | _ + 1, k, none => some (k, [], none)
  | n + 1, k, some e =>
    if currentTime - time e < 0x7fffffff#32 then
      (dequeueExpired time currentTime n (k.rtPushEvent e).1 (k.next e)).map fun r =>
        (r.1, .pushed e :: (k.rtPushEvent e).2.map .sched ++ r.2.1, r.2.2)
    else some (k, [], some e)

/-- `__rt_timer_handler` -/
def rtTimerHandler (n now late : Nat) : Option (DelayState × List DelayEvent) :=
  (dequeueExpired k.time (timerCount now) n k.sched k.firstDelayed).map fun
    | (sched, es, some f) =>
      -- the comparator is set from the time at which it is written
      ({ k with
        sched := sched
        firstDelayed := some f
        cmp := timerCount (now + late) + k.time f - timerCount now
        irqEnabled := true }, es)
    | (sched, es, none) => ({ k with sched := sched, firstDelayed := none, irqEnabled := false }, es)

/-- `rt_timer_stop` for the timer of an event -/
def rtTimerStop (e n : Nat) : Option DelayState :=
  (search k.sched.next (fun current => current = e) n none k.firstDelayed).bind fun
    | (_, none) => (k.sched.rtSchedEventCancel e n).map fun sched => { k with sched := sched }
    | (some prev, some current) => some { k with sched := k.sched.setNext prev (k.sched.next current) }
    | (none, some current) => some { k with firstDelayed := k.sched.next current }

end DelayState

inductive DelayStep where
  | sched (i : SchedStep)
  | pass (ticks : Nat)
  | pushDelayed (e : Nat) (us : BitVec 32) (late : Nat)
  | timerIrq (late : Nat)
  | timerStop (e : Nat)

/-- The system at a time, with the lists as they should be: `waiting` are the events pushed with a delay
that have neither expired nor been stopped since, and `due` tells when they expire, on a clock that does
not wrap. -/
structure DelayWorld where
  state : DelayState
  now : Nat
  queue : List Nat
  free : List Nat
  waiting : List Nat
  due : Nat → Nat

/-- The events that the handler pushed. -/
def pushedOf (es : List DelayEvent) : List Nat := es.filterMap fun
  | .pushed e => some e
  | .sched _ => none

namespace DelayWorld

variable (w : DelayWorld)

def schedWorld : SchedWorld := ⟨w.state.sched, w.queue, w.free⟩

/-- No loop over one of the lists takes more rounds. -/
def rounds : Nat := w.waiting.length + w.queue.length + 1

end DelayWorld

def delayMachine : Machine DelayWorld DelayStep DelayEvent
  | w, .sched i => (schedMachine w.schedWorld i).map fun r =>
    ({ w with
      state := { w.state with sched := r.1.sched }
      queue := r.1.queue
      free := r.1.free }, r.2.map .sched)
  | w, .pass ticks => some ({ w with now := w.now + ticks }, [])
  | w, .pushDelayed e us late => (w.state.rtEventPushDelayed e us w.rounds w.now late).map fun k =>
    ({ w with
      state := k
      now := w.now + late
      waiting := e :: w.waiting
      due := Function.update w.due e (w.now + delayTicks us) }, [])
  | w, .timerIrq late => (w.state.rtTimerHandler w.rounds w.now late).map fun r =>
    ({ w with
      state := r.1
      now := w.now + late
      queue := w.queue ++ pushedOf r.2
      waiting := w.waiting.filter fun e => w.now < w.due e }, r.2)
  | w, .timerStop e => (w.state.rtTimerStop e w.rounds).map fun k =>
    ({ w with
      state := k
      queue := if e ∈ w.waiting then w.queue else w.queue.erase e
      waiting := w.waiting.erase e }, [])

namespace DelayWorld

/-- The lists are what they should be, the one of the delayed events in the order in which they
expire, and no event is in two of them. -/
structure Faithful (w : DelayWorld) : Prop where
  sched : w.schedWorld.Faithful
  delayed : ∃ l, Seg w.state.sched.next w.state.firstDelayed l none ∧ l.Perm w.waiting ∧
    l.Pairwise fun e f => w.due e ≤ w.due f
  apart : ∀ e ∈ w.waiting, w.schedWorld.Owned e

/-- The events that a step has to push: an interrupt those that have expired. -/
def expired (w : DelayWorld) : DelayStep → List Nat
  | .timerIrq _ => w.waiting.filter fun e => w.due e ≤ w.now
  | _ => []

/-- Only the scheduler can refuse a step, an execution without an event or a loop without enough
rounds. -/
def Enabled (w : DelayWorld) : DelayStep → Prop
  | .sched i => w.schedWorld.Enabled i
  | _ => True

/-- The step ends, pushes the events that it has to in the order in which they expire, and leaves the
lists as they should be. -/
def Right (w : DelayWorld) (i : DelayStep) : Prop :=
  (w.Enabled i → ∃ w' es, delayMachine w i = some (w', es)) ∧
    ∀ w' es, delayMachine w i = some (w', es) → w'.Faithful ∧ (pushedOf es).Perm (w.expired i) ∧
      (pushedOf es).Pairwise fun e f => w.due e ≤ w.due f

/-- No event that has expired before the last change of the timer's bit 31 seems to expire after the
new one, and none that expires after the next change expires after the new one, unless one in between
does. -/
def InOrder (w : DelayWorld) (d : Nat) : Prop :=
  (∀ f ∈ w.waiting, w.due f / 2 ^ 31 < w.now / 2 ^ 31 → w.due f % 2 ^ 31 < w.now % 2 ^ 31 + d) ∧
    ((∃ f ∈ w.waiting, w.due f / 2 ^ 31 = w.now / 2 ^ 31 ∧ w.now + d ≤ w.due f) ∨
      ∀ f ∈ w.waiting, w.now / 2 ^ 31 < w.due f / 2 ^ 31 → w.due f ≤ w.now + d)

/-- The interrupt comes soon enough for the events that have expired. -/
def InTime (w : DelayWorld) : Prop :=
  ∀ f ∈ w.waiting, w.due f ≤ w.now → (w.now - w.due f) % 2 ^ 32 < 2 ^ 31 - 1

end DelayWorld

/-- The event that its user gives away. -/
def SchedStep.given : SchedStep → Option Nat
  | .alloc e => some e
  | .release e => some e
  | .enqueue e => some e
  | .push e => some e
  | _ => none

/-- The scheduler's steps fit and its users do not give it events that wait; an event pushed with a delay
is its user's and is put in order; interrupts come soon enough, and the scheduler's last event is known
where they push one. -/
def DelayWorld.Fits (w : DelayWorld) : DelayStep → Prop
  | .sched i => w.schedWorld.Fits i ∧ ∀ e ∈ i.given, e ∉ w.waiting
  | .pass _ => True
  | .pushDelayed e us _ => w.schedWorld.Owned e ∧ e ∉ w.waiting ∧ w.InOrder (delayTicks us)
  | .timerIrq _ => w.InTime ∧ ((∃ e ∈ w.waiting, w.due e ≤ w.now) → w.schedWorld.LastRight)
  | .timerStop _ => True

section

variable {w w' : DelayWorld} {k : EventSched} {v v' : SchedWorld} {e f : Nat} {l : List Nat}

theorem delayTicks_pos (us : BitVec 32) : 0 < delayTicks us := Nat.succ_pos _

theorem delayTicks_lt (us : BitVec 32) : delayTicks us < 2 ^ 31 := by
  have hlt := BitVec.toInt_lt (x := us)
  have hdiv : us.toInt.toNat / usPerTick ≤ 2 ^ 31 / usPerTick :=
    Nat.div_le_div_right (by omega)
  have hbound : 2 ^ 31 / usPerTick + 1 < 2 ^ 31 := by decide
  unfold delayTicks
  omega

/-- The ticks last at least as long as the delay: a second has 1000000 microseconds or `2 ^ 15` ticks. -/
theorem delay_le_ticks (us : BitVec 32) : us.toInt.toNat * 2 ^ 15 ≤ delayTicks us * 1000000 := by
  have htick : usPerTick = 30 := by decide
  rw [delayTicks, htick]
  omega

/-- The remainders that the insertion compares. -/
theorem masked_toNat (t : Nat) : (timerCount t &&& 0x7fffffff#32).toNat = t % 2 ^ 31 := by
  have hmask : (0x7fffffff#32).toNat = 2 ^ 31 - 1 := by decide
  rw [BitVec.toNat_and, hmask, Nat.and_two_pow_sub_one_eq_mod, timerCount, BitVec.toNat_ofNat]
  exact Nat.mod_mod_of_dvd t (by decide)

theorem seems_earlier_iff (t now : Nat) {d : Nat} (hd : d < 2 ^ 31) :
    (timerCount t &&& 0x7fffffff#32) < (timerCount now &&& 0x7fffffff#32) + BitVec.ofNat 32 d ↔
      t % 2 ^ 31 < now % 2 ^ 31 + d := by
  have hnow := Nat.mod_lt now (Nat.two_pow_pos 31)
  have hticks : d % 2 ^ 32 = d := Nat.mod_eq_of_lt (by omega)
  have hsum : (now % 2 ^ 31 + d) % 2 ^ 32 = now % 2 ^ 31 + d := Nat.mod_eq_of_lt (by omega)
  rw [BitVec.lt_def, BitVec.toNat_add, masked_toNat, masked_toNat, BitVec.toNat_ofNat, hticks, hsum]

theorem seems_expired_iff (t now : Nat) : timerCount now - timerCount t < 0x7fffffff#32 ↔
    (2 ^ 32 - t % 2 ^ 32 + now % 2 ^ 32) % 2 ^ 32 < 2 ^ 31 - 1 := by
  have hbound : (0x7fffffff#32).toNat = 2 ^ 31 - 1 := by decide
  rw [BitVec.lt_def, BitVec.toNat_sub, hbound, timerCount, timerCount, BitVec.toNat_ofNat,
    BitVec.toNat_ofNat]

/-- An event that seems to have expired has, and one that has seems to have if the interrupt comes soon
enough. -/
theorem expired_of_seems {t now : Nat} (hnear : t < now + 2 ^ 31)
    (h : timerCount now - timerCount t < 0x7fffffff#32) : t ≤ now := by
  rw [seems_expired_iff] at h
  by_contra hlt
  have hfar := WrappingClock.distance_of_lt (M := 2 ^ 32) (B := 2 ^ 31 - 1) (Nat.lt_of_not_le hlt)
    (by omega)
  omega

theorem seems_expired_of_le {t now : Nat} (h : t ≤ now) :
    timerCount now - timerCount t < 0x7fffffff#32 ↔ (now - t) % 2 ^ 32 < 2 ^ 31 - 1 := by
  rw [seems_expired_iff, WrappingClock.distance_of_le (Nat.two_pow_pos 32) h]

/-- The scheduler's steps do not touch the links of events that they do not have. -/
theorem sched_links {i : SchedStep} {es : List SchedEvent} (h : v.Faithful) (hfits : v.Fits i)
    (hstep : schedMachine v i = some (v', es)) (hf : v.Owned f) (hgiven : f ∉ i.given) :
    v'.sched.next f = v.sched.next f := by
  have hlast : v.LastRight → v.sched.first ≠ none → f ≠ v.sched.last := by
    intro hright hfirst heq
    cases hlast : v.queue.getLast? with
    | none =>
      rw [List.getLast?_eq_none_iff] at hlast
      apply hfirst
      rw [h.queued.head, hlast]
      rfl
    | some b =>
      have hb := hright b hlast
      rw [heq, hb] at hf
      exact hf.1 (List.mem_of_getLast? hlast)
  cases i with
  | alloc e =>
    cases hstep
    have hfe : f ≠ e := fun heq => hgiven (by simp [SchedStep.given, heq])
    exact (congrFun (v.sched.next_rtEventAlloc e) f).trans (Function.update_of_ne hfe _ _)
  | release e =>
    cases hstep
    have hfe : f ≠ e := fun heq => hgiven (by simp [SchedStep.given, heq])
    exact (congrFun (v.sched.next_rtEventRelease e) f).trans (Function.update_of_ne hfe _ _)
  | get callback arg =>
    cases hstep
    exact congrFun (v.sched.next_rtGetEvent callback arg) f
  | getBlocking =>
    cases hstep
    exact congrFun v.sched.next_rtEventGetBlocking f
  | setPending e =>
    cases hstep
    exact congrFun (v.sched.next_setPending e) f
  | setThread e thread =>
    cases hstep
    exact congrFun (v.sched.next_setThread e thread) f
  | waitFor thread =>
    cases hstep
    exact congrFun (v.sched.next_waitFor thread) f
  | enqueue e =>
    cases hstep
    have hfe : f ≠ e := fun heq => hgiven (by simp [SchedStep.given, heq])
    exact EventSched.next_rtEventEnqueue_of_ne hfe (hlast hfits.2)
  | push e =>
    cases hstep
    have hfe : f ≠ e := fun heq => hgiven (by simp [SchedStep.given, heq])
    exact EventSched.next_rtPushEvent_of_ne hfe (hlast hfits.2)
  | cancel e n =>
    obtain ⟨k, hk, heq⟩ := Option.map_eq_some_iff.mp hstep
    cases heq
    obtain ⟨found, hfound, rfl⟩ := Option.map_eq_some_iff.mp hk
    have hprev := search_prev h.queued hfound
    obtain ⟨prev, current⟩ := found
    cases current with
    | none => rfl
    | some current =>
      cases prev with
      | none => rfl
      | some b =>
        have hb : b ∈ v.queue := (hprev b rfl).resolve_right nofun
        have hfb : f ≠ b := by
          intro heq
          rw [heq] at hf
          exact hf.1 hb
        exact (congrFun (v.sched.next_setNext b _) f).trans (Function.update_of_ne hfb _ _)
  | execute =>
    obtain ⟨r, hr, heq⟩ := Option.map_eq_some_iff.mp hstep
    cases heq
    cases hqueue : v.queue with
    | nil =>
      have hfirst : v.sched.first = none := by
        rw [h.queued.head, hqueue]
        rfl
      rw [EventSched.rtEventExecute, hfirst] at hr
      cases hr
    | cons e queue =>
      have hfirst : v.sched.first = some e := by
        rw [h.queued.head, hqueue]
        rfl
      have hfe : f ≠ e := by
        intro heq
        rw [heq] at hf
        exact hf.1 (by simp [hqueue])
      exact EventSched.next_rtEventExecute_of_ne hfirst hr hfe

/-- The scheduler's steps take no other event. -/
theorem sched_owned {i : SchedStep} {es : List SchedEvent} (hstep : schedMachine v i = some (v', es))
    (hf : v.Owned f) (hgiven : f ∉ i.given) : v'.Owned f := by
  cases i with
  | alloc e =>
    cases hstep
    have hfe : f ≠ e := fun heq => hgiven (by simp [SchedStep.given, heq])
    exact ⟨hf.1, List.not_mem_cons_of_ne_of_not_mem hfe hf.2⟩
  | release e =>
    cases hstep
    have hfe : f ≠ e := fun heq => hgiven (by simp [SchedStep.given, heq])
    exact ⟨hf.1, List.not_mem_cons_of_ne_of_not_mem hfe hf.2⟩
  | get callback arg =>
    cases hstep
    exact ⟨hf.1, fun hmem => hf.2 (List.mem_of_mem_tail hmem)⟩
  | getBlocking =>
    cases hstep
    exact ⟨hf.1, fun hmem => hf.2 (List.mem_of_mem_tail hmem)⟩
  | enqueue e =>
    cases hstep
    have hfe : f ≠ e := fun heq => hgiven (by simp [SchedStep.given, heq])
    exact ⟨by simp [hf.1, hfe], hf.2⟩
  | push e =>
    cases hstep
    have hfe : f ≠ e := fun heq => hgiven (by simp [SchedStep.given, heq])
    exact ⟨by simp [hf.1, hfe], hf.2⟩
  | cancel e n =>
    obtain ⟨k, -, heq⟩ := Option.map_eq_some_iff.mp hstep
    cases heq
    exact ⟨fun hmem => hf.1 (List.mem_of_mem_erase hmem), hf.2⟩
  | execute =>
    obtain ⟨r, -, heq⟩ := Option.map_eq_some_iff.mp hstep
    cases heq
    refine ⟨fun hmem => hf.1 (List.mem_of_mem_tail hmem), ?_⟩
    change f ∉ v.recycled
    cases hqueue : v.queue with
    | nil =>
      rw [SchedWorld.recycled, hqueue]
      exact hf.2
    | cons e queue =>
      have hfe : f ≠ e := by
        intro heq
        rw [heq] at hf
        exact hf.1 (by simp [hqueue])
      simp only [SchedWorld.recycled, hqueue]
      split
      · exact hf.2
      · exact List.not_mem_cons_of_ne_of_not_mem hfe hf.2
  | _ =>
    cases hstep
    exact hf

/-- What is known of the list of the delayed events, and of their times. -/
structure DelayWorld.Inv (w : DelayWorld) (l : List Nat) : Prop where
  sched : w.schedWorld.Faithful
  listed : Seg w.state.sched.next w.state.firstDelayed l none
  perm : l.Perm w.waiting
  sorted : l.Pairwise fun e f => w.due e ≤ w.due f
  apart : ∀ e ∈ w.waiting, w.schedWorld.Owned e
  times : ∀ e ∈ w.waiting, w.state.time e = timerCount (w.due e)
  near : ∀ e ∈ w.waiting, w.due e < w.now + 2 ^ 31

namespace DelayWorld

theorem Inv.faithful (h : w.Inv l) : w.Faithful := ⟨h.sched, ⟨l, h.listed, h.perm, h.sorted⟩, h.apart⟩

theorem Inv.pass (h : w.Inv l) (ticks : Nat) : Inv { w with now := w.now + ticks } l where
  sched := h.sched
  listed := h.listed
  perm := h.perm
  sorted := h.sorted
  apart := h.apart
  times := h.times
  near e he := (h.near e he).trans_le (by simp)

/-- A step of the scheduler. -/
theorem Inv.schedStep (h : w.Inv l) {i : SchedStep} {es : List SchedEvent}
    (hfits : w.schedWorld.Fits i) (hgiven : ∀ e ∈ i.given, e ∉ w.waiting)
    (hstep : schedMachine w.schedWorld i = some (v', es)) :
    Inv { w with state := { w.state with sched := v'.sched }, queue := v'.queue, free := v'.free } l where
  sched := (((SchedWorld.right_iff h.sched i).mpr hfits).2 v' es hstep).1
  listed := by
    apply h.listed.congr
    intro f hf
    have hwaiting := h.perm.mem_iff.mp hf
    exact sched_links h.sched hfits hstep (h.apart f hwaiting) fun hmem => hgiven f hmem hwaiting
  perm := h.perm
  sorted := h.sorted
  apart f hf := sched_owned hstep (h.apart f hf) fun hmem => hgiven f hmem hf
  times := h.times
  near := h.near

/-- Where the insertion puts a new event: behind those that seem to expire earlier. -/
def passed (w : DelayWorld) (d : Nat) (f : Nat) : Bool :=
  decide (w.due f % 2 ^ 31 < w.now % 2 ^ 31 + d)

/-- The insertion links the event into the list and leaves the rest of the scheduler alone. -/
theorem Inv.insertion (h : w.Inv l) (hnew : e ∉ w.waiting) (us : BitVec 32) (n late : Nat)
    (hn : l.length < n) (as bs : List Nat)
    (has : l.takeWhile (w.passed (delayTicks us)) = as) (hbs : l.dropWhile (w.passed (delayTicks us)) = bs) :
    ∃ k, w.state.rtEventPushDelayed e us n w.now late = some k ∧
      Seg k.sched.next k.firstDelayed (as ++ e :: bs) none ∧
      (∀ f, f ∉ l → f ≠ e → k.sched.next f = w.state.sched.next f) ∧
      k.sched.first = w.state.sched.first ∧ k.sched.firstFree = w.state.sched.firstFree ∧
      k.time = Function.update w.state.time e (timerCount (w.now + delayTicks us)) := by
  obtain rfl : as ++ bs = l := by
    rw [← has, ← hbs]
    exact List.takeWhile_append_dropWhile
  have hel : e ∉ as ++ bs := fun hmem => hnew (h.perm.mem_iff.mp hmem)
  have htime : timerCount w.now + BitVec.ofNat 32 (delayTicks us) = timerCount (w.now + delayTicks us) :=
    (BitVec.ofNat_add w.now (delayTicks us)).symm
  have hseems : ∀ f ∈ as ++ bs, seemsEarlier
      (Function.update w.state.time e (timerCount (w.now + delayTicks us)))
        ((timerCount w.now &&& 0x7fffffff#32) + BitVec.ofNat 32 (delayTicks us)) f =
      w.passed (delayTicks us) f := by
    intro f hf
    have hfe : f ≠ e := by
      intro heq
      rw [heq] at hf
      exact hel hf
    rw [seemsEarlier, Function.update_of_ne hfe, h.times f (h.perm.mem_iff.mp hf), passed]
    exact decide_eq_decide.mpr (seems_earlier_iff _ _ (delayTicks_lt us))
  have hfront : ∀ f ∈ as, (!seemsEarlier
      (Function.update w.state.time e (timerCount (w.now + delayTicks us)))
        ((timerCount w.now &&& 0x7fffffff#32) + BitVec.ofNat 32 (delayTicks us)) f) = false := by
    intro f hf
    rw [hseems f (List.mem_append_left bs hf)]
    rw [← has] at hf
    rw [List.mem_takeWhile_imp hf]
    rfl
  have hback : ∀ f ∈ bs.head?, (!seemsEarlier
      (Function.update w.state.time e (timerCount (w.now + delayTicks us)))
        ((timerCount w.now &&& 0x7fffffff#32) + BitVec.ofNat 32 (delayTicks us)) f) = true := by
    intro f hf
    rw [hseems f (List.mem_append_right as (List.mem_of_mem_head? hf))]
    cases bs with
    | nil => cases hf
    | cons g bs =>
      cases hf
      have hnot := WrappingClock.not_of_dropWhile_eq_cons hbs
      simpa using hnot
  have hsearch := search_split h.listed hn hfront hback none
  obtain hnil | ⟨as', b, hconcat⟩ := List.eq_nil_or_concat as
  · subst hnil
    refine ⟨{ w.state with
      sched := w.state.sched.setNext e bs.head?
      time := Function.update w.state.time e (timerCount (w.now + delayTicks us))
      firstDelayed := some e
      cmp := timerCount (w.now + late) + BitVec.ofNat 32 (delayTicks us)
      irqEnabled := true }, ?_, ?_, ?_, rfl, rfl, rfl⟩
    · rw [DelayState.rtEventPushDelayed]
      simp only [htime, hsearch]
      rfl
    · change Seg (w.state.sched.setNext e bs.head?).next (some e) (e :: bs) none
      rw [EventSched.next_setNext]
      refine ⟨rfl, ?_⟩
      have hlisted := h.listed.update hel bs.head?
      rw [h.listed.head] at hlisted
      rw [Function.update_self]
      exact hlisted
    · intro f _ hfe
      exact (congrFun (w.state.sched.next_setNext e bs.head?) f).trans (Function.update_of_ne hfe _ _)
  · rw [List.concat_eq_append] at hconcat
    subst hconcat
    have hlink : w.state.sched.next b = bs.head? := by
      obtain ⟨q, hfrontSeg, hbackSeg⟩ := seg_append.mp h.listed
      rw [(seg_concat.mp hfrontSeg).2]
      exact hbackSeg.head
    refine ⟨{ w.state with
      sched := (w.state.sched.setNext b (some e)).setNext e bs.head?
      time := Function.update w.state.time e (timerCount (w.now + delayTicks us)) }, ?_, ?_, ?_, rfl, rfl,
      rfl⟩
    · rw [DelayState.rtEventPushDelayed]
      simp only [htime, hsearch, List.getLast?_concat]
      rfl
    · change Seg ((w.state.sched.setNext b (some e)).setNext e bs.head?).next w.state.firstDelayed
        (as' ++ [b] ++ e :: bs) none
      rw [EventSched.next_setNext, EventSched.next_setNext, ← hlink]
      exact h.listed.insert hel
    · intro f hf hfe
      have hfb : f ≠ b := by
        intro heq
        rw [heq] at hf
        exact hf (by simp)
      have hnext : ((w.state.sched.setNext b (some e)).setNext e bs.head?).next f =
          w.state.sched.next f := by
        rw [EventSched.next_setNext, EventSched.next_setNext, Function.update_of_ne hfe,
          Function.update_of_ne hfb]
      exact hnext

/-- A list stays sorted if the new event expires between those in front of it and those behind it. -/
theorem pairwise_insert {due : Nat → Nat} {as bs : List Nat} (t : Nat) (he : e ∉ as ++ bs)
    (hsorted : (as ++ bs).Pairwise fun f g => due f ≤ due g) :
    ((as ++ e :: bs).Pairwise fun f g => Function.update due e t f ≤ Function.update due e t g) ↔
      (∀ f ∈ as, due f ≤ t) ∧ ∀ f ∈ bs, t ≤ due f := by
  have hsame : ∀ f ∈ as ++ bs, Function.update due e t f = due f := by
    intro f hf
    have hfe : f ≠ e := by
      intro heq
      rw [heq] at hf
      exact he hf
    exact Function.update_of_ne hfe t due
  have hself : Function.update due e t e = t := Function.update_self e t due
  rw [List.pairwise_append, List.pairwise_cons]
  constructor
  · intro h
    obtain ⟨-, ⟨hbs, -⟩, hcross⟩ := h
    constructor
    · intro f hf
      have hle := hcross f hf e List.mem_cons_self
      rw [hself, hsame f (List.mem_append_left bs hf)] at hle
      exact hle
    · intro f hf
      have hle := hbs f hf
      rw [hself, hsame f (List.mem_append_right as hf)] at hle
      exact hle
  · intro h
    obtain ⟨has, hbs⟩ := h
    obtain ⟨hfront, hback, hcross⟩ := List.pairwise_append.mp hsorted
    refine ⟨?_, ⟨?_, ?_⟩, ?_⟩
    · apply hfront.imp_of_mem
      intro f g hf hg hle
      rw [hsame f (List.mem_append_left bs hf), hsame g (List.mem_append_left bs hg)]
      exact hle
    · intro f hf
      rw [hself, hsame f (List.mem_append_right as hf)]
      exact hbs f hf
    · apply hback.imp_of_mem
      intro f g hf hg hle
      rw [hsame f (List.mem_append_right as hf), hsame g (List.mem_append_right as hg)]
      exact hle
    · intro f hf g hg
      rw [hsame f (List.mem_append_left bs hf)]
      rcases List.mem_cons.mp hg with rfl | hg
      · rw [hself]
        exact has f hf
      · rw [hsame g (List.mem_append_right as hg)]
        exact hcross f hf g hg

/-- The new event is put where it belongs exactly if the comparison is not misled. -/
theorem Inv.inOrder_iff (h : w.Inv l) (us : BitVec 32) :
    ((∀ f ∈ l.takeWhile (w.passed (delayTicks us)), w.due f ≤ w.now + delayTicks us) ∧
      ∀ f ∈ l.dropWhile (w.passed (delayTicks us)), w.now + delayTicks us ≤ w.due f) ↔
      w.InOrder (delayTicks us) := by
  have hmem : ∀ f, f ∈ l ↔ f ∈ w.waiting := fun f => h.perm.mem_iff
  have hsplit := WrappingClock.split_iff (p := w.passed (delayTicks us)) h.sorted
    (fun f hf => h.near f ((hmem f).mp hf)) (delayTicks_pos us) (fun f _ => rfl)
  simp only [hmem] at hsplit
  exact hsplit

/-- The world after a push with a delay. -/
def pushed (w : DelayWorld) (k : DelayState) (e d late : Nat) : DelayWorld :=
  { w with
    state := k
    now := w.now + late
    waiting := e :: w.waiting
    due := Function.update w.due e (w.now + d) }

theorem Inv.pushDelayed (h : w.Inv l) (he : w.schedWorld.Owned e) (hnew : e ∉ w.waiting) (us : BitVec 32)
    (n late : Nat) (hn : l.length < n) : ∃ k l', w.state.rtEventPushDelayed e us n w.now late = some k ∧
      Seg k.sched.next k.firstDelayed l' none ∧
      ((l'.Pairwise fun f g => (w.pushed k e (delayTicks us) late).due f ≤
        (w.pushed k e (delayTicks us) late).due g) ↔ w.InOrder (delayTicks us)) ∧
      (w.InOrder (delayTicks us) → (w.pushed k e (delayTicks us) late).Inv l') := by
  have hel : e ∉ l := fun hmem => hnew (h.perm.mem_iff.mp hmem)
  have hsplit : l.takeWhile (w.passed (delayTicks us)) ++ l.dropWhile (w.passed (delayTicks us)) = l :=
    List.takeWhile_append_dropWhile
  obtain ⟨k, hk, hseg, hlinks, hfirst, hfree, htime⟩ :=
    h.insertion hnew us n late hn _ _ rfl rfl
  have hiff := (pairwise_insert (e := e) (w.now + delayTicks us) (hsplit.symm ▸ hel)
    (hsplit.symm ▸ h.sorted)).trans (h.inOrder_iff us)
  refine ⟨k, _, hk, hseg, hiff, ?_⟩
  intro horder
  have hlist : ∀ f, f ∉ e :: w.waiting → f ∉ l ∧ f ≠ e := by
    intro f hf
    exact ⟨fun hmem => hf (List.mem_cons_of_mem e (h.perm.mem_iff.mp hmem)),
      fun heq => hf (heq ▸ List.mem_cons_self)⟩
  have howned : ∀ f ∈ e :: w.waiting, w.schedWorld.Owned f := by
    intro f hf
    rcases List.mem_cons.mp hf with rfl | hf
    · exact he
    · exact h.apart f hf
  constructor
  · apply h.sched.congr _ hfirst hfree
    intro f hf
    obtain ⟨hfl, hfe⟩ := hlist f fun hmem => hf (howned f hmem)
    exact hlinks f hfl hfe
  · exact hseg
  · have hperm : (l.takeWhile (w.passed (delayTicks us)) ++
        e :: l.dropWhile (w.passed (delayTicks us))).Perm (e :: l) := by
      conv_rhs => rw [← hsplit]
      exact List.perm_middle
    exact hperm.trans (h.perm.cons e)
  · exact hiff.mpr horder
  · exact howned
  · intro f hf
    simp only [pushed, htime]
    by_cases hfe : f = e
    · subst hfe
      simp
    · rw [Function.update_of_ne hfe, Function.update_of_ne hfe]
      exact h.times f ((List.mem_cons.mp hf).resolve_left hfe)
  · intro f hf
    simp only [pushed]
    by_cases hfe : f = e
    · subst hfe
      have hlt := delayTicks_lt us
      simp only [Function.update_self]
      omega
    · have hlt := h.near f ((List.mem_cons.mp hf).resolve_left hfe)
      simp only [Function.update_of_ne hfe]
      omega

end DelayWorld

theorem pushedOf_push (e : Nat) (es : List SchedEvent) (fs : List DelayEvent) :
    pushedOf (.pushed e :: es.map .sched ++ fs) = e :: pushedOf fs := by
  simp [pushedOf, List.filterMap_map]

section Loop

variable {time : Nat → BitVec 32} {current : BitVec 32} {n : Nat} {p q : Option Nat}

/-- The comparison of the handler. -/
def seemsExpired (time : Nat → BitVec 32) (current : BitVec 32) (e : Nat) : Bool :=
  current - time e < 0x7fffffff#32

/-- The handler moves the events in front that seem to have expired to the end of the queue. -/
theorem dequeueExpired_spec (h : v.Faithful) (hlisted : Seg v.sched.next p l none)
    (hapart : ∀ e ∈ l, v.Owned e) (hlast : l.takeWhile (seemsExpired time current) ≠ [] → v.LastRight)
    (hn : l.length < n) : ∃ k es, DelayState.dequeueExpired time current n v.sched p =
        some (k, es, (l.dropWhile (seemsExpired time current)).head?) ∧
      pushedOf es = l.takeWhile (seemsExpired time current) ∧
      SchedWorld.Faithful ⟨k, v.queue ++ l.takeWhile (seemsExpired time current), v.free⟩ ∧
      Seg k.next (l.dropWhile (seemsExpired time current)).head?
        (l.dropWhile (seemsExpired time current)) none := by
  induction l generalizing v p n with
  | nil =>
    cases n with
    | zero => cases hn
    | succ n =>
      cases hlisted
      refine ⟨v.sched, [], rfl, rfl, ?_, rfl⟩
      simpa using h
  | cons e l ih =>
    cases n with
    | zero => cases hn
    | succ n =>
      have hp : p = some e := hlisted.1
      subst hp
      by_cases hexpired : seemsExpired time current e = true
      · have htake : (e :: l).takeWhile (seemsExpired time current) =
            e :: l.takeWhile (seemsExpired time current) := by simp [hexpired]
        have hdrop : (e :: l).dropWhile (seemsExpired time current) =
            l.dropWhile (seemsExpired time current) := by simp [hexpired]
        have hright := hlast (by simp [htake])
        have he : v.Owned e := hapart e List.mem_cons_self
        obtain ⟨hel, -⟩ := List.nodup_cons.mp hlisted.nodup
        have hother : ∀ f ∈ l, f ∉ (SchedStep.push e).given := by
          intro f hf hgiven
          cases hgiven
          exact hel hf
        have hfits : v.Fits (.push e) := ⟨he, hright⟩
        have hrest : Seg (v.sched.rtPushEvent e).1.next (v.sched.next e) l none := by
          apply hlisted.2.congr
          intro f hf
          exact sched_links h hfits rfl (hapart f (List.mem_cons_of_mem e hf)) (hother f hf)
        obtain ⟨k, es, hk, hpushed, hfaithful, hseg⟩ := ih (h.push he hright) hrest
          (fun f hf => sched_owned (i := .push e) rfl (hapart f (List.mem_cons_of_mem e hf)) (hother f hf))
          (fun _ b hb => by
            have hb' : e = b := by simpa using hb
            exact (v.sched.last_rtPushEvent e).1.trans hb') (Nat.lt_of_succ_lt_succ hn)
        refine ⟨k, .pushed e :: (v.sched.rtPushEvent e).2.map .sched ++ es, ?_, ?_, ?_, ?_⟩
        · have hcompare : current - time e < 0x7fffffff#32 := of_decide_eq_true hexpired
          rw [DelayState.dequeueExpired, if_pos hcompare, hk, hdrop]
          rfl
        · rw [htake, ← hpushed]
          exact pushedOf_push e (v.sched.rtPushEvent e).2 es
        · rw [htake, List.append_cons]
          exact hfaithful
        · rw [hdrop]
          exact hseg
      · have htake : (e :: l).takeWhile (seemsExpired time current) = [] := by simp [hexpired]
        have hdrop : (e :: l).dropWhile (seemsExpired time current) = e :: l := by simp [hexpired]
        have hcompare : ¬ current - time e < 0x7fffffff#32 := by simpa [seemsExpired] using hexpired
        rw [htake, hdrop]
        refine ⟨v.sched, [], ?_, rfl, ?_, hlisted⟩
        · rw [DelayState.dequeueExpired, if_neg hcompare]
          rfl
        · rw [List.append_nil]
          exact h

/-- The link of an event that is neither pushed nor taken for the last one stays as it is. -/
theorem dequeueExpired_links {k k' : EventSched} {es : List DelayEvent}
    (hk : DelayState.dequeueExpired time current n k p = some (k', es, q)) {b : Nat}
    (hb : b ∉ pushedOf es) (hlast : b ≠ k.last) (hfirst : k.first ≠ none) : k'.next b = k.next b := by
  induction n generalizing k p es with
  | zero => cases hk
  | succ n ih =>
    cases p with
    | none =>
      cases hk
      rfl
    | some e =>
      rw [DelayState.dequeueExpired] at hk
      by_cases hcompare : current - time e < 0x7fffffff#32
      · rw [if_pos hcompare, Option.map_eq_some_iff] at hk
        obtain ⟨r, hr, heq⟩ := hk
        cases heq
        rw [pushedOf_push, List.mem_cons, not_or] at hb
        obtain ⟨hbe, hrest⟩ := hb
        obtain ⟨hlast', hfirst'⟩ := k.last_rtPushEvent e
        rw [ih hr hrest (by rw [hlast']; exact hbe) hfirst']
        exact EventSched.next_rtPushEvent_of_ne hbe fun _ => hlast
      · rw [if_neg hcompare] at hk
        cases hk
        rfl

end Loop

theorem rtTimerHandler_loop {k k' : DelayState} {n now late : Nat} {es : List DelayEvent} :
    k.rtTimerHandler n now late = some (k', es) → DelayState.dequeueExpired k.time (timerCount now) n k.sched
      k.firstDelayed = some (k'.sched, es, k'.firstDelayed) ∧ k'.time = k.time := by
  intro h
  obtain ⟨r, hr, heq⟩ := Option.map_eq_some_iff.mp h
  obtain ⟨sched, fs, first⟩ := r
  cases first with
  | none =>
    cases heq
    exact ⟨hr, rfl⟩
  | some f =>
    cases heq
    exact ⟨hr, rfl⟩

theorem rtTimerHandler_some {k : DelayState} {n now : Nat} {sched : EventSched} {es : List DelayEvent}
    {first : Option Nat} (late : Nat) (h : DelayState.dequeueExpired k.time (timerCount now) n k.sched
      k.firstDelayed = some (sched, es, first)) : ∃ k', k.rtTimerHandler n now late = some (k', es) ∧
      k'.sched = sched ∧ k'.firstDelayed = first ∧ k'.time = k.time := by
  rw [DelayState.rtTimerHandler, h]
  cases first with
  | none => exact ⟨_, rfl, rfl, rfl, rfl⟩
  | some f => exact ⟨_, rfl, rfl, rfl, rfl⟩

namespace DelayWorld

/-- The world after an interrupt. -/
def interrupted (w : DelayWorld) (k : DelayState) (es : List DelayEvent) (late : Nat) : DelayWorld :=
  { w with
    state := k
    now := w.now + late
    queue := w.queue ++ pushedOf es
    waiting := w.waiting.filter fun e => w.now < w.due e }

/-- Events that seem to have expired have. -/
theorem Inv.expired_of_seems (h : w.Inv l) (he : e ∈ l)
    (hseems : seemsExpired w.state.time (timerCount w.now) e = true) : w.due e ≤ w.now := by
  have hwaiting := h.perm.mem_iff.mp he
  rw [seemsExpired, h.times e hwaiting, decide_eq_true_iff] at hseems
  exact Runtime.expired_of_seems (h.near e hwaiting) hseems

theorem Inv.inTime_iff (h : w.Inv l) : w.InTime ↔
    ∀ e ∈ l, seemsExpired w.state.time (timerCount w.now) e = decide (w.due e ≤ w.now) := by
  have hseems : ∀ e ∈ w.waiting, w.due e ≤ w.now →
      (seemsExpired w.state.time (timerCount w.now) e = true ↔
        (w.now - w.due e) % 2 ^ 32 < 2 ^ 31 - 1) := by
    intro e he hdue
    rw [seemsExpired, h.times e he, decide_eq_true_iff]
    exact seems_expired_of_le hdue
  constructor
  · intro htime e he
    have hwaiting := h.perm.mem_iff.mp he
    by_cases hdue : w.due e ≤ w.now
    · rw [decide_eq_true hdue, hseems e hwaiting hdue]
      exact htime e hwaiting hdue
    · rw [decide_eq_false hdue, Bool.eq_false_iff]
      intro hexpired
      exact hdue (h.expired_of_seems he hexpired)
  · intro hall e he hdue
    rw [← hseems e he hdue, hall e (h.perm.mem_iff.mpr he), decide_eq_true hdue]

/-- What the handler does if the events that it moves get into the queue. -/
theorem Inv.timerIrq (h : w.Inv l) (late : Nat)
    (hlast : l.takeWhile (seemsExpired w.state.time (timerCount w.now)) ≠ [] → w.schedWorld.LastRight) :
    ∃ k es, w.state.rtTimerHandler w.rounds w.now late = some (k, es) ∧
      pushedOf es = l.takeWhile (seemsExpired w.state.time (timerCount w.now)) ∧
      (w.InTime → (w.interrupted k es late).Inv (l.filter fun e => w.now < w.due e) ∧
        (pushedOf es).Perm (w.expired (.timerIrq late)) ∧
          (pushedOf es).Pairwise fun e f => w.due e ≤ w.due f) := by
  have hn : l.length < w.rounds := by
    rw [h.perm.length_eq, rounds]
    omega
  obtain ⟨sched, es, hloop, hpushed, hfaithful, hseg⟩ := dequeueExpired_spec h.sched h.listed
    (fun e he => h.apart e (h.perm.mem_iff.mp he)) hlast hn
  obtain ⟨k, hk, rfl, hfirst, htime⟩ := rtTimerHandler_some late hloop
  refine ⟨k, es, hk, hpushed, ?_⟩
  intro hintime
  have hall := h.inTime_iff.mp hintime
  have hdown : l.Pairwise fun a b => seemsExpired w.state.time (timerCount w.now) b = true →
      seemsExpired w.state.time (timerCount w.now) a = true := by
    apply h.sorted.imp_of_mem
    intro a b ha hb hle hexpired
    rw [hall b hb, decide_eq_true_iff] at hexpired
    rw [hall a ha, decide_eq_true_iff]
    exact hle.trans hexpired
  obtain ⟨htake, hdrop⟩ := WrappingClock.takeWhile_eq_filter hdown
  have hleft : l.dropWhile (seemsExpired w.state.time (timerCount w.now)) =
      l.filter fun e => w.now < w.due e := by
    rw [hdrop]
    apply List.filter_congr
    intro e he
    rw [hall e he, ← decide_not]
    exact decide_eq_decide.mpr Nat.not_le
  have hmoved : pushedOf es = l.filter fun e => w.due e ≤ w.now := by
    rw [hpushed, htake]
    exact List.filter_congr hall
  refine ⟨?_, ?_, ?_⟩
  · constructor
    · rw [← hpushed] at hfaithful
      exact hfaithful
    · rw [hleft] at hfirst hseg
      rw [interrupted, hfirst]
      exact hseg
    · exact h.perm.filter _
    · exact h.sorted.filter _
    · intro f hf
      obtain ⟨hf, hlater⟩ := List.mem_filter.mp hf
      refine ⟨?_, (h.apart f hf).2⟩
      change f ∉ w.queue ++ pushedOf es
      rw [List.mem_append, not_or, hmoved]
      refine ⟨(h.apart f hf).1, ?_⟩
      intro hmem
      have hdue := of_decide_eq_true (List.mem_filter.mp hmem).2
      have hlater' := of_decide_eq_true hlater
      omega
    · intro f hf
      rw [interrupted, htime]
      exact h.times f (List.mem_filter.mp hf).1
    · intro f hf
      have hnear := h.near f (List.mem_filter.mp hf).1
      exact hnear.trans_le (by simp [interrupted])
  · rw [hmoved]
    exact h.perm.filter _
  · rw [hmoved]
    exact h.sorted.filter _

/-- An event that is pushed behind one that is not the last one gets lost. -/
theorem Inv.timerIrq_lost (h : w.Inv l) (late : Nat)
    (hmoves : l.takeWhile (seemsExpired w.state.time (timerCount w.now)) ≠ [])
    (hlast : ¬ w.schedWorld.LastRight) {k : DelayState} {es : List DelayEvent}
    (hk : w.state.rtTimerHandler w.rounds w.now late = some (k, es)) :
    ¬ (w.interrupted k es late).Faithful := by
  intro hnew
  obtain ⟨hloop, -⟩ := rtTimerHandler_loop hk
  simp only [SchedWorld.LastRight, Classical.not_forall] at hlast
  obtain ⟨b, hb, hstale⟩ := hlast
  obtain ⟨bs, hsplit⟩ := List.getLast?_eq_some_iff.mp hb
  change w.queue = bs ++ [b] at hsplit
  -- the first event moved is linked behind the stale one
  obtain ⟨e, rest, hes⟩ : ∃ e rest, pushedOf es = e :: rest := by
    cases l with
    | nil => exact absurd rfl hmoves
    | cons e l =>
      have hexpired : seemsExpired w.state.time (timerCount w.now) e = true := by
        by_contra hnot
        exact hmoves (by simp [hnot])
      rw [h.listed.1, rounds, DelayState.dequeueExpired, if_pos (of_decide_eq_true hexpired)] at hloop
      obtain ⟨r, -, heq⟩ := Option.map_eq_some_iff.mp hloop
      obtain ⟨-, hes, -⟩ := (Prod.mk.inj heq).imp_right Prod.mk.inj
      refine ⟨e, pushedOf r.2.1, ?_⟩
      rw [← hes]
      exact pushedOf_push e _ _
  have hqueued : Seg k.sched.next k.sched.first (bs ++ [b] ++ e :: rest) none := by
    have hq := hnew.sched.queued
    change Seg k.sched.next k.sched.first (w.queue ++ pushedOf es) none at hq
    rw [hsplit, hes] at hq
    exact hq
  obtain ⟨q, hfront, hback⟩ := seg_append.mp hqueued
  have hlink : k.sched.next b = some e := (seg_concat.mp hfront).2.trans hback.1
  have hbes : b ∉ pushedOf es := by
    rw [hes]
    exact hqueued.not_mem.2
  have hfirst : w.state.sched.first ≠ none := by
    have hhead : w.state.sched.first = (bs ++ [b]).head? := by
      rw [← hsplit]
      exact h.sched.queued.head
    rw [hhead]
    cases bs <;> simp
  have hsame := dequeueExpired_links hloop hbes (fun heq => hstale heq.symm) hfirst
  have hold : w.state.sched.next b = none := by
    have hq := h.sched.queued
    change Seg w.state.sched.next w.state.sched.first w.queue none at hq
    rw [hsplit] at hq
    exact (seg_concat.mp hq).2
  rw [hlink, hold] at hsame
  cases hsame

/-- The world after a timer was stopped. -/
def stopped (w : DelayWorld) (k : DelayState) (e : Nat) : DelayWorld :=
  { w with
    state := k
    queue := if e ∈ w.waiting then w.queue else w.queue.erase e
    waiting := w.waiting.erase e }

/-- Taken out of the list, an event waits no longer. -/
theorem Inv.unlinked {as bs : List Nat} {e : Nat} {k : DelayState} (h : w.Inv (as ++ e :: bs))
    (he : e ∈ w.waiting) (htime : k.time = w.state.time)
    (hlisted : Seg k.sched.next k.firstDelayed (as ++ bs) none)
    (hsched : SchedWorld.Faithful ⟨k.sched, w.queue, w.free⟩) : (w.stopped k e).Inv (as ++ bs) := by
  have hqueue : (w.stopped k e).queue = w.queue := if_pos he
  have herase : (as ++ e :: bs).erase e = as ++ bs := by
    rw [List.erase_append_right _ h.listed.not_mem_front, List.erase_cons_head]
  have hsub : (as ++ bs).Sublist (as ++ e :: bs) := by
    rw [← herase]
    exact List.erase_sublist
  constructor
  · rw [schedWorld, hqueue]
    exact hsched
  · exact hlisted
  · rw [← herase]
    exact h.perm.erase e
  · exact h.sorted.sublist hsub
  · intro f hf
    rw [schedWorld, hqueue]
    exact h.apart f (List.mem_of_mem_erase hf)
  · intro f hf
    exact (congrFun htime f).trans (h.times f (List.mem_of_mem_erase hf))
  · intro f hf
    exact h.near f (List.mem_of_mem_erase hf)

/-- A stopped timer's event is taken out of the list that it is in. -/
theorem Inv.timerStop (h : w.Inv l) (e : Nat) : ∃ k l', w.state.rtTimerStop e w.rounds = some k ∧
    (w.stopped k e).Inv l' := by
  have hn : l.length < w.rounds := by
    rw [h.perm.length_eq, rounds]
    omega
  by_cases he : e ∈ w.waiting
  · obtain ⟨as, bs, hsplit⟩ := List.append_of_mem (h.perm.mem_iff.mpr he)
    subst hsplit
    have has := h.listed.not_mem_front
    have hpass : ∀ f ∈ as, decide (f = e) = false := by
      intro f hf
      exact decide_eq_false fun heq => has (heq ▸ hf)
    have hsearch := search_found h.listed hn hpass (decide_eq_true rfl) none
    obtain hnil | ⟨as', b, hconcat⟩ := List.eq_nil_or_concat as
    · subst hnil
      refine ⟨{ w.state with firstDelayed := w.state.sched.next e }, bs, ?_, ?_⟩
      · rw [DelayState.rtTimerStop, hsearch]
        rfl
      · exact h.unlinked he rfl h.listed.2 h.sched
    · rw [List.concat_eq_append] at hconcat
      subst hconcat
      refine ⟨{ w.state with sched := w.state.sched.setNext b (w.state.sched.next e) }, as' ++ [b] ++ bs,
        ?_, ?_⟩
      · rw [DelayState.rtTimerStop, hsearch, List.getLast?_concat]
        rfl
      · have hnext := w.state.sched.next_setNext b (w.state.sched.next e)
        refine h.unlinked he ?_ ?_ ?_
        · rfl
        · change Seg (w.state.sched.setNext b (w.state.sched.next e)).next w.state.firstDelayed _ none
          rw [hnext]
          exact h.listed.unlink
        · refine h.sched.congr (k := w.state.sched.setNext b (w.state.sched.next e)) ?_ rfl rfl
          intro f hf
          have hfb : f ≠ b := by
            intro heq
            rw [heq] at hf
            exact hf (h.apart b (h.perm.mem_iff.mp (by simp)))
          exact (congrFun hnext f).trans (Function.update_of_ne hfb _ _)
  · have hel : e ∉ l := fun hmem => he (h.perm.mem_iff.mp hmem)
    have hpass : ∀ f ∈ l, decide (f = e) = false := by
      intro f hf
      exact decide_eq_false fun heq => hel (heq ▸ hf)
    have hsearch := search_missed h.listed hn hpass none
    have hqueue : w.queue.length < w.rounds := by
      rw [rounds]
      omega
    obtain ⟨sched, hcancel, -⟩ := h.sched.cancel e hqueue
    have hstep : schedMachine w.schedWorld (.cancel e w.rounds) =
        some (⟨sched, w.queue.erase e, w.free⟩, []) := by
      rw [schedMachine]
      exact Option.map_eq_some_iff.mpr ⟨sched, hcancel, rfl⟩
    refine ⟨{ w.state with sched := sched }, l, ?_, ?_⟩
    · rw [DelayState.rtTimerStop, hsearch]
      exact Option.map_eq_some_iff.mpr ⟨sched, hcancel, rfl⟩
    · rw [stopped, if_neg he, List.erase_of_not_mem he]
      have hnone : ∀ f ∈ SchedStep.given (.cancel e w.rounds), f ∉ w.waiting := by
        intro f hf
        cases hf
      exact h.schedStep (i := .cancel e w.rounds) trivial hnone hstep

/-- The event that a step of the scheduler is given is in its lists then. -/
theorem given_not_owned {i : SchedStep} (he : e ∈ i.given) :
    ∃ v' es, schedMachine v i = some (v', es) ∧ ¬ v'.Owned e := by
  cases i with
  | alloc f =>
    cases he
    exact ⟨_, _, rfl, fun howned => howned.2 List.mem_cons_self⟩
  | release f =>
    cases he
    exact ⟨_, _, rfl, fun howned => howned.2 List.mem_cons_self⟩
  | enqueue f =>
    cases he
    exact ⟨_, _, rfl, fun howned => howned.1 List.mem_concat_self⟩
  | push f =>
    cases he
    exact ⟨_, _, rfl, fun howned => howned.1 List.mem_concat_self⟩
  | _ => cases he

theorem Inv.length_lt (h : w.Inv l) : l.length < w.rounds := by
  rw [h.perm.length_eq, rounds]
  omega

/-- The events that the handler moves get into the queue if the last one is known. -/
theorem Inv.lastRight_of_fits (h : w.Inv l)
    (hlast : (∃ e ∈ w.waiting, w.due e ≤ w.now) → w.schedWorld.LastRight)
    (hmoves : l.takeWhile (seemsExpired w.state.time (timerCount w.now)) ≠ []) :
    w.schedWorld.LastRight := by
  obtain ⟨e, he⟩ := List.exists_mem_of_ne_nil _ hmoves
  have hel : e ∈ l := (List.takeWhile_sublist _).mem he
  exact hlast ⟨e, h.perm.mem_iff.mp hel, h.expired_of_seems hel (List.mem_takeWhile_imp he)⟩

/-- A step that fits keeps what is known. -/
theorem Inv.step (h : w.Inv l) {i : DelayStep} {es : List DelayEvent} (hfits : w.Fits i)
    (hstep : delayMachine w i = some (w', es)) : (∃ l', w'.Inv l') ∧ (pushedOf es).Perm (w.expired i) ∧
      (pushedOf es).Pairwise fun e f => w.due e ≤ w.due f := by
  cases i with
  | sched i =>
    obtain ⟨r, hr, heq⟩ := Option.map_eq_some_iff.mp hstep
    cases heq
    refine ⟨⟨l, h.schedStep hfits.1 hfits.2 hr⟩, ?_⟩
    have hnone : pushedOf (r.2.map .sched) = [] := by simp [pushedOf]
    rw [hnone]
    exact ⟨List.Perm.refl _, List.Pairwise.nil⟩
  | pass ticks =>
    cases hstep
    exact ⟨⟨l, h.pass ticks⟩, List.Perm.refl _, List.Pairwise.nil⟩
  | pushDelayed e us late =>
    obtain ⟨k, hk, heq⟩ := Option.map_eq_some_iff.mp hstep
    cases heq
    obtain ⟨k', l', hk', -, -, hnew⟩ := h.pushDelayed hfits.1 hfits.2.1 us w.rounds late h.length_lt
    cases hk.symm.trans hk'
    exact ⟨⟨l', hnew hfits.2.2⟩, List.Perm.refl _, List.Pairwise.nil⟩
  | timerIrq late =>
    obtain ⟨r, hr, heq⟩ := Option.map_eq_some_iff.mp hstep
    cases heq
    obtain ⟨k, es, hk, -, hnew⟩ := h.timerIrq late (h.lastRight_of_fits hfits.2)
    cases hr.symm.trans hk
    obtain ⟨hinv, hmoved⟩ := hnew hfits.1
    exact ⟨⟨_, hinv⟩, hmoved⟩
  | timerStop e =>
    obtain ⟨k, hk, heq⟩ := Option.map_eq_some_iff.mp hstep
    cases heq
    obtain ⟨k', l', hk', hnew⟩ := h.timerStop e
    cases hk.symm.trans hk'
    exact ⟨⟨l', hnew⟩, List.Perm.refl _, List.Pairwise.nil⟩

/-- No step gets stuck that the scheduler does not refuse. -/
theorem Inv.enabled (h : w.Inv l) {i : DelayStep} (hfits : w.Fits i) (hon : w.Enabled i) :
    ∃ w' es, delayMachine w i = some (w', es) := by
  cases i with
  | sched i =>
    obtain ⟨v', es, hv⟩ := (h.sched.right hfits.1).1 hon
    exact ⟨_, _, Option.map_eq_some_iff.mpr ⟨(v', es), hv, rfl⟩⟩
  | pass ticks => exact ⟨_, _, rfl⟩
  | pushDelayed e us late =>
    obtain ⟨k, -, hk, -⟩ := h.pushDelayed hfits.1 hfits.2.1 us w.rounds late h.length_lt
    exact ⟨_, _, Option.map_eq_some_iff.mpr ⟨k, hk, rfl⟩⟩
  | timerIrq late =>
    obtain ⟨k, es, hk, -⟩ := h.timerIrq late (h.lastRight_of_fits hfits.2)
    exact ⟨_, _, Option.map_eq_some_iff.mpr ⟨(k, es), hk, rfl⟩⟩
  | timerStop e =>
    obtain ⟨k, -, hk, -⟩ := h.timerStop e
    exact ⟨_, _, Option.map_eq_some_iff.mpr ⟨k, hk, rfl⟩⟩

/-- A step of the scheduler that leaves the lists as they should be fits, and takes no event that
waits. -/
theorem Inv.sched_fits (h : w.Inv l) {i : SchedStep} (hright : w.Right (.sched i)) :
    w.Fits (.sched i) := by
  have hnew : ∀ v' es, schedMachine w.schedWorld i = some (v', es) → v'.Faithful ∧
      ∀ e ∈ w.waiting, v'.Owned e := by
    intro v' es hv
    obtain ⟨hfaithful, -⟩ := hright.2 _ _ (Option.map_eq_some_iff.mpr ⟨(v', es), hv, rfl⟩)
    exact ⟨hfaithful.sched, hfaithful.apart⟩
  constructor
  · exact SchedWorld.fits_of_faithful h.sched fun v' es hv => (hnew v' es hv).1
  · intro e he hwaiting
    obtain ⟨v', es, hv, hnot⟩ := given_not_owned (v := w.schedWorld) he
    exact hnot ((hnew v' es hv).2 e hwaiting)

/-- A push with a delay that leaves the list sorted is not misled. -/
theorem Inv.pushDelayed_fits (h : w.Inv l) {us : BitVec 32} {late : Nat}
    (hright : w.Right (.pushDelayed e us late)) : w.Fits (.pushDelayed e us late) := by
  obtain ⟨w', es, hstep⟩ := hright.1 trivial
  obtain ⟨hnew, -⟩ := hright.2 w' es hstep
  obtain ⟨k, hk, heq⟩ := Option.map_eq_some_iff.mp hstep
  cases heq
  have howned : w.schedWorld.Owned e := hnew.apart e List.mem_cons_self
  obtain ⟨l', hseg, hperm, hsorted⟩ := hnew.delayed
  have hwaiting : e ∉ w.waiting :=
    (List.nodup_cons.mp (hperm.nodup_iff.mp hseg.nodup)).1
  obtain ⟨k', l'', hk', hseg', hiff, -⟩ := h.pushDelayed howned hwaiting us w.rounds late h.length_lt
  cases hk.symm.trans hk'
  cases hseg.unique hseg'
  exact ⟨howned, hwaiting, hiff.mp hsorted⟩

/-- An interrupt that moves all events that have expired comes in time, and finds the last event. -/
theorem Inv.timerIrq_fits (h : w.Inv l) {late : Nat} (hright : w.Right (.timerIrq late)) :
    w.Fits (.timerIrq late) := by
  obtain ⟨w', es, hstep⟩ := hright.1 trivial
  obtain ⟨hnew, hmoved, -⟩ := hright.2 w' es hstep
  obtain ⟨r, hr, heq⟩ := Option.map_eq_some_iff.mp hstep
  cases heq
  have hlast : l.takeWhile (seemsExpired w.state.time (timerCount w.now)) ≠ [] →
      w.schedWorld.LastRight := by
    intro hmoves
    by_contra hnot
    exact h.timerIrq_lost late hmoves hnot hr hnew
  obtain ⟨k, es, hk, hpushed, -⟩ := h.timerIrq late hlast
  cases hr.symm.trans hk
  have hexpired : ∀ e ∈ l, w.due e ≤ w.now →
      e ∈ l.takeWhile (seemsExpired w.state.time (timerCount w.now)) := by
    intro e he hdue
    rw [← hpushed, hmoved.mem_iff]
    exact List.mem_filter.mpr ⟨h.perm.mem_iff.mp he, decide_eq_true hdue⟩
  constructor
  · rw [h.inTime_iff]
    intro e he
    by_cases hdue : w.due e ≤ w.now
    · rw [decide_eq_true hdue]
      exact List.mem_takeWhile_imp (hexpired e he hdue)
    · rw [decide_eq_false hdue, Bool.eq_false_iff]
      intro hseems
      exact hdue (h.expired_of_seems he hseems)
  · intro hdue
    obtain ⟨e, he, hdue⟩ := hdue
    exact hlast (List.ne_nil_of_mem (hexpired e (h.perm.mem_iff.mpr he) hdue))

/-- A step does what it has to exactly if it fits. -/
theorem Inv.right_iff (h : w.Inv l) (i : DelayStep) : w.Right i ↔ w.Fits i := by
  constructor
  · intro hright
    cases i with
    | sched i => exact h.sched_fits hright
    | pushDelayed e us late => exact h.pushDelayed_fits hright
    | timerIrq late => exact h.timerIrq_fits hright
    | _ => trivial
  · intro hfits
    refine ⟨h.enabled hfits, ?_⟩
    intro w' es hstep
    obtain ⟨⟨l', hnew⟩, hmoved⟩ := h.step hfits hstep
    exact ⟨hnew.faithful, hmoved⟩

end DelayWorld

/-- The system after the initialisations, at some time, with no events. -/
def delayInit (events : Nat → RtEvent) (last : Nat) (time : Nat → BitVec 32) (cmp : BitVec 32)
    (now : Nat) : DelayWorld where
  state := ⟨(schedInit events last).sched, time, none, cmp, false⟩
  now := now
  queue := []
  free := []
  waiting := []
  due _ := 0

theorem delayed_right_iff (events : Nat → RtEvent) (last : Nat) (time : Nat → BitVec 32) (cmp : BitVec 32)
    (now : Nat) (is : List DelayStep) :
    Machine.Along delayMachine DelayWorld.Right (delayInit events last time cmp now) is ↔
      Machine.Along delayMachine DelayWorld.Fits (delayInit events last time cmp now) is := by
  have hinit : (delayInit events last time cmp now).Inv [] :=
    ⟨⟨rfl, rfl, List.disjoint_nil_left []⟩, rfl, List.Perm.refl _, List.Pairwise.nil, nofun, nofun, nofun⟩
  have hstep : ∀ w i w' es, (∃ l, DelayWorld.Inv w l) → w.Fits i → delayMachine w i = some (w', es) →
      ∃ l, w'.Inv l := by
    intro w i w' es h hfits hnext
    obtain ⟨l, hinv⟩ := h
    exact (hinv.step hfits hnext).1
  have hright : ∀ w i, (∃ l, DelayWorld.Inv w l) → (w.Right i ↔ w.Fits i) := by
    intro w i h
    obtain ⟨l, hinv⟩ := h
    exact hinv.right_iff i
  exact Machine.along_iff hstep hright ⟨[], hinit⟩

/-- The events are pushed with a delay by those who have them, and the interrupts come in time. -/
def DelayWorld.Used (w : DelayWorld) : DelayStep → Prop
  | .sched i => w.Fits (.sched i)
  | .pass _ => True
  | .pushDelayed e _ _ => w.schedWorld.Owned e ∧ e ∉ w.waiting
  | .timerIrq late => w.Fits (.timerIrq late)
  | .timerStop _ => True

/-- Shortly before the timer's bit 31 changes, an event that expires after the change is pushed, and
then one that expires before it. -/
theorem later_event_in_front : ¬ ∀ (events : Nat → RtEvent) (last : Nat) (time : Nat → BitVec 32)
    (cmp : BitVec 32) (now : Nat) (is : List DelayStep),
    Machine.Along delayMachine DelayWorld.Used (delayInit events last time cmp now) is →
      Machine.Along delayMachine DelayWorld.Right (delayInit events last time cmp now) is := by
  intro hall
  have hused : Machine.Along delayMachine DelayWorld.Used
      (delayInit (fun _ => ⟨none, 0, none, none, false⟩) 0 (fun _ => 0#32) 0#32 (2 ^ 31 - 100))
      ([.pushDelayed 1 6000#32 0] ++ .pushDelayed 0 1500#32 0 :: []) := by
    refine ⟨⟨⟨nofun, nofun⟩, nofun⟩, ?_⟩
    intro w es hw
    rw [delayMachine, Option.map_eq_some_iff] at hw
    obtain ⟨k, -, heq⟩ := hw
    cases heq
    exact ⟨⟨⟨nofun, nofun⟩, by simp [delayInit]⟩, fun _ _ _ => trivial⟩
  have hright := hall _ _ _ _ _ _ hused
  have hstep := hright.at (s := delayInit _ _ _ _ _) rfl
  obtain ⟨hnew, -⟩ := hstep.2 _ _ rfl
  obtain ⟨l, hseg, -, hsorted⟩ := hnew.delayed
  have hlisted : l = [1, 0] := hseg.unique ⟨rfl, rfl, rfl⟩
  subst hlisted
  revert hsorted
  decide

end

end Hero.Runtime
