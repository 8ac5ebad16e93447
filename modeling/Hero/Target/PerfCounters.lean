import Hero.Framework.Machine
import Mathlib.Data.BitVec
import Mathlib.Data.Finset.Basic

/-!
# Performance counters

The allocation of hardware counters to events in `hero-target`.  The library keeps a mask of free
counters; which event a programmable counter counts is read back from the event registers, in
which zero stands for no event.
-/

namespace Hero.Target

/-- `hero_perf_event_t`; `other` are the values the platform does not know. -/
inductive PerfEvent where
  | cycle
  | instrRetired
  | load
  | store
  | loadExternal
  | storeExternal
  | stallLoad
  | other (code : Nat)
  deriving DecidableEq, Repr

def hpmProgrammableCounters : Nat := 2

def heroEbusy : Int := 16
def heroEnodev : Int := 19
def heroEinval : Int := 22
def heroEalready : Int := 114

/-- The state of the counters of a core. -/
structure PerfState where
  /-- `hero_perf[core]->mcountinhibit`, in which a cleared bit marks an allocated counter -/
  mcountinhibit : BitVec 32
  /-- the register 0x320, in which a cleared bit lets a counter count -/
  inhibit : BitVec 32
  /-- the registers from 0x323 on, by counter -/
  mhpmevent : Nat → BitVec 32
  /-- the registers from 0xB00 on -/
  mhpmcounter : Nat → BitVec 32

namespace PerfEvent

def eventNum : PerfEvent → Nat
  | cycle => 0
  | instrRetired => 2
  | stallLoad => 1
  | load => 4
  | store => 5
  | loadExternal => 15
  | storeExternal => 16
  | other _ => 0

def eventStatic : PerfEvent → Bool
  | cycle => true
  | instrRetired => true
  | _ => false

def eventImplemented (e : PerfEvent) : Bool := e.eventStatic || e.eventNum != 0

end PerfEvent

namespace PerfState

open PerfEvent

def setMhpmevent (s : PerfState) (counter : Nat) (event : BitVec 32) : PerfState :=
  if 3 ≤ counter ∧ counter ≤ 31 then
    { s with mhpmevent := Function.update s.mhpmevent counter event }
  else s

def getMhpmevent (s : PerfState) (counter : Nat) : BitVec 32 :=
  if 3 ≤ counter ∧ counter ≤ 31 then s.mhpmevent counter else 0

def counterAllocated (s : PerfState) (counter : Nat) : Bool :=
  (s.mcountinhibit >>> counter) &&& 1 = 0

/-- The counter allocated for an event; `none` is -1. -/
def eventCounter (s : PerfState) (e : PerfEvent) : Option Nat :=
  if e.eventStatic then
    if s.counterAllocated e.eventNum then some e.eventNum else none
  else
    (List.range' 3 hpmProgrammableCounters).find? fun i =>
      s.getMhpmevent i = BitVec.ofNat 32 e.eventNum

def inhibitDisableMask (counter : Nat) : BitVec 32 := 1#32 <<< counter
def inhibitEnableMask (counter : Nat) : BitVec 32 := ~~~inhibitDisableMask counter

def counterInhibit (s : PerfState) (counter : Nat) : PerfState :=
  { s with inhibit := s.inhibit ||| inhibitDisableMask counter }

def counterUninhibit (s : PerfState) (counter : Nat) : PerfState :=
  { s with inhibit := s.inhibit &&& ~~~inhibitDisableMask counter }

def counterReset (s : PerfState) (counter : Nat) : PerfState :=
  if counter = 0 ∨ 2 ≤ counter ∧ counter ≤ 31 then
    { s with mhpmcounter := Function.update s.mhpmcounter counter 0 }
  else s

/-- `p.ff1`: the position of the first set bit, 32 if there is none. -/
def ff1 (x : BitVec 32) : Nat := ((List.range 32).find? fun i => x.getLsbD i).getD 32

/-- The counter `hero_perf_alloc` takes for an event that has none. -/
def counterFor (s : PerfState) (e : PerfEvent) : Option Nat :=
  if e = .cycle then some 0
  else if e = .instrRetired then some 2
  else
    let firstFreeCounter := ff1 (s.mcountinhibit >>> 3)
    if 2 ≤ firstFreeCounter then none else some (firstFreeCounter + 3)

/-- The end of `hero_perf_alloc`. -/
def assign (s : PerfState) (e : PerfEvent) (counter : Nat) : PerfState :=
  let s := { s with mcountinhibit := s.mcountinhibit &&& inhibitEnableMask counter }
  ((s.setMhpmevent counter (BitVec.ofNat 32 e.eventNum)).counterInhibit counter).counterReset counter

/-- The end of `hero_perf_dealloc`. -/
def unassign (s : PerfState) (counter : Nat) : PerfState :=
  let s := (s.counterInhibit counter).setMhpmevent counter 0
  { s with mcountinhibit := s.mcountinhibit ||| inhibitDisableMask counter }

def heroPerfAlloc (s : PerfState) (e : PerfEvent) : PerfState × Int :=
  if ¬ e.eventImplemented then (s, -heroEnodev)
  else if (s.eventCounter e).isSome then (s, -heroEalready)
  else match s.counterFor e with
    | none => (s, -heroEbusy)
    | some counter => (s.assign e counter, 0)

def heroPerfDealloc (s : PerfState) (e : PerfEvent) : PerfState × Int :=
  match s.eventCounter e with
  | none => (s, -heroEalready)
  | some counter => (s.unassign counter, 0)

/-- `hero_perf_reset`, `hero_perf_pause` and `hero_perf_continue` act on the counter of an event. -/
def onCounter (act : PerfState → Nat → PerfState) (s : PerfState) (e : PerfEvent) :
    PerfState × Int :=
  match s.eventCounter e with
  | none => (s, -heroEinval)
  | some counter => (act s counter, 0)

def heroPerfReset : PerfState → PerfEvent → PerfState × Int := onCounter counterReset
def heroPerfPause : PerfState → PerfEvent → PerfState × Int := onCounter counterInhibit
def heroPerfContinue : PerfState → PerfEvent → PerfState × Int := onCounter counterUninhibit

def heroPerfRead (s : PerfState) (e : PerfEvent) : Int :=
  match s.eventCounter e with
  | none => -heroEinval
  | some counter => (s.mhpmcounter counter).toNat

def heroPerfResetAll (s : PerfState) : PerfState :=
  (List.range (3 + hpmProgrammableCounters)).foldl counterReset s

def heroPerfPauseAll (s : PerfState) : PerfState := { s with inhibit := ~~~0 }

def heroPerfContinueAll (s : PerfState) : PerfState :=
  { s with inhibit := s.inhibit &&& ~~~(~~~s.mcountinhibit) }

/-- `hero_perf_init` on a core that has memory for the state. -/
def heroPerfInit (s : PerfState) : PerfState :=
  let s := { s with mcountinhibit := ~~~0 }
  ((List.range' 3 hpmProgrammableCounters).foldl (fun s i => s.setMhpmevent i 0) s).heroPerfPauseAll

/-- The hardware counts on, each counter that is not inhibited by some number. -/
def count (s : PerfState) (n : Nat → BitVec 32) : PerfState :=
  { s with mhpmcounter := fun i =>
      if s.inhibit.getLsbD i then s.mhpmcounter i else s.mhpmcounter i + n i }

end PerfState

inductive PerfOp where
  | alloc (e : PerfEvent)
  | dealloc (e : PerfEvent)
  | reset (e : PerfEvent)
  | pause (e : PerfEvent)
  | cont (e : PerfEvent)
  | read (e : PerfEvent)
  | resetAll
  | pauseAll
  | continueAll
  | count (n : Nat → BitVec 32)

/-- An operation and what it returns. -/
def PerfState.step (s : PerfState) : PerfOp → PerfState × Int
  | .alloc e => s.heroPerfAlloc e
  | .dealloc e => s.heroPerfDealloc e
  | .reset e => s.heroPerfReset e
  | .pause e => s.heroPerfPause e
  | .cont e => s.heroPerfContinue e
  | .read e => (s, s.heroPerfRead e)
  | .resetAll => (s.heroPerfResetAll, 0)
  | .pauseAll => (s.heroPerfPauseAll, 0)
  | .continueAll => (s.heroPerfContinueAll, 0)
  | .count n => (s.count n, 0)

/-- The counters together with the events that were allocated and not deallocated since. -/
structure PerfRun where
  perf : PerfState
  allocated : PerfEvent → Bool

def PerfRun.track (allocated : PerfEvent → Bool) (op : PerfOp) (ret : Int) : PerfEvent → Bool :=
  match op with
  | .alloc e => if ret = 0 then Function.update allocated e true else allocated
  | .dealloc e => if ret = 0 then Function.update allocated e false else allocated
  | _ => allocated

/-- Sequences of operations on a core. -/
def perfCounters : Machine PerfRun PerfOp Int := fun t op =>
  let (perf, ret) := t.perf.step op
  some (⟨perf, PerfRun.track t.allocated op ret⟩, [ret])

/-- A core after `hero_perf_init`, whatever its registers held before. -/
def PerfRun.start (s : PerfState) : PerfRun := ⟨s.heroPerfInit, fun _ => false⟩

/-- Two allocated events do not have the same counter. -/
def PerfRun.Apart (t : PerfRun) : Prop :=
  ∀ e e' c, t.allocated e → t.allocated e' → t.perf.eventCounter e = some c →
    t.perf.eventCounter e' = some c → e = e'

/-- What an operation does right: it keeps the counters of allocated events apart, a read succeeds
exactly on an allocated event, a failure changes nothing, and what was deallocated can be
allocated again, by the same event or, for the programmable counters, by another one. -/
structure PerfRun.Good (t : PerfRun) (op : PerfOp) : Prop where
  before : t.Apart
  after : ∀ t' h, perfCounters t op = some (t', h) → t'.Apart
  read : ∀ e, op = .read e → (0 ≤ (t.perf.step op).2 ↔ t.allocated e = true)
  failure : (t.perf.step op).2 < 0 →
    (t.perf.step op).1 = t.perf ∧ PerfRun.track t.allocated op (t.perf.step op).2 = t.allocated
  again : ∀ e e', op = .dealloc e → t.allocated e → e = e' ∨ e.eventStatic = false ∧
      e'.eventStatic = false ∧ e'.eventImplemented ∧ t.allocated e' = false →
    ((t.perf.step op).1.heroPerfAlloc e').2 = 0

/-- An event that is not implemented is read only while no programmable counter is free. -/
def PerfRun.Implemented (t : PerfRun) (op : PerfOp) : Prop :=
  ∀ e, op = .read e → e.eventImplemented = false →
    t.perf.counterAllocated 3 ∧ t.perf.counterAllocated 4

section Registers

variable {s : PerfState} {x : BitVec 32} {c i : Nat} {e e' : PerfEvent}

open PerfState PerfEvent

private theorem getLsbD_mask (hi : i < 32) :
    (inhibitDisableMask c).getLsbD i = decide (i = c) := by
  rw [inhibitDisableMask, BitVec.getLsbD_shiftLeft]
  have hone : (1#32).getLsbD (i - c) = decide (i - c = 0) := by
    rw [BitVec.getLsbD_one]
    simp
  rw [hone]
  by_cases hic : i = c
  · simp [hic, hic ▸ hi]
  · by_cases hlt : i < c
    · simp [hlt, hic]
    · have hne : i - c ≠ 0 := by omega
      simp [hne, hic]

private theorem getLsbD_enable (hi : i < 32) :
    (x &&& inhibitEnableMask c).getLsbD i = (x.getLsbD i && decide (i ≠ c)) := by
  rw [inhibitEnableMask, BitVec.getLsbD_and, BitVec.getLsbD_not, getLsbD_mask hi]
  simp [hi]

private theorem getLsbD_disable (hi : i < 32) :
    (x ||| inhibitDisableMask c).getLsbD i = (x.getLsbD i || decide (i = c)) := by
  rw [BitVec.getLsbD_or, getLsbD_mask hi]

theorem counterAllocated_eq : s.counterAllocated c = !s.mcountinhibit.getLsbD c := by
  have hbit : ((s.mcountinhibit >>> c) &&& 1 = 0) ↔ s.mcountinhibit.getLsbD c = false := by
    constructor
    · intro h
      have hzero := congrArg (BitVec.getLsbD · 0) h
      simpa using hzero
    · intro h
      apply BitVec.eq_of_getLsbD_eq
      intro j _
      by_cases hj : j = 0
      · simp [hj, h]
      · simp [hj, BitVec.getLsbD_one]
  rw [counterAllocated, Bool.eq_iff_iff]
  simpa using hbit

theorem eventCounter_static (h : e.eventStatic = true) :
    s.eventCounter e = if s.mcountinhibit.getLsbD e.eventNum then none else some e.eventNum := by
  rw [eventCounter, if_pos h, counterAllocated_eq]
  cases s.mcountinhibit.getLsbD e.eventNum <;> rfl

theorem eventCounter_dynamic (h : e.eventStatic = false) :
    s.eventCounter e = if s.mhpmevent 3 = BitVec.ofNat 32 e.eventNum then some 3
      else if s.mhpmevent 4 = BitVec.ofNat 32 e.eventNum then some 4 else none := by
  have hrange : List.range' 3 hpmProgrammableCounters = [3, 4] := rfl
  rw [eventCounter, if_neg (by simp [h]), hrange]
  by_cases h3 : s.mhpmevent 3 = BitVec.ofNat 32 e.eventNum
  · simp [List.find?, getMhpmevent, h3]
  · by_cases h4 : s.mhpmevent 4 = BitVec.ofNat 32 e.eventNum
    · simp [List.find?, getMhpmevent, h3, h4]
    · simp [List.find?, getMhpmevent, h3, h4]

/-- Implemented events of the programmable counters are told apart by their numbers. -/
theorem eventNum_inj (h : e.eventStatic = false) (hi : e.eventImplemented = true)
    (h' : e'.eventStatic = false) (heq : BitVec.ofNat 32 e.eventNum = BitVec.ofNat 32 e'.eventNum) :
    e = e' := by
  cases e <;> cases e' <;> simp_all [eventStatic, eventImplemented, eventNum]

theorem eventNum_static_inj (h : e.eventStatic = true) (h' : e'.eventStatic = true)
    (heq : e.eventNum = e'.eventNum) : e = e' := by
  cases e <;> cases e' <;> simp_all [eventStatic, eventNum]

theorem eventNum_ne_zero (h : e.eventStatic = false) (hi : e.eventImplemented = true) :
    BitVec.ofNat 32 e.eventNum ≠ 0 := by
  cases e <;> simp_all [eventStatic, eventImplemented, eventNum]

theorem eventNum_zero (hi : e.eventImplemented = false) : e.eventStatic = false ∧ e.eventNum = 0 := by
  cases e <;> simp_all [eventStatic, eventImplemented, eventNum]

private theorem ff1_eq (x : BitVec 32) :
    ff1 x = if x.getLsbD 0 then 0 else if x.getLsbD 1 then 1
      else ((List.range' 2 30).find? fun i => x.getLsbD i).getD 32 := by
  have hrange : List.range 32 = 0 :: 1 :: List.range' 2 30 := by decide
  rw [ff1, hrange, List.find?_cons, List.find?_cons]
  cases x.getLsbD 0 <;> cases x.getLsbD 1 <;> rfl

private theorem two_le_late (x : BitVec 32) :
    2 ≤ ((List.range' 2 30).find? fun i => x.getLsbD i).getD 32 := by
  cases hfind : (List.range' 2 30).find? fun i => x.getLsbD i with
  | none => decide
  | some j =>
    have hj := List.mem_of_find?_eq_some hfind
    rw [List.mem_range'] at hj
    obtain ⟨k, -, rfl⟩ := hj
    exact Nat.le_add_right _ _

/-- The counter taken for an event of the programmable counters is the first free one. -/
theorem counterFor_dynamic (h : e.eventStatic = false) :
    s.counterFor e = if s.mcountinhibit.getLsbD 3 then some 3
      else if s.mcountinhibit.getLsbD 4 then some 4 else none := by
  have hcycle : e ≠ .cycle := by
    rintro rfl
    cases h
  have hinstr : e ≠ .instrRetired := by
    rintro rfl
    cases h
  have hlate := two_le_late (s.mcountinhibit >>> 3)
  simp only [counterFor, hcycle, hinstr, if_false, ff1_eq, BitVec.getLsbD_ushiftRight] at hlate ⊢
  cases s.mcountinhibit.getLsbD 3 with
  | true => rfl
  | false =>
    cases s.mcountinhibit.getLsbD (3 + 1) with
    | true => rfl
    | false => exact if_pos hlate

@[simp] theorem setMhpmevent_mcountinhibit (x : BitVec 32) :
    (s.setMhpmevent c x).mcountinhibit = s.mcountinhibit := by
  unfold setMhpmevent
  split <;> rfl

theorem setMhpmevent_mhpmevent (x : BitVec 32) : (s.setMhpmevent c x).mhpmevent =
    if 3 ≤ c ∧ c ≤ 31 then Function.update s.mhpmevent c x else s.mhpmevent := by
  unfold setMhpmevent
  split <;> rfl

@[simp] theorem counterReset_mcountinhibit : (s.counterReset c).mcountinhibit = s.mcountinhibit := by
  unfold counterReset
  split <;> rfl

@[simp] theorem counterReset_mhpmevent : (s.counterReset c).mhpmevent = s.mhpmevent := by
  unfold counterReset
  split <;> rfl

@[simp] theorem assign_mcountinhibit :
    (s.assign e c).mcountinhibit = s.mcountinhibit &&& inhibitEnableMask c := by
  simp [assign, counterInhibit]

@[simp] theorem assign_mhpmevent : (s.assign e c).mhpmevent = if 3 ≤ c ∧ c ≤ 31 then
    Function.update s.mhpmevent c (BitVec.ofNat 32 e.eventNum) else s.mhpmevent := by
  simp [assign, counterInhibit, setMhpmevent_mhpmevent]

@[simp] theorem unassign_mcountinhibit :
    (s.unassign c).mcountinhibit = s.mcountinhibit ||| inhibitDisableMask c := by
  simp [unassign, counterInhibit]

@[simp] theorem unassign_mhpmevent : (s.unassign c).mhpmevent =
    if 3 ≤ c ∧ c ≤ 31 then Function.update s.mhpmevent c 0 else s.mhpmevent := by
  simp [unassign, counterInhibit, setMhpmevent_mhpmevent]

private theorem resetAll_registers : s.heroPerfResetAll.mcountinhibit = s.mcountinhibit ∧
    s.heroPerfResetAll.mhpmevent = s.mhpmevent := by
  unfold heroPerfResetAll
  induction List.range (3 + hpmProgrammableCounters) generalizing s with
  | nil => exact ⟨rfl, rfl⟩
  | cons i is ih =>
    rw [List.foldl_cons]
    obtain ⟨hmask, hevents⟩ := @ih (s.counterReset i)
    exact ⟨hmask.trans counterReset_mcountinhibit, hevents.trans counterReset_mhpmevent⟩

/-- The counter an event has: its own one, or the register that holds its number. -/
theorem eventCounter_eq_some (h : s.eventCounter e = some c) :
    e.eventStatic = true ∧ c = e.eventNum ∨
      e.eventStatic = false ∧ (c = 3 ∨ c = 4) ∧ s.mhpmevent c = BitVec.ofNat 32 e.eventNum := by
  cases hs : e.eventStatic with
  | true =>
    rw [eventCounter_static hs] at h
    split at h
    · cases h
    · cases h
      exact Or.inl ⟨rfl, rfl⟩
  | false =>
    rw [eventCounter_dynamic hs] at h
    right
    split at h
    · next h3 =>
      cases h
      exact ⟨rfl, Or.inl rfl, h3⟩
    · split at h
      · next h4 =>
        cases h
        exact ⟨rfl, Or.inr rfl, h4⟩
      · cases h

theorem counterFor_eq_some (h : s.counterFor e = some c) :
    e.eventStatic = true ∧ c = e.eventNum ∨
      e.eventStatic = false ∧ (c = 3 ∨ c = 4) ∧ s.mcountinhibit.getLsbD c = true := by
  cases hs : e.eventStatic with
  | true =>
    left
    cases e <;> simp_all [eventStatic, eventNum, counterFor]
  | false =>
    rw [counterFor_dynamic hs] at h
    right
    split at h
    · next h3 =>
      cases h
      exact ⟨rfl, Or.inl rfl, h3⟩
    · split at h
      · next h4 =>
        cases h
        exact ⟨rfl, Or.inr rfl, h4⟩
      · cases h

theorem eventNum_static_lt (h : e.eventStatic = true) : e.eventNum < 3 := by
  cases e <;> simp_all [eventStatic, eventNum]

end Registers

/-- The mask, the event registers and the allocated events agree, and no event is in two
registers. -/
structure PerfRun.Inv (t : PerfRun) : Prop where
  fixed : ∀ e, e.eventStatic = true →
    t.perf.mcountinhibit.getLsbD e.eventNum = !t.allocated e
  free : ∀ c, c = 3 ∨ c = 4 →
    t.perf.mcountinhibit.getLsbD c = decide (t.perf.mhpmevent c = 0)
  dynamic : ∀ e, e.eventStatic = false → (t.allocated e = true ↔ e.eventImplemented = true ∧
    ∃ c, (c = 3 ∨ c = 4) ∧ t.perf.mhpmevent c = BitVec.ofNat 32 e.eventNum)
  distinct : t.perf.mhpmevent 3 = t.perf.mhpmevent 4 → t.perf.mhpmevent 3 = 0

section Runs

variable {t t' : PerfRun} {s : PerfState} {op : PerfOp} {e e' : PerfEvent} {c : Nat} {h : List Int}

open PerfState PerfEvent

theorem PerfRun.Inv.congr (hinv : t.Inv) (hmask : t'.perf.mcountinhibit = t.perf.mcountinhibit)
    (hevents : t'.perf.mhpmevent = t.perf.mhpmevent) (halloc : t'.allocated = t.allocated) :
    t'.Inv := by
  constructor
  · rw [hmask, halloc]
    exact hinv.fixed
  · rw [hmask, hevents]
    exact hinv.free
  · rw [hevents, halloc]
    exact hinv.dynamic
  · rw [hevents]
    exact hinv.distinct

/-- An implemented event has a counter exactly while it is allocated. -/
theorem PerfRun.Inv.counter_iff (hinv : t.Inv) (hi : e.eventImplemented = true) :
    (t.perf.eventCounter e).isSome = t.allocated e := by
  cases hs : e.eventStatic with
  | true =>
    have hbit := hinv.fixed e hs
    rw [eventCounter_static hs, hbit]
    cases t.allocated e <;> rfl
  | false =>
    have hdyn := hinv.dynamic e hs
    rw [eventCounter_dynamic hs, Bool.eq_iff_iff, hdyn]
    by_cases h3 : t.perf.mhpmevent 3 = BitVec.ofNat 32 e.eventNum
    · simp only [h3, if_true, Option.isSome_some, true_iff]
      exact ⟨hi, 3, Or.inl rfl, h3⟩
    · by_cases h4 : t.perf.mhpmevent 4 = BitVec.ofNat 32 e.eventNum
      · simp only [h3, h4, if_false, if_true, Option.isSome_some, true_iff]
        exact ⟨hi, 4, Or.inr rfl, h4⟩
      · simp only [h3, h4, if_false, Option.isSome_none, Bool.false_eq_true, false_iff]
        rintro ⟨-, c, rfl | rfl, hc⟩
        · exact h3 hc
        · exact h4 hc

/-- An event that is not implemented has a counter exactly while a programmable one is free. -/
theorem PerfRun.Inv.counter_other (hinv : t.Inv) (hi : e.eventImplemented = false) :
    (t.perf.eventCounter e).isSome = !(t.perf.counterAllocated 3 && t.perf.counterAllocated 4) := by
  obtain ⟨hs, hnum⟩ := eventNum_zero hi
  rw [eventCounter_dynamic hs, counterAllocated_eq, counterAllocated_eq, hinv.free 3 (Or.inl rfl),
    hinv.free 4 (Or.inr rfl), hnum, BitVec.ofNat_eq_ofNat]
  by_cases h3 : t.perf.mhpmevent 3 = 0#32
  · simp [h3]
  · by_cases h4 : t.perf.mhpmevent 4 = 0#32
    · simp [h3, h4]
    · simp [h3, h4]

theorem PerfRun.Inv.not_allocated (hinv : t.Inv) (hi : e.eventImplemented = false) :
    t.allocated e = false := by
  obtain ⟨hs, -⟩ := eventNum_zero hi
  rw [← Bool.not_eq_true, hinv.dynamic e hs, hi]
  rintro ⟨hfalse, -⟩
  cases hfalse

theorem PerfRun.Inv.apart (hinv : t.Inv) : t.Apart := by
  intro e e' c he he' hc hc'
  have himpl : ∀ e, t.allocated e = true → e.eventImplemented = true := by
    intro e he
    cases hi : e.eventImplemented with
    | true => rfl
    | false => rw [hinv.not_allocated hi] at he; exact he
  rcases eventCounter_eq_some hc with ⟨hs, hnum⟩ | ⟨hs, hprog, hnum⟩
  · have hlt := eventNum_static_lt hs
    rcases eventCounter_eq_some hc' with ⟨hs', hnum'⟩ | ⟨-, hprog', -⟩
    · exact eventNum_static_inj hs hs' (hnum.symm.trans hnum')
    · omega
  · rcases eventCounter_eq_some hc' with ⟨hs', hnum'⟩ | ⟨hs', -, hnum'⟩
    · have hlt := eventNum_static_lt hs'
      omega
    · exact eventNum_inj hs (himpl e he) hs' (hnum.symm.trans hnum')

private theorem ne_of_static (hs : e.eventStatic = true) (hs' : e'.eventStatic = false) : e ≠ e' := by
  rintro rfl
  rw [hs] at hs'
  cases hs'

theorem PerfRun.Inv.assign (hinv : t.Inv) (hi : e.eventImplemented = true)
    (hnew : t.allocated e = false) (hc : t.perf.counterFor e = some c) :
    (⟨t.perf.assign e c, Function.update t.allocated e true⟩ : PerfRun).Inv := by
  rcases counterFor_eq_some hc with ⟨hs, rfl⟩ | ⟨hs, hprog, hbit⟩
  · have hlt := eventNum_static_lt hs
    constructor
    · intro e' hs'
      have hlt' := eventNum_static_lt hs'
      have hfix := hinv.fixed e' hs'
      simp only [assign_mcountinhibit, getLsbD_enable (by omega : e'.eventNum < 32), hfix]
      by_cases heq : e' = e
      · simp [heq]
      · have hne : e'.eventNum ≠ e.eventNum := fun h => heq (eventNum_static_inj hs' hs h)
        simp [heq, hne]
    · intro c hprog
      have hfree := hinv.free c hprog
      have hne : c ≠ e.eventNum := by omega
      simp only [assign_mcountinhibit, assign_mhpmevent, getLsbD_enable (by omega : c < 32), hfree,
        if_neg (by omega : ¬ (3 ≤ e.eventNum ∧ e.eventNum ≤ 31))]
      simp [hne]
    · intro e' hs'
      have hne := (ne_of_static hs hs').symm
      simp only [assign_mhpmevent, if_neg (by omega : ¬ (3 ≤ e.eventNum ∧ e.eventNum ≤ 31)),
        Function.update_of_ne hne]
      exact hinv.dynamic e' hs'
    · simp only [assign_mhpmevent, if_neg (by omega : ¬ (3 ≤ e.eventNum ∧ e.eventNum ≤ 31))]
      exact hinv.distinct
  · have hnum := eventNum_ne_zero hs hi
    have hzero : t.perf.mhpmevent c = 0 := by
      have hfree := hinv.free c hprog
      rw [hbit] at hfree
      simpa using hfree
    have habsent : ∀ c', c' = 3 ∨ c' = 4 → t.perf.mhpmevent c' ≠ BitVec.ofNat 32 e.eventNum := by
      intro c' hc' heq
      have halloc := (hinv.dynamic e hs).mpr ⟨hi, c', hc', heq⟩
      rw [hnew] at halloc
      cases halloc
    have hin : 3 ≤ c ∧ c ≤ 31 := by omega
    constructor
    · intro e' hs'
      have hlt' := eventNum_static_lt hs'
      have hne : e'.eventNum ≠ c := by omega
      simp only [assign_mcountinhibit, getLsbD_enable (by omega : e'.eventNum < 32),
        hinv.fixed e' hs', Function.update_of_ne (ne_of_static hs' hs)]
      simp [hne]
    · intro c' hprog'
      simp only [assign_mcountinhibit, assign_mhpmevent, if_pos hin,
        getLsbD_enable (by omega : c' < 32), hinv.free c' hprog']
      by_cases heq : c' = c
      · subst heq
        simp only [Function.update_self]
        simpa using hnum
      · simp [heq]
    · intro e' hs'
      simp only [assign_mhpmevent, if_pos hin]
      by_cases heq : e' = e
      · subst heq
        simp only [Function.update_self, true_iff]
        exact ⟨hi, c, hprog, Function.update_self _ _ _⟩
      · simp only [Function.update_of_ne heq, hinv.dynamic e' hs']
        apply and_congr_right
        intro hi'
        constructor
        · rintro ⟨c', hprog', hc'⟩
          have hne : c' ≠ c := by
            rintro rfl
            rw [hzero] at hc'
            exact eventNum_ne_zero hs' hi' hc'.symm
          exact ⟨c', hprog', by rw [Function.update_of_ne hne, hc']⟩
        · rintro ⟨c', hprog', hc'⟩
          by_cases hcc : c' = c
          · subst hcc
            rw [Function.update_self] at hc'
            exact absurd (eventNum_inj hs' hi' hs hc'.symm) heq
          · rw [Function.update_of_ne hcc] at hc'
            exact ⟨c', hprog', hc'⟩
    · simp only [assign_mhpmevent, if_pos hin]
      intro heq
      rcases hprog with rfl | rfl
      · rw [Function.update_self, Function.update_of_ne (by decide)] at heq
        exact absurd heq.symm (habsent 4 (Or.inr rfl))
      · rw [Function.update_of_ne (by decide), Function.update_self] at heq
        exact absurd heq (habsent 3 (Or.inl rfl))

theorem PerfRun.Inv.unassign (hinv : t.Inv) (hc : t.perf.eventCounter e = some c) :
    (⟨t.perf.unassign c, Function.update t.allocated e false⟩ : PerfRun).Inv := by
  rcases eventCounter_eq_some hc with ⟨hs, rfl⟩ | ⟨hs, hprog, hnum⟩
  · have hlt := eventNum_static_lt hs
    constructor
    · intro e' hs'
      have hlt' := eventNum_static_lt hs'
      simp only [unassign_mcountinhibit, getLsbD_disable (by omega : e'.eventNum < 32),
        hinv.fixed e' hs']
      by_cases heq : e' = e
      · simp [heq]
      · have hne : e'.eventNum ≠ e.eventNum := fun h => heq (eventNum_static_inj hs' hs h)
        simp [heq, hne]
    · intro c hprog
      have hne : c ≠ e.eventNum := by omega
      simp only [unassign_mcountinhibit, unassign_mhpmevent, getLsbD_disable (by omega : c < 32),
        hinv.free c hprog, if_neg (by omega : ¬ (3 ≤ e.eventNum ∧ e.eventNum ≤ 31))]
      simp [hne]
    · intro e' hs'
      have hne := (ne_of_static hs hs').symm
      simp only [unassign_mhpmevent, if_neg (by omega : ¬ (3 ≤ e.eventNum ∧ e.eventNum ≤ 31)),
        Function.update_of_ne hne]
      exact hinv.dynamic e' hs'
    · simp only [unassign_mhpmevent, if_neg (by omega : ¬ (3 ≤ e.eventNum ∧ e.eventNum ≤ 31))]
      exact hinv.distinct
  · have hin : 3 ≤ c ∧ c ≤ 31 := by omega
    constructor
    · intro e' hs'
      have hlt' := eventNum_static_lt hs'
      have hne : e'.eventNum ≠ c := by omega
      simp only [unassign_mcountinhibit, getLsbD_disable (by omega : e'.eventNum < 32),
        hinv.fixed e' hs', Function.update_of_ne (ne_of_static hs' hs)]
      simp [hne]
    · intro c' hprog'
      simp only [unassign_mcountinhibit, unassign_mhpmevent, if_pos hin,
        getLsbD_disable (by omega : c' < 32), hinv.free c' hprog']
      by_cases heq : c' = c
      · simp [heq]
      · simp [heq]
    · intro e' hs'
      simp only [unassign_mhpmevent, if_pos hin]
      by_cases heq : e' = e
      · subst heq
        simp only [Function.update_self, Bool.false_eq_true, false_iff]
        rintro ⟨hi, c', hprog', hc'⟩
        have hne0 := eventNum_ne_zero hs hi
        by_cases hcc : c' = c
        · subst hcc
          rw [Function.update_self] at hc'
          exact hne0 hc'.symm
        · rw [Function.update_of_ne hcc] at hc'
          have hsame : t.perf.mhpmevent 3 = t.perf.mhpmevent 4 := by
            rcases hprog with rfl | rfl <;> rcases hprog' with rfl | rfl
            · exact absurd rfl hcc
            · rw [hnum, hc']
            · rw [hnum, hc']
            · exact absurd rfl hcc
          have hzero := hinv.distinct hsame
          rcases hprog with rfl | rfl
          · exact hne0 (hnum.symm.trans hzero)
          · exact hne0 ((hnum.symm.trans hsame.symm).trans hzero)
      · simp only [Function.update_of_ne heq, hinv.dynamic e' hs']
        apply and_congr_right
        intro hi'
        constructor
        · rintro ⟨c', hprog', hc'⟩
          have hne : c' ≠ c := by
            rintro rfl
            have hsame := hc'.symm.trans hnum
            exact heq (eventNum_inj hs' hi' hs hsame)
          exact ⟨c', hprog', by rw [Function.update_of_ne hne, hc']⟩
        · rintro ⟨c', hprog', hc'⟩
          have hne : c' ≠ c := by
            rintro rfl
            rw [Function.update_self] at hc'
            exact eventNum_ne_zero hs' hi' hc'.symm
          rw [Function.update_of_ne hne] at hc'
          exact ⟨c', hprog', hc'⟩
    · simp only [unassign_mhpmevent, if_pos hin]
      intro heq
      rcases hprog with rfl | rfl
      · exact Function.update_self _ _ _
      · rw [heq, Function.update_self]

theorem PerfRun.Inv.start (s : PerfState) : (PerfRun.start s).Inv := by
  have hrange : List.range' 3 hpmProgrammableCounters = [3, 4] := rfl
  have hmask : (PerfRun.start s).perf.mcountinhibit = ~~~0#32 := by
    simp [PerfRun.start, heroPerfInit, heroPerfPauseAll, hrange]
  have hevents : ∀ c, c = 3 ∨ c = 4 → (PerfRun.start s).perf.mhpmevent c = 0 := by
    intro c hc
    rcases hc with rfl | rfl <;>
      simp [PerfRun.start, heroPerfInit, heroPerfPauseAll, hrange, setMhpmevent_mhpmevent]
  have hbit : ∀ c, c < 32 → (~~~0#32).getLsbD c = true := by
    intro c hc
    rw [BitVec.getLsbD_not]
    simp [hc]
  constructor
  · intro e hs
    have hlt := eventNum_static_lt hs
    rw [hmask, hbit _ (by omega)]
    rfl
  · intro c hc
    rw [hmask, hevents c hc, hbit c (by omega)]
    rfl
  · intro e hs
    simp only [PerfRun.start, Bool.false_eq_true, false_iff]
    intro h
    obtain ⟨hi, c, hc, hnum⟩ := h
    exact eventNum_ne_zero hs hi (hnum.symm.trans (hevents c hc))
  · intro _
    exact hevents 3 (Or.inl rfl)

private theorem step_onCounter {act : PerfState → Nat → PerfState} (hinv : t.Inv)
    (hmask : ∀ s c, (act s c).mcountinhibit = s.mcountinhibit)
    (hevents : ∀ s c, (act s c).mhpmevent = s.mhpmevent) :
    (⟨(onCounter act t.perf e).1, t.allocated⟩ : PerfRun).Inv := by
  unfold onCounter
  cases t.perf.eventCounter e with
  | none => exact hinv
  | some c => exact hinv.congr (hmask _ _) (hevents _ _) rfl

/-- An allocation fails and changes nothing, or assigns a counter to an event that has none. -/
theorem heroPerfAlloc_cases (s : PerfState) (e : PerfEvent) :
    (∃ error, error < 0 ∧ s.heroPerfAlloc e = (s, error)) ∨
      e.eventImplemented = true ∧ (s.eventCounter e).isSome = false ∧
        ∃ c, s.counterFor e = some c ∧ s.heroPerfAlloc e = (s.assign e c, 0) := by
  cases hi : e.eventImplemented with
  | false => exact Or.inl ⟨-heroEnodev, by decide, by simp [heroPerfAlloc, hi]⟩
  | true =>
    cases hnone : (s.eventCounter e).isSome with
    | true => exact Or.inl ⟨-heroEalready, by decide, by simp [heroPerfAlloc, hi, hnone]⟩
    | false =>
      cases hc : s.counterFor e with
      | none => exact Or.inl ⟨-heroEbusy, by decide, by simp [heroPerfAlloc, hi, hnone, hc]⟩
      | some c => exact Or.inr ⟨rfl, rfl, c, rfl, by simp [heroPerfAlloc, hi, hnone, hc]⟩

private theorem step_alloc (hinv : t.Inv) : (⟨(t.perf.heroPerfAlloc e).1,
    PerfRun.track t.allocated (.alloc e) (t.perf.heroPerfAlloc e).2⟩ : PerfRun).Inv := by
  rcases heroPerfAlloc_cases t.perf e with ⟨error, hneg, heq⟩ | ⟨hi, hnone, c, hc, heq⟩
  · rw [heq]
    simpa [PerfRun.track, ne_of_lt hneg] using hinv
  · have hnew : t.allocated e = false := by
      rw [← hinv.counter_iff hi, hnone]
    rw [heq]
    exact hinv.assign hi hnew hc

private theorem step_dealloc (hinv : t.Inv) : (⟨(t.perf.heroPerfDealloc e).1,
    PerfRun.track t.allocated (.dealloc e) (t.perf.heroPerfDealloc e).2⟩ : PerfRun).Inv := by
  unfold heroPerfDealloc
  cases hc : t.perf.eventCounter e with
  | none => exact hinv
  | some c => exact hinv.unassign hc

/-- Every operation keeps the registers and the allocated events in agreement. -/
theorem PerfRun.Inv.step (hinv : t.Inv) (hstep : perfCounters t op = some (t', h)) : t'.Inv := by
  simp only [perfCounters, Option.some.injEq, Prod.mk.injEq] at hstep
  obtain ⟨rfl, -⟩ := hstep
  cases op with
  | alloc e => exact step_alloc hinv
  | dealloc e => exact step_dealloc hinv
  | reset e =>
    have hmask : ∀ s c, (counterReset s c).mcountinhibit = s.mcountinhibit :=
      fun _ _ => counterReset_mcountinhibit
    have hevents : ∀ s c, (counterReset s c).mhpmevent = s.mhpmevent :=
      fun _ _ => counterReset_mhpmevent
    exact step_onCounter hinv hmask hevents
  | pause e => exact step_onCounter hinv (fun _ _ => rfl) (fun _ _ => rfl)
  | cont e => exact step_onCounter hinv (fun _ _ => rfl) (fun _ _ => rfl)
  | read e => exact hinv
  | resetAll => exact hinv.congr resetAll_registers.1 resetAll_registers.2 rfl
  | pauseAll => exact hinv.congr rfl rfl rfl
  | continueAll => exact hinv.congr rfl rfl rfl
  | count n => exact hinv.congr rfl rfl rfl

theorem heroPerfRead_nonneg : 0 ≤ s.heroPerfRead e ↔ (s.eventCounter e).isSome = true := by
  unfold heroPerfRead
  cases s.eventCounter e with
  | none => simp [heroEinval]
  | some c => simp

/-- A read tells whether an event is allocated, except that an event that is not implemented
seems allocated while a programmable counter is free. -/
theorem PerfRun.Inv.read_iff (hinv : t.Inv) :
    (0 ≤ t.perf.heroPerfRead e ↔ t.allocated e = true) ↔
      (e.eventImplemented = false → t.perf.counterAllocated 3 ∧ t.perf.counterAllocated 4) := by
  rw [heroPerfRead_nonneg]
  cases hi : e.eventImplemented with
  | true => simp [hinv.counter_iff hi]
  | false =>
    rw [hinv.counter_other hi, hinv.not_allocated hi]
    simp

/-- A failed operation leaves the counters and the allocated events as they are. -/
theorem step_failure (hneg : (t.perf.step op).2 < 0) : (t.perf.step op).1 = t.perf ∧
    PerfRun.track t.allocated op (t.perf.step op).2 = t.allocated := by
  have hcounter : ∀ act e, (onCounter act t.perf e).2 < 0 → (onCounter act t.perf e).1 = t.perf := by
    intro act e hlt
    unfold onCounter at hlt ⊢
    cases hc : t.perf.eventCounter e with
    | none => rfl
    | some c => simp [hc] at hlt
  cases op with
  | alloc e =>
    constructor
    · simp only [PerfState.step] at hneg ⊢
      rcases heroPerfAlloc_cases t.perf e with ⟨error, -, heq⟩ | ⟨-, -, c, -, heq⟩
      · rw [heq]
      · rw [heq] at hneg
        cases hneg
    · exact if_neg (ne_of_lt hneg)
  | dealloc e =>
    constructor
    · simp only [PerfState.step, heroPerfDealloc] at hneg ⊢
      cases hc : t.perf.eventCounter e with
      | none => rfl
      | some c => simp [hc] at hneg
    · exact if_neg (ne_of_lt hneg)
  | reset e => exact ⟨hcounter _ e hneg, rfl⟩
  | pause e => exact ⟨hcounter _ e hneg, rfl⟩
  | cont e => exact ⟨hcounter _ e hneg, rfl⟩
  | read e => exact ⟨rfl, rfl⟩
  | resetAll => cases hneg
  | pauseAll => cases hneg
  | continueAll => cases hneg
  | count n => cases hneg

/-- An event that has no counter is given one if its own one, or a programmable one, is free. -/
theorem PerfRun.Inv.alloc (hinv : t.Inv) (hi : e.eventImplemented = true)
    (hnew : t.allocated e = false)
    (hfree : e.eventStatic = false → ∃ c, (c = 3 ∨ c = 4) ∧ t.perf.mcountinhibit.getLsbD c = true) :
    (t.perf.heroPerfAlloc e).2 = 0 := by
  have hnone : (t.perf.eventCounter e).isSome = false := by
    rw [hinv.counter_iff hi, hnew]
  have hsome : ∃ c, t.perf.counterFor e = some c := by
    cases hs : e.eventStatic with
    | true => cases e <;> simp_all [eventStatic, counterFor]
    | false =>
      obtain ⟨c, hc, hbit⟩ := hfree hs
      rw [counterFor_dynamic hs]
      rcases hc with rfl | rfl
      · exact ⟨3, if_pos hbit⟩
      · cases t.perf.mcountinhibit.getLsbD 3 with
        | true => exact ⟨3, rfl⟩
        | false => exact ⟨4, if_pos hbit⟩
  obtain ⟨c, hc⟩ := hsome
  simp [heroPerfAlloc, hi, hnone, hc]

/-- What was deallocated can be allocated again. -/
theorem PerfRun.Inv.again (hinv : t.Inv) (he : t.allocated e = true)
    (he' : e = e' ∨ e.eventStatic = false ∧ e'.eventStatic = false ∧ e'.eventImplemented ∧
      t.allocated e' = false) : ((t.perf.heroPerfDealloc e).1.heroPerfAlloc e').2 = 0 := by
  have hi : e.eventImplemented = true := by
    cases hi : e.eventImplemented with
    | true => rfl
    | false => rw [hinv.not_allocated hi] at he; cases he
  have hsome := hinv.counter_iff hi
  rw [he, Option.isSome_iff_exists] at hsome
  obtain ⟨c, hc⟩ := hsome
  have hdealloc : (t.perf.heroPerfDealloc e).1 = t.perf.unassign c := by
    simp [heroPerfDealloc, hc]
  have hnext := hinv.unassign hc
  have hfree : e.eventStatic = false →
      ∃ i, (i = 3 ∨ i = 4) ∧ (t.perf.unassign c).mcountinhibit.getLsbD i = true := by
    intro hs
    rcases eventCounter_eq_some hc with ⟨hs', -⟩ | ⟨-, hprog, -⟩
    · rw [hs] at hs'
      cases hs'
    · have hlt : c < 32 := by omega
      exact ⟨c, hprog, by simp [getLsbD_disable hlt]⟩
  rw [hdealloc]
  generalize t.perf.unassign c = s at hnext hfree
  rcases he' with rfl | ⟨hs, hs', hi', hnew⟩
  · have hnew : Function.update t.allocated e false e = false := Function.update_self _ _ _
    exact @PerfRun.Inv.alloc ⟨s, Function.update t.allocated e false⟩ e hnext hi hnew hfree
  · have hne : e' ≠ e := by
      rintro rfl
      rw [he] at hnew
      cases hnew
    have hnew' : Function.update t.allocated e false e' = false := by
      rw [Function.update_of_ne hne, hnew]
    exact @PerfRun.Inv.alloc ⟨s, Function.update t.allocated e false⟩ e' hnext hi' hnew'
      (fun _ => hfree hs)

/-- The operations are good exactly when no event that is not implemented is read while a
programmable counter is free. -/
theorem PerfRun.Inv.good_iff (hinv : t.Inv) : t.Good op ↔ t.Implemented op := by
  constructor
  · intro hgood e hop
    exact (hinv.read_iff).mp (by subst hop; exact hgood.read e rfl)
  · intro himpl
    constructor
    · exact hinv.apart
    · intro t' h hstep
      exact (hinv.step hstep).apart
    · intro e hop
      subst hop
      exact (hinv.read_iff).mpr (himpl e rfl)
    · exact step_failure
    · intro e e' hop he he'
      subst hop
      exact hinv.again he he'

end Runs

/-- Along every sequence of operations from an initialised core, everything is as it should be if
and only if no event that is not implemented is read while a programmable counter is free. -/
theorem hero_perf_good_iff (s : PerfState) (ops : List PerfOp) :
    Machine.Along perfCounters PerfRun.Good (PerfRun.start s) ops ↔
      Machine.Along perfCounters PerfRun.Implemented (PerfRun.start s) ops := by
  exact Machine.along_iff (fun _ _ _ _ hinv _ hstep => PerfRun.Inv.step hinv hstep)
    (fun _ _ hinv => hinv.good_iff) (PerfRun.Inv.start s)

/-- Right after the initialisation, an event that does not exist reads as a count of zero. -/
theorem hero_perf_not_good : ¬ Machine.Along perfCounters PerfRun.Good
    (PerfRun.start ⟨0, 0, fun _ => 0, fun _ => 0⟩) [.read (.other 7)] := by
  intro h
  have hread := (h.1.read (.other 7) rfl).mp (by decide)
  cases hread

end Hero.Target
