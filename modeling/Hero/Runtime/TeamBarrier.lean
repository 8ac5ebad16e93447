import Hero.Framework.BitField
import Hero.Framework.Machine

/-!
# The team barrier in software

One word is the lock, the set of the cores that have arrived and the sign that the round is over: it reads
as all ones while a core holds it, and the last core of the wait mask stores 0.  A core takes the word by
test-and-set, which is when it enters the round, and leaves when it finds its bit clear.
-/

namespace Hero.Runtime

/-- Where a core is in `__rt_team_barrier`.  In the two waiting states it is in `eu_evt_maskWaitAndClr`. -/
inductive BarrierPc where
  | out
  | trying
  | waitingLock
  | holding (status : BitVec 32)
  /-- The word is stored, the event not yet triggered. -/
  | stored
  | polling
  | waitingRelease
  deriving DecidableEq, Repr

/-- The core has entered a round that it has not left. -/
def BarrierPc.Inside : BarrierPc → Prop
  | .out | .trying | .waitingLock => False
  | .holding _ | .stored | .polling | .waitingRelease => True

/-- `__rt_barrier_status`, the cores and the events that are pending for them. -/
structure TeamBarrier where
  status : BitVec 32
  pc : Nat → BarrierPc
  event : Nat → Bool

inductive BarrierEvent where
  | entered (core : Nat)
  | left (core : Nat)
  | released
  deriving DecidableEq, Repr

namespace TeamBarrier

def goto (w : TeamBarrier) (i : Nat) (pc : BarrierPc) : TeamBarrier :=
  { w with pc := Function.update w.pc i pc }

def store (w : TeamBarrier) (status : BitVec 32) : TeamBarrier := { w with status := status }

/-- `eu_evt_trig` with the core set 0, which stands for all cores -/
def trigger (w : TeamBarrier) : TeamBarrier := { w with event := fun _ => true }

def clear (w : TeamBarrier) (i : Nat) : TeamBarrier :=
  { w with event := Function.update w.event i false }

/-- The next access of a core of the mask to the word or to the event unit. -/
def step (mask : BitVec 32) (w : TeamBarrier) (i : Nat) :
    Option (TeamBarrier × List BarrierEvent) :=
  if mask.getLsbD i then match w.pc i with
    | .out => some (w.goto i .trying, [])
    | .trying =>
      if w.status = BitVec.allOnes 32 then some (w.goto i .waitingLock, [])
      else some ((w.store (BitVec.allOnes 32)).goto i (.holding w.status), [.entered i])
    | .waitingLock => if w.event i then some ((w.clear i).goto i .trying, []) else none
    | .holding status =>
      if status ||| 1#32 <<< i = mask then some ((w.store 0#32).goto i .stored, [.released])
      else some ((w.store (status ||| 1#32 <<< i)).goto i .stored, [])
    | .stored => some (w.trigger.goto i .polling, [])
    | .polling =>
      if w.status >>> i &&& 1#32 ≠ 0#32 then some (w.goto i .waitingRelease, [])
      else some (w.goto i .out, [.left i])
    | .waitingRelease => if w.event i then some ((w.clear i).goto i .polling, []) else none
  else none

/-- All cores are outside; events may be pending from before. -/
def start (pending : Nat → Bool) : TeamBarrier := ⟨0#32, fun _ => .out, pending⟩

end TeamBarrier

/-- The cores of the mask in any order. -/
def barrierMachine (mask : BitVec 32) : Machine TeamBarrier Nat BarrierEvent := TeamBarrier.step mask

/-! ### Rounds -/

section Rounds

variable (h : List BarrierEvent)

def enteredRounds (i : Nat) : Nat := h.count (.entered i)
def leftRounds (i : Nat) : Nat := h.count (.left i)
def releasedRounds : Nat := h.count .released

end Rounds

@[simp] theorem enteredRounds_append (h : List BarrierEvent) (es : List BarrierEvent) (i : Nat) :
    enteredRounds (h ++ es) i = enteredRounds h i + es.count (.entered i) := List.count_append

@[simp] theorem leftRounds_append (h : List BarrierEvent) (es : List BarrierEvent) (i : Nat) :
    leftRounds (h ++ es) i = leftRounds h i + es.count (.left i) := List.count_append

theorem enteredRounds_snoc (h : List BarrierEvent) (i j : Nat) :
    enteredRounds (h ++ [.entered i]) j = enteredRounds h j + if j = i then 1 else 0 := by
  rw [enteredRounds_append, List.count_singleton]
  by_cases hj : j = i
  · subst hj
    simp
  · have hne : BarrierEvent.entered i ≠ .entered j := fun heq => hj (BarrierEvent.entered.inj heq).symm
    simp [hj, hne]

theorem leftRounds_snoc (h : List BarrierEvent) (i j : Nat) :
    leftRounds (h ++ [.left i]) j = leftRounds h j + if j = i then 1 else 0 := by
  rw [leftRounds_append, List.count_singleton]
  by_cases hj : j = i
  · subst hj
    simp
  · have hne : BarrierEvent.left i ≠ .left j := fun heq => hj (BarrierEvent.left.inj heq).symm
    simp [hj, hne]

@[simp] theorem releasedRounds_append (h : List BarrierEvent) (es : List BarrierEvent) :
    releasedRounds (h ++ es) = releasedRounds h + es.count .released := List.count_append

namespace TeamBarrier

variable (w : TeamBarrier)

/-- No core holds the lock. -/
def Free : Prop := ∀ i s, w.pc i ≠ .holding s

/-- No core holds the lock or has yet to trigger the event. -/
def Quiet : Prop := w.Free ∧ ∀ i, w.pc i ≠ .stored

/-- A core waits for the event only while there is a reason to. -/
def Awake : Prop := w.Quiet → ∀ i, w.event i = false → w.pc i ≠ .waitingLock ∧
  (w.pc i = .waitingRelease → w.status.getLsbD i = true)

/-- The set of arrivals that the word stands for, or that the holder is about to store. -/
def Arrivals (a : BitVec 32) : Prop :=
  (w.Free → a = w.status) ∧ ∀ i s, w.pc i = .holding s → a = s ||| 1#32 <<< i

/-- The bits are those of the cores that have entered the round that is not released yet. -/
def IsArrivals (mask : BitVec 32) (h : List BarrierEvent) (a : BitVec 32) : Prop :=
  ∀ i, a.getLsbD i = true ↔ mask.getLsbD i = true ∧ enteredRounds h i = releasedRounds h + 1

/-- What the barrier is for. -/
structure Right (mask : BitVec 32) (h : List BarrierEvent) : Prop where
  /-- No core leaves a round before all have entered it. -/
  left_le : ∀ i j, mask.getLsbD i = true → mask.getLsbD j = true →
    leftRounds h i ≤ enteredRounds h j
  entered : ∀ i, mask.getLsbD i = true → enteredRounds h i = releasedRounds h ∨
    enteredRounds h i = releasedRounds h + 1
  arrivals : ∃ a, w.Arrivals a ∧ IsArrivals mask h a
  /-- When all have entered a round and the lock is free, those still inside find their bits clear. -/
  released : ∀ k, (∀ i, mask.getLsbD i = true → k ≤ enteredRounds h i) → w.Free →
    ∀ i, mask.getLsbD i = true → leftRounds h i < k → w.status.getLsbD i = false
  awake : w.Awake

/-! ### What a step does -/

inductive Move (mask : BitVec 32) (w : TeamBarrier) (i : Nat) :
    TeamBarrier → List BarrierEvent → Prop
  | call (hpc : w.pc i = .out) : Move mask w i (w.goto i .trying) []
  | busy (hpc : w.pc i = .trying) (hbusy : w.status = BitVec.allOnes 32) :
    Move mask w i (w.goto i .waitingLock) []
  | take (hpc : w.pc i = .trying) (hfree : w.status ≠ BitVec.allOnes 32) :
    Move mask w i ((w.store (BitVec.allOnes 32)).goto i (.holding w.status)) [.entered i]
  | retry (hpc : w.pc i = .waitingLock) (hevent : w.event i = true) :
    Move mask w i ((w.clear i).goto i .trying) []
  | release (status : BitVec 32) (hpc : w.pc i = .holding status)
    (hall : status ||| 1#32 <<< i = mask) :
    Move mask w i ((w.store 0#32).goto i .stored) [.released]
  | putBack (status : BitVec 32) (hpc : w.pc i = .holding status)
    (hmissing : status ||| 1#32 <<< i ≠ mask) :
    Move mask w i ((w.store (status ||| 1#32 <<< i)).goto i .stored) []
  | trigger (hpc : w.pc i = .stored) : Move mask w i (w.trigger.goto i .polling) []
  | wait (hpc : w.pc i = .polling) (hbit : w.status.getLsbD i = true) :
    Move mask w i (w.goto i .waitingRelease) []
  | leave (hpc : w.pc i = .polling) (hbit : w.status.getLsbD i = false) :
    Move mask w i (w.goto i .out) [.left i]
  | repoll (hpc : w.pc i = .waitingRelease) (hevent : w.event i = true) :
    Move mask w i ((w.clear i).goto i .polling) []

variable {w w' : TeamBarrier} {mask : BitVec 32} {h es : List BarrierEvent} {i j : Nat}

theorem bit_clear_iff (x : BitVec 32) (i : Nat) :
    x >>> i &&& 1#32 = 0#32 ↔ x.getLsbD i = false := by
  have hmask : (1#32 : BitVec 32) = BitField.bitMaskGen 32 1 := rfl
  have hzero := BitField.bfGet_eq_zero_iff x i 1
  rw [BitField.bfGet, ← hmask] at hzero
  rw [hzero]
  simp

theorem step_move (hstep : step mask w i = some (w', es)) :
    mask.getLsbD i = true ∧ Move mask w i w' es := by
  rw [step] at hstep
  split at hstep
  case isFalse => cases hstep
  case isTrue hmask =>
    refine ⟨hmask, ?_⟩
    cases hpc : w.pc i with
    | out =>
      rw [hpc] at hstep
      cases hstep
      exact .call hpc
    | trying =>
      rw [hpc] at hstep
      simp only at hstep
      split at hstep
      case isTrue hbusy =>
        cases hstep
        exact .busy hpc hbusy
      case isFalse hfree =>
        cases hstep
        exact .take hpc hfree
    | waitingLock =>
      rw [hpc] at hstep
      simp only at hstep
      split at hstep
      case isTrue hevent =>
        cases hstep
        exact .retry hpc hevent
      case isFalse => cases hstep
    | holding status =>
      rw [hpc] at hstep
      simp only at hstep
      split at hstep
      case isTrue hall =>
        cases hstep
        exact .release status hpc hall
      case isFalse hmissing =>
        cases hstep
        exact .putBack status hpc hmissing
    | stored =>
      rw [hpc] at hstep
      cases hstep
      exact .trigger hpc
    | polling =>
      rw [hpc] at hstep
      simp only at hstep
      split at hstep
      case isTrue hbit =>
        cases hstep
        refine .wait hpc ?_
        rw [← Bool.not_eq_false]
        exact fun hclear => hbit ((bit_clear_iff _ _).mpr hclear)
      case isFalse hbit =>
        cases hstep
        exact .leave hpc ((bit_clear_iff _ _).mp (not_not.mp hbit))
    | waitingRelease =>
      rw [hpc] at hstep
      simp only at hstep
      split at hstep
      case isTrue hevent =>
        cases hstep
        exact .repoll hpc hevent
      case isFalse => cases hstep

/-! ### The invariant -/

/-- Who has the lock and what the arrivals are then.  While it is free some core of the mask is
missing. -/
inductive Lock (mask : BitVec 32) (w : TeamBarrier) (h : List BarrierEvent) : Prop
  | free (hfree : w.Free) (hset : IsArrivals mask h w.status)
    (hmissing : ∀ i, mask.getLsbD i = true → ∃ j, mask.getLsbD j = true ∧ w.status.getLsbD j = false)
  | held (i : Nat) (s : BitVec 32) (hpc : w.pc i = .holding s)
    (hother : ∀ j t, w.pc j = .holding t → j = i) (hbusy : w.status = BitVec.allOnes 32)
    (hset : IsArrivals mask h (s ||| 1#32 <<< i))

structure Inv (mask : BitVec 32) (w : TeamBarrier) (h : List BarrierEvent) : Prop where
  inside : ∀ i, (w.pc i).Inside → enteredRounds h i = leftRounds h i + 1
  outside : ∀ i, ¬(w.pc i).Inside → enteredRounds h i = leftRounds h i
  left_le : ∀ i, leftRounds h i ≤ releasedRounds h
  entered : ∀ i, mask.getLsbD i = true → enteredRounds h i = releasedRounds h ∨
    enteredRounds h i = releasedRounds h + 1
  lock : Lock mask w h
  awake : w.Awake

@[simp] theorem goto_pc (w : TeamBarrier) (i : Nat) (pc : BarrierPc) (j : Nat) :
    (w.goto i pc).pc j = if j = i then pc else w.pc j := Function.update_apply w.pc i pc j

@[simp] theorem goto_status (w : TeamBarrier) (i : Nat) (pc : BarrierPc) :
    (w.goto i pc).status = w.status := rfl

@[simp] theorem goto_event (w : TeamBarrier) (i : Nat) (pc : BarrierPc) :
    (w.goto i pc).event = w.event := rfl

/-- The holder is the one core that holds the lock. -/
theorem Lock.of_holding {s : BitVec 32} (hlock : Lock mask w h) (hpc : w.pc i = .holding s) :
    (∀ j t, w.pc j = .holding t → j = i) ∧ w.status = BitVec.allOnes 32 ∧
      IsArrivals mask h (s ||| 1#32 <<< i) := by
  cases hlock with
  | free hfree => exact absurd hpc (hfree i s)
  | held k t hk hother hbusy hset =>
    have hik := hother i s hpc
    subst hik
    rw [hpc] at hk
    cases hk
    exact ⟨hother, hbusy, hset⟩

/-- If the word does not read as all ones, no core holds the lock. -/
theorem Lock.free_of_bit (hlock : Lock mask w h) (hi : i < 32) (hbit : w.status.getLsbD i = false) :
    w.Free ∧ IsArrivals mask h w.status := by
  cases hlock with
  | free hfree hset => exact ⟨hfree, hset⟩
  | held k t hk hother hbusy =>
    rw [hbusy, BitVec.getLsbD_allOnes, decide_eq_true hi] at hbit
    cases hbit

/-- A step that leaves the word, the holders and the rounds alone keeps the lock's part. -/
theorem Lock.congr (hlock : Lock mask w h) (hstatus : w'.status = w.status)
    (hpc : ∀ j s, w'.pc j = .holding s ↔ w.pc j = .holding s) : Lock mask w' h := by
  cases hlock with
  | free hfree hset hmissing =>
    refine .free ?_ ?_ ?_
    · intro j s hj
      exact hfree j s ((hpc j s).mp hj)
    · rwa [hstatus]
    · rwa [hstatus]
  | held k t hk hother hbusy hset =>
    refine .held k t ((hpc k t).mpr hk) ?_ (hstatus.trans hbusy) hset
    intro j s hj
    exact hother j s ((hpc j s).mp hj)

/-- A step by which a core moves on without touching the lock keeps the invariant. -/
theorem Inv.silent {x : TeamBarrier} {pc : BarrierPc} (hinv : Inv mask w h)
    (hstatus : x.status = w.status) (hpc : x.pc = w.pc) (hinside : pc.Inside ↔ (w.pc i).Inside)
    (hold : ∀ s, w.pc i ≠ .holding s) (hnew : ∀ s, pc ≠ .holding s)
    (hawake : (x.goto i pc).Awake) : Inv mask (x.goto i pc) h := by
  have hplace : ∀ j, ((x.goto i pc).pc j).Inside ↔ (w.pc j).Inside := by
    intro j
    rw [goto_pc, hpc]
    split
    case isTrue hj => rw [hinside, hj]
    case isFalse => exact Iff.rfl
  refine ⟨?_, ?_, hinv.left_le, hinv.entered, ?_, hawake⟩
  · intro j hj
    exact hinv.inside j ((hplace j).mp hj)
  · intro j hj
    exact hinv.outside j fun hin => hj ((hplace j).mpr hin)
  · have hsame : ∀ j s, (x.goto i pc).pc j = .holding s ↔ w.pc j = .holding s := by
      intro j s
      rw [goto_pc, hpc]
      split
      case isTrue hj =>
        subst hj
        exact ⟨fun heq => absurd heq (hnew s), fun heq => absurd heq (hold s)⟩
      case isFalse => exact Iff.rfl
    exact hinv.lock.congr hstatus hsame

/-- A core that has nothing to store or trigger moves on. -/
theorem Awake.goto {x : TeamBarrier} {pc : BarrierPc} (hawake : w.Awake)
    (hstatus : x.status = w.status) (hpc : x.pc = w.pc)
    (hevent : ∀ j, j ≠ i → x.event j = w.event j) (hold : ∀ s, w.pc i ≠ .holding s)
    (hstored : w.pc i ≠ .stored)
    (hself : w.Quiet → pc ≠ .waitingLock ∧ (pc = .waitingRelease → w.status.getLsbD i = true)) :
    (x.goto i pc).Awake := by
  intro hquiet
  have hquiet' : w.Quiet := by
    constructor
    · intro j s hj
      by_cases hji : j = i
      · subst hji
        exact hold s hj
      · apply hquiet.1 j s
        rw [goto_pc, if_neg hji, hpc, hj]
    · intro j hj
      by_cases hji : j = i
      · subst hji
        exact hstored hj
      · apply hquiet.2 j
        rw [goto_pc, if_neg hji, hpc, hj]
  intro j hj
  rw [goto_event] at hj
  rw [goto_pc, goto_status, hstatus]
  by_cases hji : j = i
  · subst hji
    rw [if_pos rfl]
    exact hself hquiet'
  · rw [if_neg hji, hpc]
    rw [hevent j hji] at hj
    exact hawake hquiet' j hj

/-- While all arrivals are not there, some core of the mask keeps the word from reading as all ones. -/
theorem Lock.not_free (hlock : Lock mask w h) (hi : mask.getLsbD i = true)
    (hbusy : w.status = BitVec.allOnes 32) : ¬w.Free := by
  intro hfree
  cases hlock with
  | free _ _ hmissing =>
    obtain ⟨j, hj, hbit⟩ := hmissing i hi
    rw [hbusy, BitVec.getLsbD_allOnes, decide_eq_true (BitVec.lt_of_getLsbD hj)] at hbit
    cases hbit
  | held k s hk => exact hfree k s hk

theorem getLsbD_arrive (s : BitVec 32) (hi : i < 32) (j : Nat) :
    (s ||| 1#32 <<< i).getLsbD j = true ↔ j = i ∨ s.getLsbD j = true := by
  rw [BitVec.getLsbD_or, ← BitVec.twoPow_eq, BitVec.getLsbD_twoPow]
  by_cases hj : j = i
  · subst hj
    simp [hi]
  · have hne : i ≠ j := fun heq => hj heq.symm
    simp [hj, hne]

/-- Where one core counts a round as its new place says and no other counts one, all count as their
places say. -/
theorem Inv.counted {x : TeamBarrier} {es : List BarrierEvent} (hinv : Inv mask w h)
    (hpc : x.pc = w.pc) (i : Nat) (pc : BarrierPc)
    (hentered : ∀ j, j ≠ i → enteredRounds (h ++ es) j = enteredRounds h j)
    (hleft : ∀ j, j ≠ i → leftRounds (h ++ es) j = leftRounds h j)
    (hin : pc.Inside → enteredRounds (h ++ es) i = leftRounds (h ++ es) i + 1)
    (hout : ¬ pc.Inside → enteredRounds (h ++ es) i = leftRounds (h ++ es) i) :
    (∀ j, ((x.goto i pc).pc j).Inside →
      enteredRounds (h ++ es) j = leftRounds (h ++ es) j + 1) ∧
    ∀ j, ¬ ((x.goto i pc).pc j).Inside → enteredRounds (h ++ es) j = leftRounds (h ++ es) j := by
  constructor
  · intro j hj
    by_cases hji : j = i
    · subst hji
      rw [goto_pc, if_pos rfl] at hj
      exact hin hj
    · rw [goto_pc, if_neg hji, hpc] at hj
      rw [hentered j hji, hleft j hji]
      exact hinv.inside j hj
  · intro j hj
    by_cases hji : j = i
    · subst hji
      rw [goto_pc, if_pos rfl] at hj
      exact hout hj
    · rw [goto_pc, if_neg hji, hpc] at hj
      rw [hentered j hji, hleft j hji]
      exact hinv.outside j hj

/-- By its test-and-set a core enters the round that is not released yet. -/
theorem Inv.take (hinv : Inv mask w h) (hi : mask.getLsbD i = true) (hpc : w.pc i = .trying)
    (hfree : w.status ≠ BitVec.allOnes 32) :
    Inv mask ((w.store (BitVec.allOnes 32)).goto i (.holding w.status)) (h ++ [.entered i]) := by
  have hout : enteredRounds h i = leftRounds h i := by
    apply hinv.outside i
    rw [hpc]
    exact id
  have hcur : enteredRounds h i = releasedRounds h := by
    have hle := hinv.left_le i
    have hentered := hinv.entered i hi
    omega
  have hcount := enteredRounds_snoc h i
  have hleft : ∀ j, leftRounds (h ++ [.entered i]) j = leftRounds h j := by
    intro j
    simp
  have hreleased : releasedRounds (h ++ [.entered i]) = releasedRounds h := by simp
  have hplaces : (w.store (BitVec.allOnes 32)).pc = w.pc := rfl
  obtain ⟨hinside, houtside⟩ := hinv.counted hplaces i (.holding w.status)
    (fun j hji => by rw [hcount, if_neg hji, Nat.add_zero]) (fun j _ => hleft j)
    (fun _ => by rw [hcount, hleft, if_pos rfl, hout]) fun hin => absurd trivial hin
  refine ⟨hinside, houtside, ?_, ?_, ?_, ?_⟩
  · intro j
    rw [hleft, hreleased]
    exact hinv.left_le j
  · intro j hj
    rw [hcount, hreleased]
    by_cases hji : j = i
    · subst hji
      rw [if_pos rfl, hcur]
      exact Or.inr rfl
    · rw [if_neg hji]
      exact hinv.entered j hj
  · cases hinv.lock with
    | held k s hk hother hbusy => exact absurd hbusy hfree
    | free hnone hset =>
      refine .held i w.status ?_ ?_ rfl ?_
      · rw [goto_pc, if_pos rfl]
      · intro j t hj
        by_contra hji
        rw [goto_pc, if_neg hji] at hj
        exact hnone j t hj
      · intro j
        rw [getLsbD_arrive _ (BitVec.lt_of_getLsbD hi), hcount, hreleased, hset j]
        by_cases hji : j = i
        · subst hji
          simp [hi, hcur]
        · simp [hji]
  · intro hquiet
    refine absurd ?_ (hquiet.1 i w.status)
    rw [goto_pc, if_pos rfl]

/-- After a store no core holds the lock. -/
theorem free_stored {a : BitVec 32} (hother : ∀ j t, w.pc j = .holding t → j = i) :
    ((w.store a).goto i .stored).Free := by
  intro j t hj
  by_cases hji : j = i
  · rw [goto_pc, if_pos hji] at hj
    cases hj
  · rw [goto_pc, if_neg hji] at hj
    exact hji (hother j t hj)

theorem awake_stored (a : BitVec 32) : ((w.store a).goto i .stored).Awake := by
  intro hquiet
  refine absurd ?_ (hquiet.2 i)
  rw [goto_pc, if_pos rfl]

/-- A store moves no core in or out. -/
theorem inside_stored {s : BitVec 32} (a : BitVec 32) (hpc : w.pc i = .holding s) (j : Nat) :
    (((w.store a).goto i .stored).pc j).Inside ↔ (w.pc j).Inside := by
  rw [goto_pc]
  by_cases hji : j = i
  · subst hji
    rw [if_pos rfl, hpc]
    exact Iff.rfl
  · rw [if_neg hji]
    exact Iff.rfl

/-- The last arrival releases the round. -/
theorem Inv.release {s : BitVec 32} (hinv : Inv mask w h) (hpc : w.pc i = .holding s)
    (hall : s ||| 1#32 <<< i = mask) :
    Inv mask ((w.store 0#32).goto i .stored) (h ++ [.released]) := by
  obtain ⟨hother, -, hset⟩ := hinv.lock.of_holding hpc
  rw [hall] at hset
  have hcur : ∀ j, mask.getLsbD j = true → enteredRounds h j = releasedRounds h + 1 := by
    intro j hj
    exact ((hset j).mp hj).2
  have hentered : ∀ j, enteredRounds (h ++ [.released]) j = enteredRounds h j := by simp
  have hleft : ∀ j, leftRounds (h ++ [.released]) j = leftRounds h j := by simp
  have hreleased : releasedRounds (h ++ [.released]) = releasedRounds h + 1 := by simp
  refine ⟨?_, ?_, ?_, ?_, ?_, awake_stored 0#32⟩
  · intro j hj
    rw [hentered, hleft]
    exact hinv.inside j ((inside_stored 0#32 hpc j).mp hj)
  · intro j hj
    rw [hentered, hleft]
    exact hinv.outside j fun hin => hj ((inside_stored 0#32 hpc j).mpr hin)
  · intro j
    rw [hleft, hreleased]
    exact Nat.le_succ_of_le (hinv.left_le j)
  · intro j hj
    rw [hentered, hreleased]
    exact Or.inl (hcur j hj)
  · refine .free (free_stored hother) ?_ ?_
    · intro j
      rw [hentered, hreleased]
      constructor
      · intro hbit
        rw [goto_status, store, BitVec.getLsbD_zero] at hbit
        cases hbit
      · intro hj
        have hone := hcur j hj.1
        omega
    · intro j hj
      exact ⟨j, hj, BitVec.getLsbD_zero⟩

/-- An arrival that is not the last is put back with the others. -/
theorem Inv.putBack {s : BitVec 32} (hinv : Inv mask w h) (hpc : w.pc i = .holding s)
    (hmissing : s ||| 1#32 <<< i ≠ mask) :
    Inv mask ((w.store (s ||| 1#32 <<< i)).goto i .stored) h := by
  obtain ⟨hother, -, hset⟩ := hinv.lock.of_holding hpc
  refine ⟨?_, ?_, hinv.left_le, hinv.entered, ?_, awake_stored _⟩
  · intro j hj
    exact hinv.inside j ((inside_stored _ hpc j).mp hj)
  · intro j hj
    exact hinv.outside j fun hin => hj ((inside_stored _ hpc j).mpr hin)
  · refine .free (free_stored hother) hset ?_
    intro _ _
    by_contra hnone
    apply hmissing
    apply BitVec.eq_of_getLsbD_eq
    intro j _
    have hback : mask.getLsbD j = true → (s ||| 1#32 <<< i).getLsbD j = true := by
      intro hj
      rw [← Bool.not_eq_false]
      exact fun hclear => hnone ⟨j, hj, hclear⟩
    exact Bool.eq_iff_iff.mpr ⟨fun hj => ((hset j).mp hj).1, hback⟩

/-- A core that finds its bit clear leaves a round that is released. -/
theorem Inv.leave (hinv : Inv mask w h) (hi : mask.getLsbD i = true) (hpc : w.pc i = .polling)
    (hbit : w.status.getLsbD i = false) : Inv mask (w.goto i .out) (h ++ [.left i]) := by
  obtain ⟨hfree, hset⟩ := hinv.lock.free_of_bit (BitVec.lt_of_getLsbD hi) hbit
  have hin : enteredRounds h i = leftRounds h i + 1 := by
    apply hinv.inside i
    rw [hpc]
    trivial
  have hcur : enteredRounds h i = releasedRounds h := by
    apply (hinv.entered i hi).resolve_right
    intro hone
    rw [(hset i).mpr ⟨hi, hone⟩] at hbit
    cases hbit
  have hentered : ∀ j, enteredRounds (h ++ [.left i]) j = enteredRounds h j := by simp
  have hcount := leftRounds_snoc h i
  have hreleased : releasedRounds (h ++ [.left i]) = releasedRounds h := by simp
  obtain ⟨hinside, houtside⟩ := hinv.counted rfl i .out (fun j _ => hentered j)
    (fun j hji => by rw [hcount, if_neg hji, Nat.add_zero]) (fun hpc => absurd hpc id)
    fun _ => by rw [hentered, hcount, if_pos rfl, hin]
  refine ⟨hinside, houtside, ?_, ?_, ?_, ?_⟩
  · intro j
    rw [hcount, hreleased]
    by_cases hji : j = i
    · subst hji
      rw [if_pos rfl, ← hin, hcur]
    · rw [if_neg hji]
      exact hinv.left_le j
  · intro j hj
    rw [hentered, hreleased]
    exact hinv.entered j hj
  · cases hinv.lock with
    | held k s hk => exact absurd hk (hfree k s)
    | free _ _ hmissing =>
      refine .free ?_ ?_ hmissing
      · intro j s hj
        by_cases hji : j = i
        · rw [goto_pc, if_pos hji] at hj
          cases hj
        · rw [goto_pc, if_neg hji] at hj
          exact hfree j s hj
      · intro j
        rw [hentered, hreleased]
        exact hset j
  · refine hinv.awake.goto rfl rfl (fun _ _ => rfl) ?_ ?_ fun _ => ⟨nofun, nofun⟩
    · rw [hpc]
      exact nofun
    · rw [hpc]
      exact nofun

/-- A core that has nothing to store or trigger goes from one place to another. -/
theorem Inv.moveOn {x : TeamBarrier} {old pc : BarrierPc} (hinv : Inv mask w h) (hpc : w.pc i = old)
    (hstatus : x.status = w.status) (hsame : x.pc = w.pc)
    (hevent : ∀ j, j ≠ i → x.event j = w.event j) (hinside : pc.Inside ↔ old.Inside)
    (hold : old ≠ .stored ∧ ∀ s, old ≠ .holding s) (hnew : ∀ s, pc ≠ .holding s)
    (hself : w.Quiet → pc ≠ .waitingLock ∧ (pc = .waitingRelease → w.status.getLsbD i = true)) :
    Inv mask (x.goto i pc) h := by
  subst hpc
  exact hinv.silent hstatus hsame hinside hold.2 hnew
    (hinv.awake.goto hstatus hsame hevent hold.2 hold.1 hself)

theorem inv_start (mask : BitVec 32) (pending : Nat → Bool) : Inv mask (start pending) [] := by
  refine ⟨?_, fun _ _ => rfl, fun _ => Nat.le_refl 0, fun _ _ => Or.inl rfl, ?_, ?_⟩
  · intro i hi
    exact absurd hi id
  · refine .free nofun ?_ ?_
    · intro i
      constructor
      · intro hbit
        rw [start, BitVec.getLsbD_zero] at hbit
        cases hbit
      · intro hi
        cases hi.2
    · intro i hi
      exact ⟨i, hi, BitVec.getLsbD_zero⟩
  · intro _ i _
    exact ⟨nofun, nofun⟩

/-- Every step of a core keeps the invariant. -/
theorem Inv.step (hinv : Inv mask w h) (hstep : step mask w i = some (w', es)) :
    Inv mask w' (h ++ es) := by
  obtain ⟨hi, hmove⟩ := step_move hstep
  have hothers : ∀ j, j ≠ i → (w.clear i).event j = w.event j := by
    intro j hj
    exact Function.update_of_ne hj false w.event
  cases hmove with
  | call hpc =>
    rw [List.append_nil]
    exact hinv.moveOn hpc rfl rfl (fun _ _ => rfl) Iff.rfl ⟨nofun, nofun⟩ nofun fun _ => ⟨nofun, nofun⟩
  | busy hpc hbusy =>
    rw [List.append_nil]
    refine hinv.moveOn hpc rfl rfl (fun _ _ => rfl) Iff.rfl ⟨nofun, nofun⟩ nofun ?_
    intro hquiet
    exact absurd hquiet.1 (hinv.lock.not_free hi hbusy)
  | take hpc hfree => exact hinv.take hi hpc hfree
  | retry hpc =>
    rw [List.append_nil]
    exact hinv.moveOn hpc rfl rfl hothers Iff.rfl ⟨nofun, nofun⟩ nofun fun _ => ⟨nofun, nofun⟩
  | release s hpc hall => exact hinv.release hpc hall
  | putBack s hpc hmissing =>
    rw [List.append_nil]
    exact hinv.putBack hpc hmissing
  | trigger hpc =>
    rw [List.append_nil]
    refine hinv.silent rfl rfl ?_ ?_ nofun ?_
    · rw [hpc]
      exact Iff.rfl
    · rw [hpc]
      exact nofun
    · -- The event is pending for every core now.
      intro _ j hj
      cases hj
  | wait hpc hbit =>
    rw [List.append_nil]
    exact hinv.moveOn hpc rfl rfl (fun _ _ => rfl) Iff.rfl ⟨nofun, nofun⟩ nofun
      fun _ => ⟨nofun, fun _ => hbit⟩
  | leave hpc hbit => exact hinv.leave hi hpc hbit
  | repoll hpc =>
    rw [List.append_nil]
    exact hinv.moveOn hpc rfl rfl hothers Iff.rfl ⟨nofun, nofun⟩ nofun fun _ => ⟨nofun, nofun⟩

theorem Inv.entered_le (hinv : Inv mask w h) (i : Nat) : enteredRounds h i ≤ leftRounds h i + 1 := by
  by_cases hin : (w.pc i).Inside
  · exact (hinv.inside i hin).le
  · exact (hinv.outside i hin).le.trans (Nat.le_succ _)

theorem Inv.right (hinv : Inv mask w h) : w.Right mask h := by
  refine ⟨?_, hinv.entered, ?_, ?_, hinv.awake⟩
  · intro i j _ hj
    have hle := hinv.left_le i
    have hentered := hinv.entered j hj
    omega
  · cases hinv.lock with
    | free hfree hset => exact ⟨w.status, ⟨fun _ => rfl, fun i s hi => absurd hi (hfree i s)⟩, hset⟩
    | held i s hpc hother _ hset =>
      refine ⟨s ||| 1#32 <<< i, ⟨fun hfree => absurd hpc (hfree i s), ?_⟩, hset⟩
      intro j t hj
      have hji := hother j t hj
      subst hji
      rw [hpc] at hj
      cases hj
      rfl
  · intro k hall hfree i hi hk
    cases hinv.lock with
    | held j s hpc => exact absurd hpc (hfree j s)
    | free _ hset hmissing =>
      -- A core is missing in the round that is not released, so that round `k` is released.
      obtain ⟨j, hj, hbit⟩ := hmissing i hi
      have hcur : enteredRounds h j = releasedRounds h := by
        apply (hinv.entered j hj).resolve_right
        intro hone
        rw [(hset j).mpr ⟨hj, hone⟩] at hbit
        cases hbit
      have hkj := hall j hj
      have hle := hinv.entered_le i
      rw [← Bool.not_eq_true]
      intro hset'
      have hone := ((hset i).mp hset').2
      omega

end TeamBarrier

open TeamBarrier in
/-- After any steps of the cores of any mask, with any events pending at first: no core has left a round
that some core has not entered, the arrivals are those of the round that is not released, and cores do
not wait for a round that all have entered. -/
theorem team_barrier_right (mask : BitVec 32) (pending : Nat → Bool) (cores : List Nat)
    {w : TeamBarrier} {h : List BarrierEvent}
    (hrun : (barrierMachine mask).run (start pending) cores = some (w, h)) : w.Right mask h := by
  have hinv : Inv mask w ([] ++ h) := by
    refine Machine.run_history (Inv mask) (fun _ _ => True) ?_ (inv_start mask pending) ?_ hrun
    · intro w h i w' es hinv _ hstep
      exact hinv.step hstep
    · exact Machine.along_of_forall fun _ _ _ => trivial
  exact hinv.right

/-- Two cores: the second releases the round that the first waits for. -/
theorem team_barrier_right_pair : ∃ w h,
    (barrierMachine 0x3#32).run (.start fun _ => false) [0, 0, 0, 0, 0, 1, 1, 1, 1, 0, 0] =
      some (w, h) ∧ h = [.entered 0, .entered 1, .released, .left 0] ∧ w.Right 0x3#32 h :=
  ⟨_, _, rfl, rfl, team_barrier_right 0x3#32 (fun _ => false)
    [0, 0, 0, 0, 0, 1, 1, 1, 1, 0, 0] rfl⟩

end Hero.Runtime
