import Hero.Framework.Checked
import Hero.Framework.Machine
import Mathlib.Data.Fintype.Basic

/-!
# Dynamic loop scheduling

The software loops of the event-unit-3 runtime: a team shares one set of loop fields under a mutex,
the first thread to enter a loop sets them up and the threads take chunks until none is left.
-/

namespace Hero.Omp

open Hero.Checked

/-- The entry points a loop is issued through. -/
inductive FrontEnd where
  /-- `__kmpc_dispatch_init_4` and `__kmpc_dispatch_next_4`, with an inclusive bound -/
  | kmpc
  /-- `GOMP_loop_dynamic_start` and `GOMP_loop_dynamic_next`, with an exclusive end -/
  | gomp
  deriving DecidableEq, Repr

structure DynLoop where
  front : FrontEnd
  start : Int
  stop : Int
  incr : Int
  chunk : Int

namespace DynLoop

/-- The iterations of the loop as its front end means them. -/
def IsIteration (l : DynLoop) (x : Int) : Prop :=
  l.incr ∣ x - l.start ∧
    match l.front with
    | .kmpc => if 0 < l.incr then l.start ≤ x ∧ x ≤ l.stop else l.stop ≤ x ∧ x ≤ l.start
    | .gomp => if 0 < l.incr then l.start ≤ x ∧ x < l.stop else l.stop < x ∧ x ≤ l.start

/-- The indices generated code runs for a chunk: `__kmpc_dispatch_next_4` reports a stride of one,
`GOMP` code steps by the loop's own increment up to an exclusive end. -/
def runs (l : DynLoop) (istart iend x : Int) : Bool :=
  match l.front with
  | .kmpc => istart ≤ x ∧ x ≤ iend
  | .gomp => l.incr ∣ x - istart ∧
      if 0 < l.incr then istart ≤ x ∧ x < iend else iend < x ∧ x ≤ istart

end DynLoop

/-- The loop fields of `omp_team_t`. -/
structure Team where
  loopEpoch : Int
  loopStart : Int
  loopEnd : Int
  loopIncr : Int
  loopChunk : Int
  loopIsSetup : Bool

/-- The set-up of the first thread that enters a loop. -/
def Team.setup (team : Team) (l : DynLoop) : Team :=
  if team.loopIsSetup then team
  else { team with
    loopIsSetup := true, loopStart := l.start, loopEnd := l.stop, loopIncr := l.incr,
    loopChunk := l.chunk }

/-- What `dynLoopIter` returns: no more work, or a chunk and whether `*isLast` was set. -/
inductive Fetched where
  | none
  | chunk (istart iend : Int) (last : Bool)

/-- The mutex-protected section of `dynLoopIter`; `isLast` tells whether the pointer is not NULL.
No result is a store through NULL or a signed overflow. -/
def dynLoopIter (team : Team) (isLast : Bool) : Option (Team × Fetched) :=
  if team.loopStart > team.loopEnd then some ({ team with loopIsSetup := false }, .none)
  else do
    let iend ← sub 32 (← add 32 team.loopStart team.loopChunk) 1
    let (iend, last) ←
      if iend ≥ team.loopEnd then
        if isLast then some (team.loopEnd, true) else none
      else some (iend, false)
    let next ← add 32 team.loopStart team.loopChunk
    return ({ team with loopStart := next }, .chunk team.loopStart iend last)

/-- Where a thread stands in the current loop. -/
inductive DynPc where
  | entering
  /-- about to call `dynLoopIter`, with or without an `isLast` pointer -/
  | fetching (isLast : Bool)
  | finished
  | undefined
  deriving DecidableEq

structure DynState (Core : Type*) where
  /-- the number of loops whose barrier has been passed -/
  loop : Nat
  team : Team
  coreEpoch : Core → Int
  pc : Core → DynPc

inductive DynStep (Core : Type*) where
  | init (c : Core)
  | iter (c : Core)
  | barrier

inductive DynEvent (Core : Type*) where
  | handed (loop : Nat) (c : Core) (istart iend : Int) (last : Bool)
  | noMoreWork (loop : Nat) (c : Core)
  | undefined (loop : Nat) (c : Core)
  deriving DecidableEq

variable {Core : Type*} [DecidableEq Core] [Fintype Core]

def DynState.goto (s : DynState Core) (c : Core) (pc : DynPc) : DynState Core :=
  { s with pc := Function.update s.pc c pc }

/-- A team after `omp_init`: no loop is set up and all epochs agree. -/
def DynState.start (team : Team) : DynState Core where
  loop := 0
  team := { team with loopEpoch := 0, loopIsSetup := false }
  coreEpoch := fun _ => 0
  pc := fun _ => .entering

/-- The mutex-protected steps of a team that runs `loops` one after the other. -/
def dynamicLoops (loops : Nat → DynLoop) :
    Machine (DynState Core) (DynStep Core) (DynEvent Core) := fun s step =>
  match step with
  | .init c =>
    let l := loops s.loop
    if s.pc c = .entering then
      -- the set-up section of `dynLoopInit` and of `dynLoopInitNoIter`
      if s.team.loopEpoch - s.coreEpoch c ≠ 0 then
        let s := { s with coreEpoch := Function.update s.coreEpoch c (s.coreEpoch c + 1) }
        match l.front with
        | .kmpc => some (s.goto c (.fetching true), [])
        | .gomp => some (s.goto c .finished, [.noMoreWork s.loop c])
      else
        -- the first `dynLoopIter` of `GOMP_loop_dynamic_start` gets a NULL `isLast`
        some ({ s with team := s.team.setup l }.goto c (.fetching (l.front = FrontEnd.kmpc)), [])
    else none
  | .iter c =>
    match s.pc c with
    | .fetching isLast =>
      match dynLoopIter s.team isLast with
      | none => some (s.goto c .undefined, [.undefined s.loop c])
      | some (team, .none) => some ({ s with team }.goto c .finished, [.noMoreWork s.loop c])
      | some (team, .chunk istart iend last) =>
        some ({ s with team }.goto c (.fetching true), [.handed s.loop c istart iend last])
    | _ => none
  | .barrier =>
    if ∀ c, s.pc c = .finished then
      some ({ s with loop := s.loop + 1, pc := fun _ => .entering }, [])
    else none

/-- Whether an event hands out index `x` of loop `k`. -/
def DynEvent.hands (loops : Nat → DynLoop) (k : Nat) (x : Int) : DynEvent Core → Bool
  | .handed j _ istart iend _ => j = k && (loops j).runs istart iend x
  | _ => false

/-- How often index `x` of loop `k` was handed out. -/
def timesHanded (loops : Nat → DynLoop) (k : Nat) (x : Int) (h : List (DynEvent Core)) : Nat :=
  h.countP (DynEvent.hands loops k x)

/-- A loop over the consecutive indices `start..stop`, or an empty one. -/
def DynLoop.Consecutive (l : DynLoop) : Prop :=
  l.front = .kmpc ∧ (l.incr = 1 ∨ l.start = l.stop) ∨ 0 < l.incr ∧ l.stop < l.start

instance (l : DynLoop) : Decidable l.Consecutive := inferInstanceAs (Decidable (_ ∨ _))

/-- The arguments are `kmp_int32` and the chunk size is at least one. -/
structure DynLoop.Typed (l : DynLoop) : Prop where
  start : Fits 32 l.start
  chunk : 1 ≤ l.chunk

/-- The steps that do not run into the recycling of the loop fields: a non-empty loop is entered by
all before one thread finds it exhausted, and the next start is still an `int`. -/
def Timely (loops : Nat → DynLoop) (s : DynState Core) : DynStep Core → Prop
  | .init _ => (loops s.loop).Consecutive ∧
      ((∃ c, s.pc c = .finished) → (loops s.loop).stop < (loops s.loop).start)
  | .iter _ => s.team.loopStart ≤ s.team.loopEnd → Fits 32 (s.team.loopStart + s.team.loopChunk)
  | .barrier => True

instance (loops : Nat → DynLoop) (s : DynState Core) : ∀ step, Decidable (Timely loops s step)
  | .init _ => inferInstanceAs (Decidable (_ ∧ _))
  | .iter _ => inferInstanceAs (Decidable (_ → _))
  | .barrier => inferInstanceAs (Decidable True)

theorem DynLoop.Consecutive.isIteration_iff {l : DynLoop} (h : l.Consecutive) (x : Int) :
    l.IsIteration x ↔ l.start ≤ x ∧ x ≤ l.stop := by
  unfold DynLoop.IsIteration
  rcases h with ⟨hf, h1 | heq⟩ | ⟨hpos, hempty⟩
  · simp [hf, h1]
  · have hone : l.start ≤ x ∧ x ≤ l.stop ↔ x - l.start = 0 := by omega
    simp only [hf]
    constructor
    · intro hx
      obtain ⟨-, hx⟩ := hx
      split at hx
      · exact hx
      · omega
    · intro hx
      refine ⟨by simp [hone.mp hx], ?_⟩
      split
      · exact hx
      · omega
  · cases l.front with
    | kmpc =>
      simp only [hpos, if_true]
      constructor
      · intro hx
        exact hx.2
      · intro hx
        omega
    | gomp =>
      simp only [hpos, if_true]
      constructor
      · intro hx
        omega
      · intro hx
        omega

theorem dynLoopIter_exhausted {team : Team} {isLast : Bool} (h : team.loopEnd < team.loopStart) :
    dynLoopIter team isLast = some ({ team with loopIsSetup := false }, .none) := by
  simp [dynLoopIter, h]

theorem dynLoopIter_chunk {team : Team} (h : team.loopStart ≤ team.loopEnd)
    (hstart : Fits 32 team.loopStart) (hnext : Fits 32 (team.loopStart + team.loopChunk))
    (hchunk : 1 ≤ team.loopChunk) :
    dynLoopIter team true = some ({ team with loopStart := team.loopStart + team.loopChunk },
      .chunk team.loopStart (min (team.loopStart + team.loopChunk - 1) team.loopEnd)
        (decide (team.loopEnd ≤ team.loopStart + team.loopChunk - 1))) := by
  have hlast : Fits 32 (team.loopStart + team.loopChunk - 1) := by
    apply hstart.between hnext
    left
    omega
  have hadd : add 32 team.loopStart team.loopChunk = some (team.loopStart + team.loopChunk) :=
    add_eq_some.mpr ⟨hnext, rfl⟩
  have hsub : sub 32 (team.loopStart + team.loopChunk) 1
      = some (team.loopStart + team.loopChunk - 1) := sub_eq_some.mpr ⟨hlast, rfl⟩
  by_cases hge : team.loopStart + team.loopChunk - 1 ≥ team.loopEnd
  · simp [dynLoopIter, not_lt.mpr h, hadd, hsub, hge]
  · simp [dynLoopIter, not_lt.mpr h, hadd, hsub, hge, le_of_not_ge hge]

section Counting

omit [DecidableEq Core] [Fintype Core]

variable (loops : Nat → DynLoop) (k : Nat) (x : Int) (h : List (DynEvent Core))

@[simp] theorem timesHanded_noMoreWork (j : Nat) (c : Core) :
    timesHanded loops k x (h ++ [.noMoreWork j c]) = timesHanded loops k x h := by
  simp [timesHanded, DynEvent.hands]

theorem timesHanded_handed (j : Nat) (c : Core) (istart iend : Int) (last : Bool) :
    timesHanded loops k x (h ++ [.handed j c istart iend last]) = timesHanded loops k x h +
      if j = k ∧ (loops j).runs istart iend x = true then 1 else 0 := by
  simp [timesHanded, DynEvent.hands, List.countP_append, List.countP_cons]

end Counting

/-- `n` is one where `P` holds and zero elsewhere. -/
def Counts (n : Nat) (P : Prop) : Prop := (P → n = 1) ∧ (¬ P → n = 0)

/-- A loop some thread has entered: the handed-out indices are those below the shared start. -/
structure DynState.Running (loops : Nat → DynLoop) (s : DynState Core)
    (h : List (DynEvent Core)) : Prop where
  consecutive : (loops s.loop).Consecutive
  stop : s.team.loopEnd = (loops s.loop).stop
  chunk : s.team.loopChunk = (loops s.loop).chunk
  lower : (loops s.loop).start ≤ s.team.loopStart
  fits : Fits 32 s.team.loopStart
  handed : ∀ x, Counts (timesHanded loops s.loop x h)
    ((loops s.loop).start ≤ x ∧ x < s.team.loopStart ∧ x ≤ (loops s.loop).stop)
  exhausted : ∀ c, s.pc c = .finished → (loops s.loop).stop < s.team.loopStart
  cleared : s.team.loopIsSetup = false → ∃ c, s.pc c = .finished
  setup : s.team.loopIsSetup = true → ∃ c isLast, s.pc c = .fetching isLast
  pointer : ∀ c, s.pc c = .fetching false → (loops s.loop).stop < (loops s.loop).start

/-- A loop no thread has entered yet. -/
structure DynState.Fresh (loops : Nat → DynLoop) (s : DynState Core)
    (h : List (DynEvent Core)) : Prop where
  entering : ∀ c, s.pc c = .entering
  cleared : s.team.loopIsSetup = false
  handed : ∀ x, timesHanded loops s.loop x h = 0

structure DynState.Sound (loops : Nat → DynLoop) (s : DynState Core)
    (h : List (DynEvent Core)) : Prop where
  epochs : ∀ c, s.team.loopEpoch = s.coreEpoch c
  defined : ∀ k c, .undefined k c ∉ h
  past : ∀ k < s.loop, (loops k).Consecutive ∧
    ∀ x, Counts (timesHanded loops k x h) ((loops k).start ≤ x ∧ x ≤ (loops k).stop)
  future : ∀ k, s.loop < k → ∀ x, timesHanded loops k x h = 0
  now : s.Fresh loops h ∨ s.Running loops h

section Steps

variable {loops : Nat → DynLoop} {s s' : DynState Core} {h es : List (DynEvent Core)} {c : Core}

omit [Fintype Core] in
private theorem goto_pc (s : DynState Core) (c k : Core) (pc : DynPc) :
    (s.goto c pc).pc k = if k = c then pc else s.pc k := by
  simp [DynState.goto, Function.update_apply]

theorem Team.setup_loopEpoch (team : Team) (l : DynLoop) :
    (team.setup l).loopEpoch = team.loopEpoch := by
  unfold Team.setup
  split <;> rfl

/-- Only the `GOMP` front end, here with an empty loop, omits the `isLast` pointer. -/
private theorem null_pointer {l : DynLoop} (hcons : l.Consecutive)
    (hnull : decide (l.front = FrontEnd.kmpc) = false) : l.stop < l.start := by
  rcases hcons with ⟨hf, -⟩ | ⟨-, hempty⟩
  · simp [hf] at hnull
  · exact hempty

omit [Fintype Core] in
/-- A thread joins a loop that is set up. -/
private theorem running_enter_late {b : Bool} (hcons : (loops s.loop).Consecutive)
    (hs : s.Sound loops h) (hset : s.team.loopIsSetup = true)
    (hb : b = false → (loops s.loop).stop < (loops s.loop).start) :
    (s.goto c (.fetching b)).Running loops h := by
  have hr : s.Running loops h := by
    rcases hs.now with hf | hr
    · exact absurd hf.cleared (by simp [hset])
    · exact hr
  refine ⟨hcons, hr.stop, hr.chunk, hr.lower, hr.fits, hr.handed, ?_, ?_, ?_, ?_⟩
  · intro k hk
    rw [goto_pc] at hk
    split at hk
    · cases hk
    · exact hr.exhausted k hk
  · intro hclear
    exact absurd hclear (by simp [DynState.goto, hset])
  · intro _
    exact ⟨c, b, by rw [goto_pc, if_pos rfl]⟩
  · intro k hk
    rw [goto_pc] at hk
    split at hk
    · cases hk
      exact hb rfl
    · exact hr.pointer k hk

omit [Fintype Core] in
/-- A thread sets the loop up: it is the first one, or the loop is empty. -/
private theorem running_enter_first {b : Bool} (hcons : (loops s.loop).Consecutive)
    (hlate : (∃ c, s.pc c = .finished) → (loops s.loop).stop < (loops s.loop).start)
    (htyped : (loops s.loop).Typed) (hs : s.Sound loops h) (hset : s.team.loopIsSetup = false)
    (hb : b = false → (loops s.loop).stop < (loops s.loop).start) :
    ({ s with team := s.team.setup (loops s.loop) }.goto c (.fetching b)).Running loops h := by
  have hteam : s.team.setup (loops s.loop) = { s.team with
      loopIsSetup := true, loopStart := (loops s.loop).start, loopEnd := (loops s.loop).stop,
      loopIncr := (loops s.loop).incr, loopChunk := (loops s.loop).chunk } := by
    simp [Team.setup, hset]
  rw [hteam]
  refine ⟨hcons, rfl, rfl, le_rfl, htyped.start, ?_, ?_, ?_, ?_, ?_⟩
  · intro x
    have hzero : timesHanded loops s.loop x h = 0 := by
      rcases hs.now with hf | hr
      · exact hf.handed x
      · have hempty := hlate (hr.cleared hset)
        exact (hr.handed x).2 (by omega)
    refine ⟨?_, fun _ => hzero⟩
    intro hx
    exact absurd hx.2.1 (not_lt.mpr hx.1)
  · intro k hk
    rw [goto_pc] at hk
    split at hk
    · cases hk
    · exact hlate ⟨k, hk⟩
  · intro hclear
    cases hclear
  · intro _
    exact ⟨c, b, by rw [goto_pc, if_pos rfl]⟩
  · intro k hk
    rw [goto_pc] at hk
    split at hk
    · cases hk
      exact hb rfl
    · rcases hs.now with hf | hr
      · cases (hf.entering k).symm.trans hk
      · exact hr.pointer k hk

omit [Fintype Core] in
/-- A thread finds the loop exhausted. -/
private theorem running_exhausted
    (hout : s.team.loopEnd < s.team.loopStart) (hr : s.Running loops h) :
    ({ s with team := { s.team with loopIsSetup := false } }.goto c .finished).Running loops
      (h ++ [DynEvent.noMoreWork s.loop c]) := by
  refine ⟨hr.consecutive, hr.stop, hr.chunk, hr.lower, hr.fits, ?_, ?_, ?_, ?_, ?_⟩
  · intro x
    rw [timesHanded_noMoreWork]
    exact hr.handed x
  · intro k _
    rw [hr.stop] at hout
    exact hout
  · intro _
    exact ⟨c, by rw [goto_pc, if_pos rfl]⟩
  · intro hset
    cases hset
  · intro k hk
    rw [goto_pc] at hk
    split at hk
    · cases hk
    · exact hr.pointer k hk

omit [Fintype Core] in
/-- A thread takes a chunk. -/
private theorem running_chunk
    (hmore : s.team.loopStart ≤ s.team.loopEnd)
    (hnext : Fits 32 (s.team.loopStart + s.team.loopChunk)) (hchunk : 1 ≤ s.team.loopChunk)
    (hr : s.Running loops h) :
    ({ s with team := { s.team with loopStart := s.team.loopStart + s.team.loopChunk } }.goto c
      (.fetching true)).Running loops
      (h ++ [DynEvent.handed s.loop c s.team.loopStart
        (min (s.team.loopStart + s.team.loopChunk - 1) s.team.loopEnd)
        (decide (s.team.loopEnd ≤ s.team.loopStart + s.team.loopChunk - 1))]) := by
  have hfront : (loops s.loop).front = .kmpc := by
    rcases hr.consecutive with ⟨hf, -⟩ | ⟨-, hempty⟩
    · exact hf
    · have hlow := hr.lower
      rw [hr.stop] at hmore
      omega
  have hlow := hr.lower
  have hstop := hr.stop
  refine ⟨hr.consecutive, hr.stop, hr.chunk, ?_, hnext, ?_, ?_, ?_, ?_, ?_⟩
  · simp only [DynState.goto]
    omega
  · intro x
    obtain ⟨hin, hout⟩ := hr.handed x
    have hruns : (loops s.loop).runs s.team.loopStart
        (min (s.team.loopStart + s.team.loopChunk - 1) s.team.loopEnd) x = true ↔
        s.team.loopStart ≤ x ∧ x < s.team.loopStart + s.team.loopChunk ∧
          x ≤ (loops s.loop).stop := by
      simp only [DynLoop.runs, hfront, decide_eq_true_eq, hstop]
      omega
    show Counts (timesHanded loops s.loop x _) ((loops s.loop).start ≤ x ∧
      x < s.team.loopStart + s.team.loopChunk ∧ x ≤ (loops s.loop).stop)
    rw [timesHanded_handed]
    by_cases hx : x < s.team.loopStart
    · rw [if_neg (fun hboth => hx.not_ge (hruns.mp hboth.2).1), Nat.add_zero]
      exact ⟨fun hmem => hin (by omega), fun hmem => hout (by omega)⟩
    · rw [hout (by omega), Nat.zero_add]
      refine ⟨?_, ?_⟩
      · intro hmem
        exact if_pos ⟨rfl, hruns.mpr (by omega)⟩
      · intro hmem
        apply if_neg
        intro hboth
        have hmem' := hruns.mp hboth.2
        omega
  · intro k hk
    rw [goto_pc] at hk
    split at hk
    · cases hk
    · have hout := hr.exhausted k hk
      omega
  · intro hclear
    obtain ⟨k, hk⟩ := hr.cleared hclear
    have hout := hr.exhausted k hk
    omega
  · intro _
    exact ⟨c, true, by rw [goto_pc, if_pos rfl]⟩
  · intro k hk
    rw [goto_pc] at hk
    split at hk
    · cases hk
    · exact hr.pointer k hk

private theorem sound_init (htimely : Timely loops s (.init c)) (htyped : ∀ k, (loops k).Typed)
    (hs : s.Sound loops h) (hstep : dynamicLoops loops s (.init c) = some (s', es)) :
    s'.Sound loops (h ++ es) := by
  have hepoch : ¬ s.team.loopEpoch - s.coreEpoch c ≠ 0 := by
    rw [hs.epochs c]
    omega
  obtain ⟨hcons, hlate⟩ := htimely
  simp only [dynamicLoops, hepoch, if_false] at hstep
  split at hstep
  · next hpc =>
    cases hstep
    rw [List.append_nil]
    refine ⟨?_, hs.defined, hs.past, hs.future, Or.inr ?_⟩
    · intro k
      exact (Team.setup_loopEpoch _ _).trans (hs.epochs k)
    · cases hset : s.team.loopIsSetup with
      | true =>
        have hteam : s.team.setup (loops s.loop) = s.team := by simp [Team.setup, hset]
        rw [hteam]
        exact running_enter_late hcons hs hset (null_pointer hcons)
      | false =>
        exact running_enter_first hcons hlate (htyped s.loop) hs hset (null_pointer hcons)
  · cases hstep

private theorem sound_iter (htimely : Timely loops s (.iter c)) (htyped : ∀ k, (loops k).Typed)
    (hs : s.Sound loops h) (hstep : dynamicLoops loops s (.iter c) = some (s', es)) :
    s'.Sound loops (h ++ es) := by
  simp only [dynamicLoops] at hstep
  split at hstep
  · next isLast hpc =>
    have hr : s.Running loops h := by
      rcases hs.now with hf | hr
      · exact absurd (hf.entering c) (by simp [hpc])
      · exact hr
    rcases lt_or_ge s.team.loopEnd s.team.loopStart with hout | hmore
    · rw [dynLoopIter_exhausted hout] at hstep
      cases hstep
      refine ⟨hs.epochs, ?_, ?_, ?_, Or.inr ?_⟩
      · intro k j hmem
        simp at hmem
        exact hs.defined k j hmem
      · intro k hk
        simpa using hs.past k hk
      · intro k hk
        simpa using hs.future k hk
      · exact running_exhausted hout hr
    · have hlast : isLast = true := by
        cases isLast with
        | true => rfl
        | false =>
          have hempty := hr.pointer c hpc
          have hlow := hr.lower
          rw [hr.stop] at hmore
          omega
      have hchunk : 1 ≤ s.team.loopChunk := by
        rw [hr.chunk]
        exact (htyped s.loop).chunk
      subst hlast
      rw [dynLoopIter_chunk hmore hr.fits (htimely hmore) hchunk] at hstep
      cases hstep
      refine ⟨hs.epochs, ?_, ?_, ?_, Or.inr ?_⟩
      · intro k j hmem
        simp at hmem
        exact hs.defined k j hmem
      · intro k hk
        refine ⟨(hs.past k hk).1, ?_⟩
        intro x
        have hne : s.loop ≠ k := Nat.ne_of_gt hk
        simpa [timesHanded_handed, hne] using (hs.past k hk).2 x
      · intro k hk x
        have hne : s.loop ≠ k := Nat.ne_of_lt hk
        simpa [timesHanded_handed, hne] using hs.future k hk x
      · exact running_chunk hmore (htimely hmore) hchunk hr
  · cases hstep

private theorem sound_barrier [Nonempty Core] (hs : s.Sound loops h)
    (hstep : dynamicLoops loops s .barrier = some (s', es)) : s'.Sound loops (h ++ es) := by
  simp only [dynamicLoops] at hstep
  split at hstep
  · next hall =>
    cases hstep
    obtain ⟨c⟩ := ‹Nonempty Core›
    have hr : s.Running loops h := by
      rcases hs.now with hf | hr
      · exact absurd (hf.entering c) (by simp [hall c])
      · exact hr
    have hout := hr.exhausted c (hall c)
    rw [List.append_nil]
    refine ⟨hs.epochs, hs.defined, ?_, ?_, Or.inl ⟨fun _ => rfl, ?_, ?_⟩⟩
    · intro k hk
      rcases Nat.lt_succ_iff_lt_or_eq.mp hk with hlt | heq
      · exact hs.past k hlt
      · subst heq
        refine ⟨hr.consecutive, ?_⟩
        intro x
        obtain ⟨hin, hnot⟩ := hr.handed x
        exact ⟨fun hx => hin (by omega), fun hx => hnot (by omega)⟩
    · intro k hk
      exact hs.future k (Nat.lt_of_succ_lt hk)
    · by_contra hset
      obtain ⟨k, isLast, hk⟩ := hr.setup (by simpa using hset)
      simp [hall k] at hk
    · exact hs.future (s.loop + 1) (Nat.lt_succ_self _)
  · cases hstep

theorem sound_step [Nonempty Core] {step : DynStep Core} (htimely : Timely loops s step)
    (htyped : ∀ k, (loops k).Typed) (hs : s.Sound loops h)
    (hstep : dynamicLoops loops s step = some (s', es)) : s'.Sound loops (h ++ es) := by
  cases step with
  | init c => exact sound_init htimely htyped hs hstep
  | iter c => exact sound_iter htimely htyped hs hstep
  | barrier => exact sound_barrier hs hstep

omit [DecidableEq Core] [Fintype Core] in
theorem sound_start (loops : Nat → DynLoop) (team : Team) :
    (DynState.start team : DynState Core).Sound loops [] := by
  refine ⟨fun _ => rfl, by simp, ?_, fun _ _ _ => rfl, Or.inl ⟨fun _ => rfl, rfl, fun _ => rfl⟩⟩
  intro k hk
  exact absurd hk (Nat.not_lt_zero k)

theorem sound_run [Nonempty Core] {team : Team} {steps : List (DynStep Core)}
    (htyped : ∀ k, (loops k).Typed)
    (hok : Machine.Along (dynamicLoops loops) (Timely loops) (DynState.start team) steps)
    (hrun : (dynamicLoops loops).run (DynState.start team) steps = some (s, h)) :
    s.Sound loops h :=
  Machine.run_history (fun s h => s.Sound loops h) (Timely loops)
    (fun _ _ _ _ _ hs htimely hstep => sound_step htimely htyped hs hstep) (h := [])
    (sound_start loops team) hok hrun

omit [DecidableEq Core] [Fintype Core] in
/-- Only iterations are handed out, and none twice. -/
theorem DynState.Sound.at_most_once (hs : s.Sound loops h) (k : Nat) (x : Int) :
    timesHanded loops k x h = 0 ∨
      timesHanded loops k x h = 1 ∧ (loops k).IsIteration x := by
  rcases lt_trichotomy k s.loop with hlt | heq | hgt
  · obtain ⟨hcons, hcount⟩ := hs.past k hlt
    by_cases hx : (loops k).start ≤ x ∧ x ≤ (loops k).stop
    · exact Or.inr ⟨(hcount x).1 hx, (hcons.isIteration_iff x).mpr hx⟩
    · exact Or.inl ((hcount x).2 hx)
  · subst heq
    rcases hs.now with hf | hr
    · exact Or.inl (hf.handed x)
    · by_cases hx : (loops s.loop).start ≤ x ∧ x < s.team.loopStart ∧ x ≤ (loops s.loop).stop
      · exact Or.inr ⟨(hr.handed x).1 hx, (hr.consecutive.isIteration_iff x).mpr ⟨hx.1, hx.2.2⟩⟩
      · exact Or.inl ((hr.handed x).2 hx)
  · exact Or.inl (hs.future k hgt x)

omit [DecidableEq Core] [Fintype Core] in
/-- A loop that all threads have left has been handed out completely. -/
theorem DynState.Sound.complete [Nonempty Core] (hs : s.Sound loops h) {k : Nat} {x : Int}
    (hk : k < s.loop ∨ k = s.loop ∧ ∀ c, s.pc c = .finished) (hx : (loops k).IsIteration x) :
    timesHanded loops k x h = 1 := by
  rcases hk with hlt | ⟨rfl, hall⟩
  · obtain ⟨hcons, hcount⟩ := hs.past k hlt
    exact (hcount x).1 ((hcons.isIteration_iff x).mp hx)
  · obtain ⟨c⟩ := ‹Nonempty Core›
    rcases hs.now with hf | hr
    · cases (hf.entering c).symm.trans (hall c)
    · have hout := hr.exhausted c (hall c)
      have hmem := (hr.consecutive.isIteration_iff x).mp hx
      exact (hr.handed x).1 (by omega)

end Steps

/-- In every run whose steps are all `Timely` no thread runs into undefined behaviour, each index
handed out is an iteration of the loop it is handed out for and is handed out once, and a loop that
all threads have been told to leave has had all its iterations handed out. -/
theorem dynamic_loops_exactly_once [Nonempty Core] (loops : Nat → DynLoop) (team : Team)
    (steps : List (DynStep Core)) (s : DynState Core) (h : List (DynEvent Core))
    (htyped : ∀ k, (loops k).Typed)
    (hok : Machine.Along (dynamicLoops loops) (Timely loops) (DynState.start team) steps)
    (hrun : (dynamicLoops loops).run (DynState.start team) steps = some (s, h)) :
    (∀ k c, .undefined k c ∉ h) ∧
    (∀ k x, timesHanded loops k x h = 0 ∨
      timesHanded loops k x h = 1 ∧ (loops k).IsIteration x) ∧
    ∀ k x, k < s.loop ∨ k = s.loop ∧ (∀ c, s.pc c = .finished) → (loops k).IsIteration x →
      timesHanded loops k x h = 1 := by
  have hs := sound_run htyped hok hrun
  exact ⟨hs.defined, hs.at_most_once, fun k x hk hx => hs.complete hk hx⟩

/-- Two threads share the indices `3..5` in chunks of two. -/
def sharedThree : Nat → DynLoop := fun _ => ⟨.kmpc, 3, 5, 1, 2⟩

local instance neZeroThreads : NeZero 2 := ⟨two_ne_zero⟩

def sharedThreeSteps : List (DynStep (Fin 2)) :=
  [.init 0, .init 1, .iter 0, .iter 1, .iter 1, .iter 0, .barrier]

theorem dynamic_loops_exactly_once_shared :
    ∃ s h, (dynamicLoops sharedThree).run (DynState.start ⟨0, 0, 0, 0, 0, false⟩)
        sharedThreeSteps = some (s, h) ∧ s.loop = 1 ∧
      ∀ x, (sharedThree 0).IsIteration x → timesHanded sharedThree 0 x h = 1 := by
  have hsome : ((dynamicLoops sharedThree).run (DynState.start ⟨0, 0, 0, 0, 0, false⟩)
      sharedThreeSteps).isSome := by decide
  obtain ⟨⟨s, h⟩, hrun⟩ := Option.isSome_iff_exists.mp hsome
  have hloop : ((dynamicLoops sharedThree).run (DynState.start ⟨0, 0, 0, 0, 0, false⟩)
      sharedThreeSteps).map (fun r => r.1.loop) = some 1 := by decide
  rw [hrun] at hloop
  have hloop' : s.loop = 1 := Option.some.inj hloop
  refine ⟨s, h, hrun, hloop', ?_⟩
  intro x hx
  exact (dynamic_loops_exactly_once sharedThree _ sharedThreeSteps s h
    (fun _ => ⟨show Fits 32 3 by decide, show (1 : Int) ≤ 2 by decide⟩) (by decide) hrun).2.2 0 x (Or.inl (by omega)) hx

/-- The number of loops a run completes and how often it hands out index `x` of the first one. -/
def outcome {n : Nat} (l : DynLoop) (steps : List (DynStep (Fin n))) (x : Int) :
    Option (Nat × Nat) :=
  ((dynamicLoops fun _ => l).run (DynState.start ⟨0, 0, 0, 0, 0, false⟩) steps).map
    fun r => (r.1.loop, timesHanded (fun _ => l) 0 x r.2)

/-- A late thread sets the loop up again and repeats its only iteration; an increment of two is
ignored; the exclusive end of `GOMP` code loses the last index of a chunk. -/
theorem dynamic_loops_not_exactly_once :
    (DynLoop.mk .kmpc 7 7 1 1).IsIteration 7 ∧
    outcome (n := 2) ⟨.kmpc, 7, 7, 1, 1⟩
      [.init 0, .iter 0, .iter 0, .init 1, .iter 1, .iter 1, .barrier] 7 = some (1, 2) ∧
    ¬ (DynLoop.mk .kmpc 0 2 2 1).IsIteration 1 ∧
    outcome (n := 1) ⟨.kmpc, 0, 2, 2, 1⟩ [.init 0, .iter 0, .iter 0, .iter 0, .iter 0, .barrier] 1
      = some (1, 1) ∧
    (DynLoop.mk .gomp 0 4 1 3).IsIteration 2 ∧
    outcome (n := 1) ⟨.gomp, 0, 4, 1, 3⟩ [.init 0, .iter 0, .iter 0, .iter 0, .barrier] 2
      = some (1, 0) := by
  refine ⟨by simp [DynLoop.IsIteration], by decide, by simp [DynLoop.IsIteration], by decide,
    by simp [DynLoop.IsIteration], by decide⟩

end Hero.Omp
