import Hero.Omp.DynamicLoop
import Hero.Omp.WideLoop

/-!
# Dynamic scheduling of 64-bit unsigned loops

`__kmpc_dispatch_init_8u` and `__kmpc_dispatch_next_8u` share the loops of the 32-bit entry points:
bounds, increment and chunk become `kmp_int32`, and the bounds of a chunk are converted back.
-/

namespace Hero.Omp

open Hero.Checked Hero.Progression

/-- The arguments of `__kmpc_dispatch_init_8u`. -/
structure Dispatch8u where
  lb : Int
  ub : Int
  st : Int
  chunk : Int

namespace Dispatch8u

/-- The loop that is asked for. -/
def loop (w : Dispatch8u) : DynLoop := ⟨.kmpc, w.lb, w.ub, w.st, w.chunk⟩

/-- The bounds are `kmp_uint64`. -/
structure Typed (w : Dispatch8u) : Prop where
  lb : LoopType.u8.Has w.lb
  ub : LoopType.u8.Has w.ub

/-- Both bounds convert to `kmp_int32` and back alike, and the increment and a positive chunk
survive. -/
structure Carried (w : Dispatch8u) : Prop where
  bounds : w.lb < 2 ^ 31 ∧ w.ub < 2 ^ 31 ∨ 2 ^ 64 - 2 ^ 31 ≤ w.lb ∧ 2 ^ 64 - 2 ^ 31 ≤ w.ub
  incr : Fits 32 w.st ∨ w.lb = w.ub
  chunk : 1 ≤ kmpInt32 w.chunk

end Dispatch8u

/-- The arguments that reach `__kmpc_dispatch_init_4`. -/
def kmpcDispatchInit8u (w : Dispatch8u) : DynLoop :=
  ⟨.kmpc, kmpInt32 w.lb, kmpInt32 w.ub, kmpInt32 w.st, kmpInt32 w.chunk⟩

variable {Core : Type*} [DecidableEq Core] [Fintype Core]

/-- Whether `__kmpc_dispatch_next_8u` hands out index `x` of loop `k` when `__kmpc_dispatch_next_4`
returns with the event. -/
def DynEvent.hands8u (k : Nat) (x : Int) : DynEvent Core → Bool
  | .handed j _ istart iend _ =>
    j = k && (LoopType.u8.cast istart ≤ x && x ≤ LoopType.u8.cast iend)
  | _ => false

def timesHanded8u (k : Nat) (x : Int) (h : List (DynEvent Core)) : Nat :=
  h.countP (DynEvent.hands8u k x)

section Steps

variable {loops : Nat → DynLoop} {s s' : DynState Core} {h es : List (DynEvent Core)}
  {step : DynStep Core}

/-- Chunks lie within their loop. -/
def ChunksInside (loops : Nat → DynLoop) (h : List (DynEvent Core)) : Prop :=
  ∀ j c istart iend last, .handed j c istart iend last ∈ h →
    (loops j).start ≤ istart ∧ istart ≤ iend ∧ iend ≤ (loops j).stop

omit [DecidableEq Core] [Fintype Core] in
theorem ChunksInside.append_other (hin : ChunksInside loops h)
    (hes : ∀ j c istart iend last, .handed j c istart iend last ∉ es) :
    ChunksInside loops (h ++ es) := by
  intro j c istart iend last hmem
  rcases List.mem_append.mp hmem with hmem | hmem
  · exact hin j c istart iend last hmem
  · exact absurd hmem (hes j c istart iend last)

theorem inside_iter {c : Core} (htimely : Timely loops s (.iter c))
    (htyped : ∀ k, (loops k).Typed) (hs : s.Sound loops h) (hin : ChunksInside loops h)
    (hstep : dynamicLoops loops s (.iter c) = some (s', es)) : ChunksInside loops (h ++ es) := by
  simp only [dynamicLoops] at hstep
  split at hstep
  · next isLast hpc =>
    have hr : s.Running loops h := by
      rcases hs.now with hf | hr
      · exact absurd (hf.entering c) (by simp [hpc])
      · exact hr
    have hlow := hr.lower
    have hstop := hr.stop
    have hchunk : 1 ≤ s.team.loopChunk := by
      rw [hr.chunk]
      exact (htyped s.loop).chunk
    rcases lt_or_ge s.team.loopEnd s.team.loopStart with hout | hmore
    · rw [dynLoopIter_exhausted hout] at hstep
      cases hstep
      exact hin.append_other (by simp)
    · have hlast : isLast = true := by
        cases isLast with
        | true => rfl
        | false =>
          have hempty := hr.pointer c hpc
          omega
      subst hlast
      rw [dynLoopIter_chunk hmore hr.fits (htimely hmore) hchunk] at hstep
      cases hstep
      intro j k istart iend last hmem
      rcases List.mem_append.mp hmem with hmem | hmem
      · exact hin j k istart iend last hmem
      · simp only [List.mem_singleton, DynEvent.handed.injEq] at hmem
        obtain ⟨rfl, -, rfl, rfl, -⟩ := hmem
        omega
  · cases hstep

theorem inside_step (htimely : Timely loops s step) (htyped : ∀ k, (loops k).Typed)
    (hs : s.Sound loops h) (hin : ChunksInside loops h)
    (hstep : dynamicLoops loops s step = some (s', es)) : ChunksInside loops (h ++ es) := by
  cases step with
  | init c =>
    refine hin.append_other ?_
    simp only [dynamicLoops] at hstep
    split at hstep
    · split at hstep
      · split at hstep <;> cases hstep <;> simp
      · cases hstep
        simp
    · cases hstep
  | iter c => exact inside_iter htimely htyped hs hin hstep
  | barrier =>
    refine hin.append_other ?_
    simp only [dynamicLoops] at hstep
    split at hstep
    · cases hstep
      simp
    · cases hstep

theorem inside_run [Nonempty Core] {team : Team} {steps : List (DynStep Core)}
    (htyped : ∀ k, (loops k).Typed)
    (hok : Machine.Along (dynamicLoops loops) (Timely loops) (DynState.start team) steps)
    (hrun : (dynamicLoops loops).run (DynState.start team) steps = some (s, h)) :
    s.Sound loops h ∧ ChunksInside loops h := by
  refine Machine.run_history (fun s h => s.Sound loops h ∧ ChunksInside loops h) (Timely loops) ?_
    (h := []) ⟨sound_start loops team, by simp [ChunksInside]⟩ hok hrun
  intro s h i s' es hinv htimely hstep
  exact ⟨sound_step htimely htyped hinv.1 hstep, inside_step htimely htyped hinv.1 hinv.2 hstep⟩

end Steps

section Conversion

variable {w : Dispatch8u} {x : Int}

/-- The narrow loop is the wide one, or the wide one shifted down by `2 ^ 64`. -/
theorem Dispatch8u.Carried.shifted (htyped : w.Typed) (hc : w.Carried) :
    ∃ δ : Int, (kmpcDispatchInit8u w).start = w.lb - δ ∧ (kmpcDispatchInit8u w).stop = w.ub - δ ∧
      ∀ y, w.lb - δ ≤ y → y ≤ w.ub - δ → LoopType.u8.cast y = y + δ := by
  have hlb := htyped.lb
  have hub := htyped.ub
  unfold LoopType.Has Wrap.In at hlb hub
  simp only [LoopType.least, LoopType.width, zero_add] at hlb hub
  have hcast : ∀ δ : Int, 2 ^ 64 ∣ δ → ∀ y, w.lb - δ ≤ y → y ≤ w.ub - δ →
      LoopType.u8.cast y = y + δ := by
    intro δ hδ y hy hy'
    have hhas : LoopType.u8.Has (y + δ) := by
      unfold LoopType.Has Wrap.In
      simp only [LoopType.least, LoopType.width, zero_add]
      omega
    rw [LoopType.cast_eq_iff hhas, sub_add_cancel_left, Int.dvd_neg]
    exact hδ
  have hnarrow : ∀ {y δ : Int}, 2 ^ 64 ∣ δ → Fits 32 (y - δ) → kmpInt32 y = y - δ := by
    intro y δ hδ hfit
    rw [kmpInt32, Wrap.wrap_eq_iff (by decide) (fits_iff_in.mp hfit), sub_sub_cancel]
    exact dvd_trans (by decide) hδ
  rcases hc.bounds with ⟨h0, h1⟩ | ⟨h0, h1⟩
  · refine ⟨0, ?_, ?_, hcast 0 (dvd_zero _)⟩
    · exact hnarrow (dvd_zero _) (by unfold Fits; omega)
    · exact hnarrow (dvd_zero _) (by unfold Fits; omega)
  · refine ⟨2 ^ 64, ?_, ?_, hcast _ (dvd_refl _)⟩
    · exact hnarrow (dvd_refl _) (by unfold Fits; omega)
    · exact hnarrow (dvd_refl _) (by unfold Fits; omega)

theorem Dispatch8u.Carried.typed (hc : w.Carried) : (kmpcDispatchInit8u w).Typed :=
  ⟨fits_kmpInt32 w.lb, hc.chunk⟩

/-- A loop of one index has no other iteration, whatever the increment. -/
theorem isIteration_single {l : DynLoop} (hfront : l.front = .kmpc) (hone : l.start = l.stop) :
    l.IsIteration x ↔ x = l.start := by
  simp only [DynLoop.IsIteration, hfront, ← hone]
  constructor
  · intro hx
    obtain ⟨-, hx⟩ := hx
    split at hx <;> omega
  · intro hx
    rw [hx, sub_self]
    refine ⟨dvd_zero _, ?_⟩
    split <;> exact ⟨le_rfl, le_rfl⟩

theorem Dispatch8u.Carried.isIteration (hc : w.Carried) {δ : Int}
    (hstart : (kmpcDispatchInit8u w).start = w.lb - δ)
    (hstop : (kmpcDispatchInit8u w).stop = w.ub - δ) :
    w.loop.IsIteration x ↔ (kmpcDispatchInit8u w).IsIteration (x - δ) := by
  rcases hc.incr with hfit | hone
  · have hincr : (kmpcDispatchInit8u w).incr = w.st := kmpInt32_of_fits hfit
    have hfront : (kmpcDispatchInit8u w).front = .kmpc := rfl
    simp only [DynLoop.IsIteration, hfront, hincr, hstart, hstop, Dispatch8u.loop,
      sub_sub_sub_cancel_right, sub_le_sub_iff_right]
    rfl
  · rw [isIteration_single rfl hone, isIteration_single rfl (by rw [hstart, hstop, hone]), hstart]
    simp only [Dispatch8u.loop]
    omega

end Conversion

section Runs

variable {loops : Nat → Dispatch8u} {s : DynState Core} {h : List (DynEvent Core)}

omit [DecidableEq Core] [Fintype Core] in
/-- The indices that come back are those of the narrow loop, shifted. -/
theorem timesHanded8u_eq (hin : ChunksInside (fun k => kmpcDispatchInit8u (loops k)) h) {k : Nat}
    {δ x : Int} (hstart : (kmpcDispatchInit8u (loops k)).start = (loops k).lb - δ)
    (hstop : (kmpcDispatchInit8u (loops k)).stop = (loops k).ub - δ)
    (hcast : ∀ y, (loops k).lb - δ ≤ y → y ≤ (loops k).ub - δ → LoopType.u8.cast y = y + δ) :
    timesHanded8u k x h = timesHanded (fun k => kmpcDispatchInit8u (loops k)) k (x - δ) h := by
  refine List.countP_congr ?_
  intro ev hev
  cases ev with
  | handed j c istart iend last =>
    obtain ⟨h0, h1, h2⟩ := hin j c istart iend last hev
    by_cases hj : j = k
    · subst hj
      rw [hstart] at h0
      rw [hstop] at h2
      have hfront : (kmpcDispatchInit8u (loops j)).front = .kmpc := rfl
      simp only [DynEvent.hands8u, DynEvent.hands, DynLoop.runs, hfront,
        hcast istart h0 (h1.trans h2), hcast iend (h0.trans h1) h2, decide_true, Bool.true_and,
        Bool.and_eq_true, decide_eq_true_eq]
      omega
    · simp [DynEvent.hands8u, DynEvent.hands, hj]
  | noMoreWork => rfl
  | undefined => rfl

/-- In every run whose steps are `Timely` for the loops that reach the narrow entry points, exactly
the iterations of the wide loops are handed out. -/
theorem dispatch8u_exactly_once [Nonempty Core] {team : Team} {steps : List (DynStep Core)}
    (htyped : ∀ k, (loops k).Typed) (hcarried : ∀ k, (loops k).Carried)
    (hok : Machine.Along (dynamicLoops fun k => kmpcDispatchInit8u (loops k))
      (Timely fun k => kmpcDispatchInit8u (loops k)) (DynState.start team) steps)
    (hrun : (dynamicLoops fun k => kmpcDispatchInit8u (loops k)).run (DynState.start team) steps =
      some (s, h)) :
    (∀ k c, .undefined k c ∉ h) ∧
    (∀ k x, timesHanded8u k x h = 0 ∨
      timesHanded8u k x h = 1 ∧ (loops k).loop.IsIteration x) ∧
    ∀ k x, k < s.loop ∨ k = s.loop ∧ (∀ c, s.pc c = .finished) → (loops k).loop.IsIteration x →
      timesHanded8u k x h = 1 := by
  obtain ⟨hs, hin⟩ := inside_run (fun k => (hcarried k).typed) hok hrun
  refine ⟨hs.defined, ?_, ?_⟩
  · intro k x
    obtain ⟨δ, hstart, hstop, hcast⟩ := (hcarried k).shifted (htyped k)
    rw [timesHanded8u_eq hin hstart hstop hcast, (hcarried k).isIteration hstart hstop]
    exact hs.at_most_once k (x - δ)
  · intro k x hk hx
    obtain ⟨δ, hstart, hstop, hcast⟩ := (hcarried k).shifted (htyped k)
    rw [timesHanded8u_eq hin hstart hstop hcast]
    exact hs.complete hk (((hcarried k).isIteration hstart hstop).mp hx)

end Runs

/-- The wider entry points hand out the static partition exactly when the narrow routine carries it,
and the iterations of dynamic loops in every run whose loops and steps do. -/
theorem wide_loops_agree_iff [Nonempty Core] :
    (∀ (e : LoopType) (p : Loop) (c : Int) (T : Nat), p.Wide e → 0 < T →
      ((∀ t < T, ∃ r, wideInit e T kmpSchedStaticChunk c p t = some r ∧ p.ChunkGiven c T t r) ↔
        p.ChunkCarried e c T)) ∧
    (∀ (e : LoopType) (p : Loop) (c : Int) (T : Nat), p.Wide e → Within p.d p.l p.u → 0 < T →
      ((∀ t < T, ∃ r, wideInit e T kmpSchedStaticNochunk c p t = some r ∧ p.BlockGiven T t r) ↔
        p.BlockCarried e T)) ∧
    ∀ (loops : Nat → Dispatch8u) (team : Team) (steps : List (DynStep Core)) (s : DynState Core)
      (h : List (DynEvent Core)), (∀ k, (loops k).Typed) → (∀ k, (loops k).Carried) →
      Machine.Along (dynamicLoops fun k => kmpcDispatchInit8u (loops k))
        (Timely fun k => kmpcDispatchInit8u (loops k)) (DynState.start team) steps →
      (dynamicLoops fun k => kmpcDispatchInit8u (loops k)).run (DynState.start team) steps =
        some (s, h) →
      (∀ k c, .undefined k c ∉ h) ∧
      (∀ k x, timesHanded8u k x h = 0 ∨
        timesHanded8u k x h = 1 ∧ (loops k).loop.IsIteration x) ∧
      ∀ k x, k < s.loop ∨ k = s.loop ∧ (∀ c, s.pc c = .finished) → (loops k).loop.IsIteration x →
        timesHanded8u k x h = 1 := by
  refine ⟨?_, ?_, ?_⟩
  · intro e p c T hp hT
    exact chunkGiven_iff hp hT
  · intro e p c T hp hw hT
    exact blockGiven_iff hp hw hT
  · intro loops team steps s h htyped hcarried hok hrun
    exact dispatch8u_exactly_once htyped hcarried hok hrun

/-- Two threads share `2^64 - 4 .. 2^64 - 1` with either schedule, and in chunks of two. -/
def topFour : Nat → Dispatch8u := fun _ => ⟨2 ^ 64 - 4, 2 ^ 64 - 1, 1, 2⟩

local instance neZeroSharers : NeZero 2 := ⟨two_ne_zero⟩

def topFourSteps : List (DynStep (Fin 2)) :=
  [.init 0, .init 1, .iter 0, .iter 1, .iter 1, .iter 0, .barrier]

theorem wide_loops_agree_top :
    (∀ t < 2, ∃ r, wideInit .u8 2 kmpSchedStaticChunk 2 ⟨2 ^ 64 - 4, 2 ^ 64 - 1, 1⟩ t = some r ∧
      (Loop.mk (2 ^ 64 - 4) (2 ^ 64 - 1) 1).ChunkGiven 2 2 t r) ∧
    (∀ t < 2, ∃ r, wideInit .u8 2 kmpSchedStaticNochunk 0 ⟨2 ^ 64 - 4, 2 ^ 64 - 1, 1⟩ t = some r ∧
      (Loop.mk (2 ^ 64 - 4) (2 ^ 64 - 1) 1).BlockGiven 2 t r) ∧
    ∃ s h, (dynamicLoops fun k => kmpcDispatchInit8u (topFour k)).run
        (DynState.start ⟨0, 0, 0, 0, 0, false⟩) topFourSteps = some (s, h) ∧
      ∀ x, timesHanded8u 0 x h = 0 ∨ timesHanded8u 0 x h = 1 ∧ (topFour 0).loop.IsIteration x := by
  have hagree := @wide_loops_agree_iff (Fin 2) _ _ _
  have hwide : (Loop.mk (2 ^ 64 - 4) (2 ^ 64 - 1) 1).Wide .u8 :=
    ⟨by decide, by decide, by decide, by decide⟩
  refine ⟨?_, ?_, ?_⟩
  · refine (hagree.1 .u8 _ 2 2 hwide (by decide)).mpr ⟨by decide, by decide, by decide, ?_, ?_, ?_⟩
    · intro t ht
      rw [Loop.chunkDefined_iff]
      rcases (by omega : t = 0 ∨ t = 1) with rfl | rfl <;> decide
    · intro t ht
      rcases (by omega : t = 0 ∨ t = 1) with rfl | rfl <;> decide
    · intro t ht
      rcases (by omega : t = 0 ∨ t = 1) with rfl | rfl <;> decide
  · refine (hagree.2.1 .u8 _ 0 2 hwide (by decide) (by decide)).mpr
      ⟨by decide, ?_, by decide, by decide, by decide, by decide, by decide⟩
    intro t ht
    rw [Loop.blockDefined_iff]
    rcases (by omega : t = 0 ∨ t = 1) with rfl | rfl <;> decide
  · have hsome : ((dynamicLoops fun k => kmpcDispatchInit8u (topFour k)).run
        (DynState.start ⟨0, 0, 0, 0, 0, false⟩) topFourSteps).isSome := by decide
    obtain ⟨⟨s, h⟩, hrun⟩ := Option.isSome_iff_exists.mp hsome
    refine ⟨s, h, hrun, ?_⟩
    have htyped : (topFour 0).Typed := ⟨by decide, by decide⟩
    have hcarried : (topFour 0).Carried := ⟨by decide, by decide, by decide⟩
    exact (hagree.2.2 topFour _ topFourSteps s h (fun _ => htyped) (fun _ => hcarried) (by decide)
      hrun).2.1 0

/-- A `kmp_uint64` loop from `2^31`, a `kmp_int64` loop from `2^32`, a `kmp_uint32` loop of `2^31`
iterations and a dynamic loop at `2^31` are sent elsewhere. -/
theorem wide_loops_disagree :
    ((Loop.mk (2 ^ 31) (2 ^ 31 + 3) 1).Wide .u8 ∧
      ¬ ∃ r, wideInit .u8 2 kmpSchedStaticNochunk 0 ⟨2 ^ 31, 2 ^ 31 + 3, 1⟩ 0 = some r ∧
        (Loop.mk (2 ^ 31) (2 ^ 31 + 3) 1).BlockGiven 2 0 r) ∧
    ((Loop.mk (2 ^ 32) (2 ^ 32 + 3) 1).Wide .s8 ∧
      ¬ ∃ r, wideInit .s8 2 kmpSchedStaticChunk 2 ⟨2 ^ 32, 2 ^ 32 + 3, 1⟩ 0 = some r ∧
        (Loop.mk (2 ^ 32) (2 ^ 32 + 3) 1).ChunkGiven 2 2 0 r) ∧
    ((Loop.mk 1 (2 ^ 31) 1).Wide .u4 ∧
      wideInit .u4 2 kmpSchedStaticNochunk 0 ⟨1, 2 ^ 31, 1⟩ 0 = none) ∧
    ((⟨2 ^ 31, 2 ^ 31, 1, 1⟩ : Dispatch8u).loop.IsIteration (2 ^ 31) ∧
      ((dynamicLoops fun _ => kmpcDispatchInit8u ⟨2 ^ 31, 2 ^ 31, 1, 1⟩).run
          (DynState.start ⟨0, 0, 0, 0, 0, false⟩ : DynState (Fin 1))
          [.init 0, .iter 0, .iter 0, .barrier]).map
        (fun r => (r.1.loop, timesHanded8u 0 (2 ^ 31) r.2)) = some (1, 0)) := by
  refine ⟨⟨⟨by decide, by decide, by decide, by decide⟩, ?_⟩,
    ⟨⟨by decide, by decide, by decide, by decide⟩, ?_⟩,
    ⟨⟨by decide, by decide, by decide, by decide⟩, by decide⟩, ?_, by decide⟩
  · intro h
    obtain ⟨r, hr, hgiven⟩ := h
    have hval : wideInit .u8 2 kmpSchedStaticNochunk 0 ⟨2 ^ 31, 2 ^ 31 + 3, 1⟩ 0 =
        some ⟨some 0, 2 ^ 64 - 2 ^ 31, 2 ^ 64 - 2 ^ 31 + 1, 4⟩ := by decide
    rw [hval, Option.some.injEq] at hr
    have hshare : (Loop.mk (2 ^ 31) (2 ^ 31 + 3) 1).share 2 0 ≠ 0 := by decide
    rw [Loop.BlockGiven, if_neg hshare, ← hr] at hgiven
    exact absurd hgiven.1 (by decide)
  · intro h
    obtain ⟨r, hr, hgiven⟩ := h
    have hval : wideInit .s8 2 kmpSchedStaticChunk 2 ⟨2 ^ 32, 2 ^ 32 + 3, 1⟩ 0 =
        some ⟨some 0, 0, 1, 4⟩ := by decide
    rw [hval, Option.some.injEq] at hr
    rw [← hr] at hgiven
    exact absurd hgiven.1 (by decide)
  · simp [DynLoop.IsIteration, Dispatch8u.loop]

end Hero.Omp
