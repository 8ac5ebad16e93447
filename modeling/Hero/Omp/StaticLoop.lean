import Hero.Framework.Checked
import Hero.Framework.Progression

/-!
# Static loop scheduling

`__kmpc_for_static_init_4` hands each thread of a team its sub-range of a counted loop.  All
arithmetic is on `kmp_int32`, so an intermediate result outside 32 bits is undefined.
-/

namespace Hero.Omp

open Hero.Checked Hero.Progression

/-- Schedules the routine distinguishes. -/
def kmpSchedStaticChunk : Int := 33

def kmpSchedStaticNochunk : Int := 34

/-- The variables behind the routine's pointers; a NULL `plastiter` is `none`. -/
structure StaticRange where
  plastiter : Option Int
  plower : Int
  pupper : Int
  pstride : Int
  deriving DecidableEq, Repr

/-- `__kmpc_for_static_init_4` run by thread `threadNum` of a team of `nbThreads`. -/
def kmpcForStaticInit4 (nbThreads threadNum sched incr chunk : Int) (r : StaticRange) :
    Option StaticRange := do
  let loopSize ← add 32 (← div 32 (← sub 32 r.pupper r.plower) incr) 1
  let globalUpper := r.pupper
  if sched = kmpSchedStaticChunk then
    let span ← mul 32 incr chunk
    let pstride ← mul 32 span nbThreads
    let plower ← add 32 r.plower (← mul 32 span threadNum)
    let pupper ← sub 32 (← add 32 plower span) incr
    let beginLastChunk ← sub 32 globalUpper (← mod 32 globalUpper span)
    let rest ← mod 32 (← sub 32 beginLastChunk plower) pstride
    -- the flag is stored without a NULL check in this branch
    let _ ← r.plastiter
    return ⟨some (if rest = 0 then 1 else 0), plower, pupper, pstride⟩
  else if sched = kmpSchedStaticNochunk then
    let chunk ← div 32 loopSize nbThreads
    let leftOver ← sub 32 loopSize (← mul 32 chunk nbThreads)
    let (chunk, plower) ←
      if threadNum < leftOver then do
        let chunk ← add 32 chunk 1
        pure (chunk, ← add 32 r.plower (← mul 32 (← mul 32 threadNum chunk) incr))
      else do
        let start ← add 32 r.plower (← mul 32 (← mul 32 threadNum chunk) incr)
        pure (chunk, ← add 32 start leftOver)
    let pupper ← sub 32 (← add 32 plower (← mul 32 chunk incr)) incr
    let last : Int := if pupper = globalUpper ∧ plower ≤ globalUpper then 1 else 0
    return ⟨r.plastiter.map fun _ => last, plower, pupper, loopSize⟩
  else
    return r

/-- The loop whose iterations `l, l + d, ...` up to `u` a team shares. -/
structure Loop where
  l : Int
  u : Int
  d : Int

namespace Loop

/-- A non-empty loop with a non-zero increment whose bounds and trip count are `kmp_int32`. -/
structure Valid (p : Loop) : Prop where
  step : p.d ≠ 0
  nonempty : Within p.d p.l p.u
  lower : Fits 32 p.l
  upper : Fits 32 p.u
  incr : Fits 32 p.d
  count : Fits 32 (tripCount p.l p.u p.d)

def trips (p : Loop) : Nat := tripCount p.l p.u p.d

def iterations (p : Loop) : Set Int := visited p.l p.u p.d

def lastIteration (p : Loop) : Int := p.l + (p.trips - 1 : Nat) * p.d

end Loop

/-- The routine called by thread `t` on the bounds of the whole loop, with `plastiter` set. -/
def staticInit (T : Nat) (sched chunk : Int) (p : Loop) (t : Nat) : Option StaticRange :=
  kmpcForStaticInit4 T t sched p.d chunk ⟨some 0, p.l, p.u, 0⟩

/-- Every thread gets a range, the iterations `sub` derived from the ranges are disjoint, their
union is the iteration set of the loop, and exactly one thread, the one that runs the final
iteration, is told that it has the last iteration. -/
def Partitions (T : Nat) (p : Loop) (hand : Nat → Option StaticRange)
    (sub : StaticRange → Set Int) : Prop :=
  ∃ r : Nat → StaticRange, (∀ t < T, hand t = some (r t)) ∧
    (∀ s < T, ∀ t < T, s ≠ t → Disjoint (sub (r s)) (sub (r t))) ∧
    (⋃ t ∈ {t | t < T}, sub (r t)) = p.iterations ∧
    (∃! t, t < T ∧ (r t).plastiter = some 1) ∧
    ∀ t < T, (r t).plastiter = some 1 → p.lastIteration ∈ sub (r t)

/-- The iterations of a range under the unchunked schedule. -/
def StaticRange.sub (d : Int) (r : StaticRange) : Set Int := visited r.plower r.pupper d

theorem Loop.trips_pos {p : Loop} (hw : Within p.d p.l p.u) : 0 < p.trips := by
  simp [Loop.trips, tripCount, hw]

theorem Loop.tdiv_add_one {p : Loop} (hw : Within p.d p.l p.u) :
    (p.u - p.l).tdiv p.d + 1 = p.trips := by
  have habs : ((p.u - p.l).tdiv p.d).natAbs = (p.u - p.l).natAbs / p.d.natAbs :=
    Int.natAbs_tdiv _ _
  have hnonneg : 0 ≤ (p.u - p.l).tdiv p.d := by
    have hw' := hw
    unfold Within at hw'
    split at hw'
    · next hd => exact Int.tdiv_nonneg (by omega) (by omega)
    · next hd => exact Int.tdiv_nonneg_of_nonpos_of_nonpos (by omega) (by omega)
  simp only [Loop.trips, tripCount, hw, if_true]
  omega

theorem Loop.iterations_eq {p : Loop} (hd : p.d ≠ 0) : p.iterations = terms p.l p.d p.trips :=
  visited_eq_terms hd

theorem Loop.Valid.count_le {p : Loop} (h : p.Valid) {a : Nat} (ha : a ≤ p.trips) :
    Fits 32 a := by
  apply (fits_zero 32).between h.count
  exact Or.inl ⟨by positivity, by exact_mod_cast ha⟩

section Nochunk

/-- Iterations per thread before the left-over ones are dealt out. -/
def Loop.quot (p : Loop) (T : Nat) : Nat := p.trips / T

def Loop.leftOver (p : Loop) (T : Nat) : Nat := p.trips % T

def Loop.share (p : Loop) (T t : Nat) : Nat :=
  if t < p.leftOver T then p.quot T + 1 else p.quot T

/-- The lower bound as the routine computes it: `leftOver` is not scaled by the increment. -/
def Loop.start (p : Loop) (T t : Nat) : Int :=
  if t < p.leftOver T then p.l + t * p.share T t * p.d
  else p.l + t * p.share T t * p.d + p.leftOver T

def Loop.range (p : Loop) (T t : Nat) : StaticRange :=
  let upper := p.start T t + p.share T t * p.d - p.d
  ⟨some (if upper = p.u ∧ p.start T t ≤ p.u then 1 else 0), p.start T t, upper, p.trips⟩

/-- The intermediate results of thread `t` that can leave the word. -/
@[mk_iff]
structure Loop.InRange (p : Loop) (T t : Nat) : Prop where
  diff : Fits 32 (p.u - p.l)
  offset : Fits 32 (t * p.share T t * p.d)
  first : Fits 32 (p.l + t * p.share T t * p.d)
  start : Fits 32 (p.start T t)
  width : Fits 32 (p.share T t * p.d)
  stop : Fits 32 (p.start T t + p.share T t * p.d)
  upper : Fits 32 (p.start T t + p.share T t * p.d - p.d)

variable {p : Loop} {T t : Nat}

theorem trips_split (p : Loop) (T : Nat) : T * p.quot T + p.leftOver T = p.trips :=
  Nat.div_add_mod _ _

private theorem share_offset_le (ht : t < T) : t * p.share T t ≤ p.trips := by
  have hsplit := trips_split p T
  unfold Loop.share
  split
  · next hlt =>
    have h0 : t * p.quot T ≤ T * p.quot T := Nat.mul_le_mul_right _ ht.le
    rw [Nat.mul_succ]
    omega
  · next hge =>
    have h0 : t * p.quot T ≤ T * p.quot T := Nat.mul_le_mul_right _ ht.le
    omega

private theorem share_le (hT : 0 < T) : p.share T t ≤ p.trips := by
  have hsplit := trips_split p T
  have h0 : p.quot T ≤ T * p.quot T := Nat.le_mul_of_pos_left _ hT
  unfold Loop.share
  split <;> omega

/-- The part of the routine for a schedule with chunks. -/
theorem staticInit_chunk_do (T : Nat) (c : Int) (p : Loop) (t : Nat) :
    staticInit T kmpSchedStaticChunk c p t = do
      let _ ← add 32 (← div 32 (← sub 32 p.u p.l) p.d) 1
      let span ← mul 32 p.d c
      let pstride ← mul 32 span T
      let plower ← add 32 p.l (← mul 32 span t)
      let pupper ← sub 32 (← add 32 plower span) p.d
      let beginLastChunk ← sub 32 p.u (← mod 32 p.u span)
      let rest ← mod 32 (← sub 32 beginLastChunk plower) pstride
      return ⟨some (if rest = 0 then 1 else 0), plower, pupper, pstride⟩ := rfl

/-- The part of the routine for a schedule without chunks. -/
theorem staticInit_nochunk_do (T : Nat) (c : Int) (p : Loop) (t : Nat) :
    staticInit T kmpSchedStaticNochunk c p t = do
      let loopSize ← add 32 (← div 32 (← sub 32 p.u p.l) p.d) 1
      let chunk ← div 32 loopSize T
      let leftOver ← sub 32 loopSize (← mul 32 chunk T)
      let (chunk, plower) ←
        if (t : Int) < leftOver then do
          let chunk ← add 32 chunk 1
          pure (chunk, ← add 32 p.l (← mul 32 (← mul 32 t chunk) p.d))
        else do
          let start ← add 32 p.l (← mul 32 (← mul 32 t chunk) p.d)
          pure (chunk, ← add 32 start leftOver)
      let pupper ← sub 32 (← add 32 plower (← mul 32 chunk p.d)) p.d
      let last : Int := if pupper = p.u ∧ plower ≤ p.u then 1 else 0
      return ⟨some last, plower, pupper, loopSize⟩ := rfl

/-- What a call computes, and when it is defined. -/
theorem staticInit_nochunk (h : p.Valid) (ht : t < T) (c : Int) (r : StaticRange) :
    staticInit T kmpSchedStaticNochunk c p t = some r ↔ p.InRange T t ∧ r = p.range T t := by
  have hT : 0 < T := by omega
  have hT' : (T : Int) ≠ 0 := by exact_mod_cast hT.ne'
  have htr := Loop.tdiv_add_one h.nonempty
  have hq : (p.trips : Int).tdiv T = p.quot T := by
    rw [Int.tdiv_eq_ediv_of_nonneg (by positivity)]
    simp [Loop.quot]
  have hm : (p.trips : Int) - p.quot T * T = p.leftOver T := by
    have hsplit : (T : Int) * p.quot T + p.leftOver T = p.trips := by
      exact_mod_cast trips_split p T
    linarith
  have hqle : p.quot T ≤ p.trips := Nat.div_le_self _ _
  have hqT : Fits 32 ((p.quot T : Int) * T) := by
    exact_mod_cast h.count_le (a := p.quot T * T) (Nat.div_mul_le_self _ _)
  have hoff : Fits 32 ((t : Int) * p.share T t) := by
    exact_mod_cast h.count_le (share_offset_le ht)
  have hshare := h.count_le (share_le (p := p) (t := t) hT)
  have hdiv : Fits 32 ((p.u - p.l).tdiv p.d) := by
    rw [show (p.u - p.l).tdiv p.d = ((p.trips - 1 : Nat) : Int) by have := Loop.trips_pos h.nonempty; omega]
    exact h.count_le (Nat.sub_le _ _)
  have hmle : p.leftOver T ≤ p.trips := Nat.mod_le _ _
  simp only [staticInit_nochunk_do, bind, pure, Option.bind_eq_some_iff, sub_eq_some, div_eq_some,
    add_eq_some, mul_eq_some, ↓existsAndEq, true_and, and_assoc, htr, hq, hm, Nat.cast_lt]
  rw [Loop.inRange_iff]
  unfold Loop.range Loop.start
  by_cases hlt : t < p.leftOver T
  · have hs : (p.share T t : Int) = p.quot T + 1 := by simp [Loop.share, hlt]
    rw [hs] at hoff hshare
    simp only [hlt, if_true, Option.bind_eq_some_iff, add_eq_some, sub_eq_some, mul_eq_some,
      Option.some.injEq, ↓existsAndEq, true_and, and_assoc, hs, h.step, hT', h.count_le le_rfl,
      h.count_le hqle, h.count_le hmle, hqT, hdiv, hoff, hshare, ne_eq, not_false_eq_true]
    constructor
    · rintro ⟨h0, h1, h2, h3, h4, h5, rfl⟩
      exact ⟨h0, h1, h2, h2, h3, h4, h5, rfl⟩
    · rintro ⟨h0, h1, h2, -, h3, h4, h5, rfl⟩
      exact ⟨h0, h1, h2, h3, h4, h5, rfl⟩
  · have hs : (p.share T t : Int) = p.quot T := by simp [Loop.share, hlt]
    rw [hs] at hoff hshare
    simp only [hlt, if_false, Option.bind_eq_some_iff, add_eq_some, sub_eq_some, mul_eq_some,
      Option.some.injEq, ↓existsAndEq, true_and, and_assoc, hs, h.step, hT', h.count_le le_rfl,
      h.count_le hqle, h.count_le hmle, hqT, hdiv, hoff, ne_eq, not_false_eq_true]
    constructor
    · rintro ⟨h0, h1, h2, h3, h4, h5, h6, rfl⟩
      exact ⟨h0, h1, h2, h3, h4, h5, h6, rfl⟩
    · rintro ⟨h0, h1, h2, h3, h4, h5, h6, rfl⟩
      exact ⟨h0, h1, h2, h3, h4, h5, h6, rfl⟩

/-- The position at which the block of thread `t` should start. -/
def Loop.position (p : Loop) (T t : Nat) : Nat := t * p.quot T + min t (p.leftOver T)

theorem position_succ (p : Loop) (T t : Nat) :
    p.position T (t + 1) = p.position T t + p.share T t := by
  unfold Loop.position Loop.share
  rw [Nat.succ_mul]
  split <;> omega

theorem position_mono (p : Loop) (T : Nat) : Monotone (p.position T) := by
  apply monotone_nat_of_le_succ
  intro t
  rw [position_succ]
  exact Nat.le_add_right _ _

theorem position_zero (p : Loop) (T : Nat) : p.position T 0 = 0 := by
  simp [Loop.position]

theorem position_last (hT : 0 < T) : p.position T T = p.trips := by
  have hlt : p.leftOver T < T := Nat.mod_lt _ hT
  rw [Loop.position, min_eq_right hlt.le]
  exact trips_split p T

/-- The start of a non-idle thread is on its position when the unscaled `leftOver` is harmless. -/
private theorem start_position (heven : p.d = 1 ∨ T ∣ p.trips ∨ p.trips < T)
    (hs : p.share T t ≠ 0) : p.start T t = p.l + p.position T t * p.d := by
  by_cases hlt : t < p.leftOver T
  · have hshare : p.share T t = p.quot T + 1 := by simp [Loop.share, hlt]
    rw [Loop.start, if_pos hlt, Loop.position, min_eq_left hlt.le, hshare]
    push_cast
    ring
  · have hshare : p.share T t = p.quot T := by simp [Loop.share, hlt]
    rw [Loop.start, if_neg hlt, Loop.position, min_eq_right (not_lt.mp hlt), hshare]
    rcases heven with hd | hdvd | hfew
    · rw [hd]
      push_cast
      ring
    · have hr : p.leftOver T = 0 := Nat.mod_eq_zero_of_dvd hdvd
      rw [hr]
      push_cast
      ring
    · have hq : p.quot T = 0 := Nat.div_eq_of_lt hfew
      exact absurd (hshare.trans hq) hs

private theorem sub_range (hd : p.d ≠ 0) :
    (p.range T t).sub p.d = terms (p.start T t) p.d (p.share T t) :=
  visited_exact hd _

private theorem sub_range_position (hd : p.d ≠ 0)
    (heven : p.d = 1 ∨ T ∣ p.trips ∨ p.trips < T) :
    (p.range T t).sub p.d =
      valuesAt p.l p.d {j | p.position T t ≤ j ∧ j < p.position T (t + 1)} := by
  rw [sub_range hd, position_succ]
  ext x
  by_cases hs : p.share T t = 0
  · simp only [hs, terms_zero, valuesAt, Set.mem_empty_iff_false, false_iff]
    intro hx
    obtain ⟨j, ⟨hj0, hj1⟩, -⟩ := hx
    omega
  · rw [start_position heven hs, mem_terms_shift]
    simp only [valuesAt, Set.mem_ofPred_eq, and_assoc]

theorem idle_start (ht : t < T) (hs : p.share T t = 0) :
    p.trips < T ∧ p.trips ≤ t ∧ p.start T t = p.l + p.trips := by
  have hlt : ¬ t < p.leftOver T := by
    intro hlt
    simp [Loop.share, hlt] at hs
  have hq : p.quot T = 0 := by simpa [Loop.share, hlt] using hs
  have hfew : p.trips < T := by
    rcases Nat.div_eq_zero_iff.mp hq with h0 | h0 <;> omega
  have hr : p.leftOver T = p.trips := Nat.mod_eq_of_lt hfew
  rw [hr, not_lt] at hlt
  refine ⟨hfew, hlt, ?_⟩
  simp [Loop.start, hr, hs, not_lt.mpr hlt]

/-- When the unscaled `leftOver`, the comparison with the upper bound and the intermediate results
of the routine are all harmless. -/
structure Loop.NochunkExact (p : Loop) (T : Nat) : Prop where
  diff : Fits 32 (p.u - p.l)
  reached : p.d ∣ p.u - p.l
  down : p.d < 0 → p.trips ≤ T
  even : p.d = 1 ∨ T ∣ p.trips ∨ p.trips < T
  stop : Fits 32 (p.l + p.trips * p.d)
  alone : T = 1 → Fits 32 (p.trips * p.d)
  idle : p.trips < T → Fits 32 (p.l + p.trips) ∧ Fits 32 (p.l + p.trips - p.d)

private theorem upper_eq_last (h : p.Valid) (hdvd : p.d ∣ p.u - p.l) :
    p.u = p.l + (p.trips - 1 : Nat) * p.d := by
  have htr := Loop.tdiv_add_one h.nonempty
  have hpos := Loop.trips_pos h.nonempty
  obtain ⟨k, hk⟩ := hdvd
  rw [hk, Int.mul_tdiv_cancel_left _ h.step] at htr
  have hcast : ((p.trips - 1 : Nat) : Int) = k := by omega
  rw [hcast, mul_comm]
  omega

private theorem inRange_of_exact (h : p.Valid) (hT : 0 < T) (hx : p.NochunkExact T) (ht : t < T) :
    p.InRange T t := by
  have hu := upper_eq_last h hx.reached
  have hpos := Loop.trips_pos h.nonempty
  have hlast := position_last (p := p) hT
  have hnext := position_mono p T (Nat.succ_le_of_lt ht)
  have hstep := position_succ p T t
  simp only [Nat.succ_eq_add_one, hlast] at hnext
  have hspan : Fits 32 ((p.trips - 1 : Nat) * p.d) := by
    have hdiff := hx.diff
    rwa [show p.u - p.l = (p.trips - 1 : Nat) * p.d by omega] at hdiff
  have hwidth : Fits 32 (p.share T t * p.d) := by
    rcases Nat.lt_or_ge 1 T with hT1 | hT1
    · rcases Nat.lt_or_ge 1 p.trips with hn | hn
      · apply hspan.mul_step
        have hsplit := trips_split p T
        have h2 : 2 * p.quot T ≤ T * p.quot T := Nat.mul_le_mul_right _ hT1
        unfold Loop.share
        split <;> omega
      · have hs := share_le (p := p) (t := t) hT
        apply Fits.mul_step (n := 1) (by simpa using h.incr)
        omega
    · have hT1' : T = 1 := by omega
      exact (hx.alone hT1').mul_step (share_le hT)
  have hoff : t * p.share T t ≤ p.trips - 1 := by
    by_cases hlt : t < p.leftOver T
    · have hs : p.share T t = p.quot T + 1 := by simp [Loop.share, hlt]
      have hp : p.position T t = t * p.quot T + t := by simp [Loop.position, hlt.le]
      rw [hs, Nat.mul_succ]
      omega
    · have hs : p.share T t = p.quot T := by simp [Loop.share, hlt]
      have hp : p.position T t = t * p.quot T + p.leftOver T := by
        simp [Loop.position, not_lt.mp hlt]
      rw [hs]
      by_cases hq : p.quot T = 0
      · simp [hq]
      · omega
  have hfirst : Fits 32 (p.l + t * p.share T t * p.d) := by
    have hstop : Fits 32 (p.l + (p.trips - 1 : Nat) * p.d) := hu ▸ h.upper
    exact_mod_cast h.lower.step hstop hoff
  have hoffset : Fits 32 (t * p.share T t * p.d) := by exact_mod_cast hspan.mul_step hoff
  by_cases hs : p.share T t = 0
  · obtain ⟨hfew, -, hstart⟩ := idle_start ht hs
    obtain ⟨hi0, hi1⟩ := hx.idle hfew
    exact ⟨hx.diff, hoffset, hfirst, hstart ▸ hi0, hwidth, by simpa [hstart, hs] using hi0,
      by simpa [hstart, hs] using hi1⟩
  · have hstart := start_position hx.even hs
    have hend : p.start T t + p.share T t * p.d = p.l + p.position T (t + 1) * p.d := by
      rw [hstart, hstep]
      push_cast
      ring
    refine ⟨hx.diff, hoffset, hfirst, ?_, hwidth, ?_, ?_⟩
    · rw [hstart]
      exact h.lower.step hx.stop (by omega)
    · rw [hend]
      exact h.lower.step hx.stop hnext
    · have hprev : p.start T t + p.share T t * p.d - p.d
          = p.l + (p.position T (t + 1) - 1 : Nat) * p.d := by
        rw [hend, Nat.cast_sub (by omega)]
        push_cast
        ring
      rw [hprev]
      exact h.lower.step hx.stop (by omega)

private theorem position_eq_trips (ht : t < T) (hs : p.share T t ≠ 0) :
    p.position T (t + 1) = p.trips ↔ t + 1 = min T p.trips := by
  have hsplit := trips_split p T
  rcases Nat.lt_or_ge p.trips T with hfew | hmany
  · have hq : p.quot T = 0 := Nat.div_eq_of_lt hfew
    have hr : p.leftOver T = p.trips := Nat.mod_eq_of_lt hfew
    have hlt : t < p.trips := by
      by_contra hge
      exact hs (by simp [Loop.share, hr, hge, hq])
    rw [Loop.position, hq, hr]
    omega
  · have hq : 0 < p.quot T := Nat.div_pos hmany (by omega)
    have hr : p.leftOver T < T := Nat.mod_lt _ (by omega)
    rw [Loop.position, ← hsplit]
    constructor
    · intro heq
      rcases Nat.lt_or_ge (t + 1) T with hlt | hge
      · have hmul : (t + 1) * p.quot T < T * p.quot T := Nat.mul_lt_mul_of_pos_right hlt hq
        omega
      · omega
    · intro heq
      have hT : t + 1 = T := by omega
      rw [hT, min_eq_right hr.le]

private theorem share_of_few (hfew : p.trips ≤ T) (hs : p.share T t ≠ 0) : p.share T t = 1 := by
  rcases Nat.lt_or_ge p.trips T with hlt | hge
  · have hq : p.quot T = 0 := Nat.div_eq_of_lt hlt
    unfold Loop.share at hs ⊢
    split <;> simp_all
  · have hT : p.trips = T := by omega
    by_cases h0 : T = 0
    · simp [Loop.share, Loop.quot, Loop.leftOver, hT, h0] at hs
    · simp [Loop.share, Loop.quot, Loop.leftOver, hT, Nat.pos_of_ne_zero h0]

/-- Only the last thread with work is told that it has the last iteration. -/
private theorem told_iff (h : p.Valid) (hx : p.NochunkExact T) (ht : t < T) :
    (p.range T t).plastiter = some 1 ↔ t + 1 = min T p.trips := by
  have hT : 0 < T := by omega
  have hu := upper_eq_last h hx.reached
  have hpos := Loop.trips_pos h.nonempty
  have htold : (p.range T t).plastiter = some 1 ↔
      p.start T t + p.share T t * p.d - p.d = p.u ∧ p.start T t ≤ p.u := by
    simp only [Loop.range]
    split <;> simp_all
  rw [htold]
  by_cases hs : p.share T t = 0
  · obtain ⟨-, hge, hstart⟩ := idle_start ht hs
    have hfalse : ¬ t + 1 = min T p.trips := by omega
    rw [hstart, hs, iff_false_right hfalse, not_and]
    intro hup hle
    push_cast [hpos] at hu hup
    have hd1 : p.trips * (p.d - 1) = 0 := by linarith
    rcases mul_eq_zero.mp hd1 with h0 | h0
    · omega
    · have hd : p.d = 1 := by omega
      rw [hd] at hu
      omega
  · have hstart := start_position hx.even hs
    have hnext := position_succ p T t
    have hup : p.start T t + p.share T t * p.d - p.d
        = p.l + (p.position T (t + 1) - 1 : Nat) * p.d := by
      rw [hstart, Nat.cast_sub (by omega), hnext]
      push_cast
      ring
    have hmono := position_mono p T (Nat.succ_le_of_lt ht)
    have hlast := position_last (p := p) hT
    simp only [Nat.succ_eq_add_one] at hmono
    have heq : p.position T (t + 1) = p.trips ↔ t + 1 = min T p.trips :=
      position_eq_trips ht hs
    rw [← heq, hup]
    constructor
    · intro hboth
      rw [hu] at hboth
      have hpos' := step_injective h.step hboth.1
      omega
    · intro hend
      rw [hend]
      refine ⟨hu.symm, ?_⟩
      rcases lt_or_gt_of_ne h.step with hneg | hd
      · have hone : p.share T t = 1 := share_of_few (hx.down hneg) hs
        rw [hu, hstart, show p.position T t = p.trips - 1 by omega]
      · rw [hu, hstart]
        have hle : (p.position T t : Int) ≤ (p.trips - 1 : Nat) := by
          exact_mod_cast (by omega : p.position T t ≤ p.trips - 1)
        have hmul := mul_le_mul_of_nonneg_right hle hd.le
        omega

private theorem partitions_of_exact (h : p.Valid) (hT : 0 < T) (hx : p.NochunkExact T) (c : Int) :
    Partitions T p (staticInit T kmpSchedStaticNochunk c p) (StaticRange.sub p.d) := by
  have hpos := Loop.trips_pos h.nonempty
  have hsplits := splits_blocks (p.position T) (position_mono p T) (position_zero p T) T
  refine ⟨p.range T, ?_, ?_, ?_, ?_, ?_⟩
  · intro t ht
    exact (staticInit_nochunk h ht c _).mpr ⟨inRange_of_exact h hT hx ht, rfl⟩
  · intro s hs t ht hst
    rw [sub_range_position h.step hx.even, sub_range_position h.step hx.even]
    exact hsplits.values_disjoint h.step hs ht hst
  · simp only [sub_range_position h.step hx.even]
    rw [hsplits.values_cover, position_last hT, Loop.iterations_eq h.step]
  · have hlast : min T p.trips - 1 + 1 = min T p.trips := by omega
    have hlt : min T p.trips - 1 < T := by omega
    refine ⟨min T p.trips - 1, ⟨hlt, (told_iff h hx hlt).mpr hlast⟩, ?_⟩
    intro t ht
    have heq := (told_iff h hx ht.1).mp ht.2
    omega
  · intro t ht htold
    have hend := (told_iff h hx ht).mp htold
    have hs : p.share T t ≠ 0 := by
      intro hs
      obtain ⟨-, hge, -⟩ := idle_start ht hs
      omega
    have hpt := (position_eq_trips ht hs).mpr hend
    rw [sub_range_position h.step hx.even]
    refine ⟨p.trips - 1, ⟨?_, by omega⟩, rfl⟩
    have hnext := position_succ p T t
    omega

/-- What the hand-out says about the ranges themselves. -/
private theorem partitions_ranges (h : p.Valid) {c : Int}
    (hp : Partitions T p (staticInit T kmpSchedStaticNochunk c p) (StaticRange.sub p.d)) :
    (∀ t < T, p.InRange T t) ∧
    (∀ s < T, ∀ t < T, s ≠ t →
      Disjoint ((p.range T s).sub p.d) ((p.range T t).sub p.d)) ∧
    (∀ t < T, (p.range T t).sub p.d ⊆ p.iterations) ∧
    ∃ t < T, p.lastIteration ∈ (p.range T t).sub p.d ∧ p.start T t + p.share T t * p.d - p.d = p.u ∧
      p.start T t ≤ p.u := by
  obtain ⟨r, hr, hdisj, hunion, ⟨t, ⟨ht, htold⟩, -⟩, hlast⟩ := hp
  have hrange : ∀ s < T, p.InRange T s ∧ r s = p.range T s := by
    intro s hs
    exact (staticInit_nochunk h hs c _).mp (hr s hs)
  refine ⟨fun s hs => (hrange s hs).1, ?_, ?_, t, ht, ?_, ?_⟩
  · intro s hs s' hs' hne
    rw [← (hrange s hs).2, ← (hrange s' hs').2]
    exact hdisj s hs s' hs' hne
  · intro s hs x hx
    rw [← hunion]
    simp only [Set.mem_iUnion, exists_prop]
    exact ⟨s, hs, (hrange s hs).2 ▸ hx⟩
  · rw [← (hrange t ht).2]
    exact hlast t ht htold
  · rw [(hrange t ht).2] at htold
    simp only [Loop.range] at htold
    split at htold
    · assumption
    · simp at htold

private theorem reached_of_told (h : p.Valid) (hsub : (p.range T t).sub p.d ⊆ p.iterations)
    (hin : p.lastIteration ∈ (p.range T t).sub p.d)
    (hup : p.start T t + p.share T t * p.d - p.d = p.u) : p.d ∣ p.u - p.l := by
  rw [sub_range h.step] at hin hsub
  obtain ⟨i, hi, -⟩ := hin
  have hu : p.u ∈ terms (p.start T t) p.d (p.share T t) := by
    refine ⟨p.share T t - 1, by omega, ?_⟩
    rw [← hup, Nat.cast_sub (by omega)]
    push_cast
    ring
  have hmem := hsub hu
  rw [Loop.iterations_eq h.step] at hmem
  obtain ⟨j, -, hj⟩ := hmem
  exact ⟨j, by linarith⟩

/-- With left-over iterations and an increment other than one, the first thread past them starts
inside the block of an earlier thread. -/
private theorem even_of_disjoint (h : p.Valid) (hT : 0 < T)
    (hdisj : ∀ s < T, ∀ t < T, s ≠ t →
      Disjoint ((p.range T s).sub p.d) ((p.range T t).sub p.d))
    (hsub : ∀ t < T, (p.range T t).sub p.d ⊆ p.iterations) :
    p.d = 1 ∨ T ∣ p.trips ∨ p.trips < T := by
  by_contra hodd
  push Not at hodd
  obtain ⟨hd1, hdvd, hmany⟩ := hodd
  have hq : 0 < p.quot T := Nat.div_pos hmany hT
  have hrT : p.leftOver T < T := Nat.mod_lt _ hT
  have hr : 0 < p.leftOver T := by
    rcases Nat.eq_zero_or_pos (p.leftOver T) with h0 | h0
    · exact absurd (Nat.dvd_of_mod_eq_zero h0) hdvd
    · exact h0
  have hshare : p.share T (p.leftOver T) = p.quot T := by simp [Loop.share]
  have hstart : p.start T (p.leftOver T)
      = p.l + p.leftOver T * p.quot T * p.d + p.leftOver T := by
    simp [Loop.start, hshare]
  have hfirst : p.start T (p.leftOver T) ∈ (p.range T (p.leftOver T)).sub p.d := by
    rw [sub_range h.step]
    exact ⟨0, by omega, by simp⟩
  have hmem := hsub _ hrT hfirst
  rw [Loop.iterations_eq h.step] at hmem
  obtain ⟨j, -, hj⟩ := hmem
  have hbefore : j < p.leftOver T * (p.quot T + 1) := by
    have hk : ((j : Int) - p.leftOver T * p.quot T) * p.d = p.leftOver T := by
      rw [hstart] at hj
      linarith
    by_contra hge
    have hge' : (p.leftOver T : Int) * (p.quot T + 1) ≤ j := by exact_mod_cast not_lt.mp hge
    have hr' : (0 : Int) < p.leftOver T := by exact_mod_cast hr
    rcases lt_or_ge p.d 2 with hd | hd
    · have hd0 : p.d ≤ 0 := by omega
      nlinarith
    · nlinarith
  have hblock : j / (p.quot T + 1) < p.leftOver T :=
    Nat.div_lt_of_lt_mul (by rwa [mul_comm])
  have hs : p.share T (j / (p.quot T + 1)) = p.quot T + 1 := by simp [Loop.share, hblock]
  have hother : p.start T (p.leftOver T) ∈ (p.range T (j / (p.quot T + 1))).sub p.d := by
    rw [sub_range h.step, hs, hj]
    refine ⟨j % (p.quot T + 1), Nat.mod_lt _ (Nat.succ_pos _), ?_⟩
    have hdm : ((p.quot T + 1 : Nat) : Int) * (j / (p.quot T + 1) : Nat)
        + (j % (p.quot T + 1) : Nat) = j := by exact_mod_cast Nat.div_add_mod j (p.quot T + 1)
    rw [Loop.start, if_pos hblock, hs, ← hdm]
    ring
  exact Set.disjoint_left.mp (hdisj _ (by omega) _ hrT (by omega)) hother hfirst

private theorem exact_of_partitions (h : p.Valid) (hT : 0 < T) {c : Int}
    (hp : Partitions T p (staticInit T kmpSchedStaticNochunk c p) (StaticRange.sub p.d)) :
    p.NochunkExact T := by
  obtain ⟨hin, hdisj, hsub, t, ht, hlast, hup, hle⟩ := partitions_ranges h hp
  have hreach := reached_of_told h (hsub t ht) hlast hup
  have heven := even_of_disjoint h hT hdisj hsub
  have hpos := Loop.trips_pos h.nonempty
  have hs : p.share T t ≠ 0 := by
    rw [sub_range h.step] at hlast
    obtain ⟨i, hi, -⟩ := hlast
    omega
  refine ⟨(hin t ht).diff, hreach, ?_, heven, ?_, ?_, ?_⟩
  · intro hneg
    have hone : p.share T t = 1 := by
      by_contra hne
      have h2 : (2 : Int) ≤ p.share T t := by
        exact_mod_cast (by omega : 2 ≤ p.share T t)
      nlinarith
    rcases heven with hd | hdvd | hfew
    · omega
    · have hr : p.leftOver T = 0 := Nat.mod_eq_zero_of_dvd hdvd
      have hq : p.quot T = 1 := by simpa [Loop.share, hr] using hone
      have hsplit := trips_split p T
      rw [hq, hr] at hsplit
      omega
    · exact hfew.le
  · have hlt : min T p.trips - 1 < T := by omega
    have hne : p.share T (min T p.trips - 1) ≠ 0 := by
      intro h0
      obtain ⟨-, hge, -⟩ := idle_start hlt h0
      omega
    have hend := (position_eq_trips hlt hne).mpr (by omega)
    have hstop := (hin _ hlt).stop
    rw [start_position heven hne] at hstop
    rw [← hend, position_succ]
    push_cast
    rwa [add_mul, ← add_assoc]
  · intro h1
    have hwidth := (hin 0 hT).width
    simpa [h1, Loop.share, Loop.leftOver, Loop.quot, Nat.mod_one] using hwidth
  · intro hfew
    have hr : p.leftOver T = p.trips := Nat.mod_eq_of_lt hfew
    have hq : p.quot T = 0 := Nat.div_eq_of_lt hfew
    have hs0 : p.share T p.trips = 0 := by simp [Loop.share, hr, hq]
    obtain ⟨-, -, hstart⟩ := idle_start hfew hs0
    have hi := hin _ hfew
    refine ⟨hstart ▸ hi.start, ?_⟩
    simpa [hstart, hs0] using hi.upper

/-- The unchunked schedule partitions the loop exactly under `NochunkExact`. -/
theorem static_nochunk_partitions_iff (p : Loop) (T : Nat) (c : Int) (h : p.Valid) (hT : 0 < T) :
    Partitions T p (staticInit T kmpSchedStaticNochunk c p) (StaticRange.sub p.d) ↔
      p.NochunkExact T := by
  constructor
  · intro hp
    exact exact_of_partitions h hT hp
  · intro hx
    exact partitions_of_exact h hT hx c

theorem static_nochunk_partitions_ten :
    Partitions 4 ⟨9, 0, -3⟩ (staticInit 4 kmpSchedStaticNochunk 0 ⟨9, 0, -3⟩)
      (StaticRange.sub (-3)) :=
  (static_nochunk_partitions_iff ⟨9, 0, -3⟩ 4 0
    ⟨by decide, by decide, by decide, by decide, by decide, by decide⟩ (by decide)).mpr
    ⟨by decide, by decide, by decide, by decide, by decide, by decide, by decide⟩

/-- Two threads share `0, 2, 4, 6, 8`: the second one is sent to `5, 7`. -/
theorem static_nochunk_not_partition :
    (Loop.mk 0 8 2).Valid ∧
    staticInit 2 kmpSchedStaticNochunk 0 ⟨0, 8, 2⟩ 1 = some ⟨some 0, 5, 7, 5⟩ ∧
    ¬ Partitions 2 ⟨0, 8, 2⟩ (staticInit 2 kmpSchedStaticNochunk 0 ⟨0, 8, 2⟩)
      (StaticRange.sub 2) := by
  have hone : staticInit 2 kmpSchedStaticNochunk 0 ⟨0, 8, 2⟩ 1 = some ⟨some 0, 5, 7, 5⟩ := by
    decide
  refine ⟨⟨by decide, by decide, by decide, by decide, by decide, by decide⟩, hone, ?_⟩
  intro hp
  obtain ⟨r, hr, -, hunion, -⟩ := hp
  have hr1 : r 1 = ⟨some 0, 5, 7, 5⟩ := by
    have h1 := hr 1 (by decide)
    rw [hone] at h1
    exact (Option.some.inj h1).symm
  have hmem : (5 : Int) ∈ (r 1).sub 2 := by
    rw [hr1]
    exact ⟨0, by decide, by decide⟩
  have hiter : (5 : Int) ∈ (Loop.mk 0 8 2).iterations := by
    rw [← hunion]
    simp only [Set.mem_iUnion, exists_prop]
    exact ⟨1, by decide, hmem⟩
  obtain ⟨j, hj, -⟩ := hiter
  simp only at hj
  omega

end Nochunk

end Hero.Omp
