import Hero.Framework.Wrap
import Hero.Omp.ChunkedLoop

/-!
# Static scheduling of wider loops

The entry points for unsigned and for 64-bit loops convert their arguments to `kmp_int32`, call
`__kmpc_for_static_init_4` and convert its results back.
-/

namespace Hero.Omp

open Hero.Checked Hero.Progression Hero.Wrap

/-- The conversion to `kmp_int32`. -/
def kmpInt32 (x : Int) : Int := wrap (-2 ^ 31) (2 ^ 32) x

/-- The types of `*plower` and `*pupper`: `kmp_uint32`, `kmp_int64` and `kmp_uint64`. -/
inductive LoopType where
  | u4
  | s8
  | u8
  deriving DecidableEq, Repr

namespace LoopType

def width : LoopType → Nat
  | u4 => 32
  | s8 => 64
  | u8 => 64

def least : LoopType → Int
  | u4 => 0
  | s8 => -2 ^ 63
  | u8 => 0

/-- `x` is a value of the type. -/
def Has (e : LoopType) (x : Int) : Prop := In e.least (2 ^ e.width) x

instance (e : LoopType) (x : Int) : Decidable (e.Has x) := inferInstanceAs (Decidable (In _ _ _))

/-- The conversion to the type. -/
def cast (e : LoopType) (x : Int) : Int := wrap e.least (2 ^ e.width) x

end LoopType

/-- What the three entry points do with the loop type `e`.  The increment and the chunk have the
signed type of the loop's width. -/
def staticInitVia (e : LoopType) (nbThreads threadNum sched incr chunk : Int) (r : StaticRange) :
    Option StaticRange := do
  let r' ← kmpcForStaticInit4 nbThreads threadNum sched (kmpInt32 incr) (kmpInt32 chunk)
    ⟨r.plastiter, kmpInt32 r.plower, kmpInt32 r.pupper, kmpInt32 r.pstride⟩
  return { r' with plower := e.cast r'.plower, pupper := e.cast r'.pupper }

def kmpcForStaticInit4u := staticInitVia .u4

def kmpcForStaticInit8 := staticInitVia .s8

def kmpcForStaticInit8u := staticInitVia .u8

def LoopType.init : LoopType → Int → Int → Int → Int → Int → StaticRange → Option StaticRange
  | .u4 => kmpcForStaticInit4u
  | .s8 => kmpcForStaticInit8
  | .u8 => kmpcForStaticInit8u

/-- The entry point called by thread `t` on the bounds of the whole loop. -/
def wideInit (e : LoopType) (T : Nat) (sched chunk : Int) (p : Loop) (t : Nat) :
    Option StaticRange :=
  e.init T t sched p.d chunk ⟨some 0, p.l, p.u, 0⟩

/-- A loop of the type `e`. -/
structure Loop.Wide (e : LoopType) (p : Loop) : Prop where
  step : p.d ≠ 0
  lower : e.Has p.l
  upper : e.Has p.u
  incr : Fits e.width p.d

/-- The thread's chunks start and end where the schedule says and lie a full round apart. -/
def Loop.ChunkGiven (p : Loop) (c : Int) (T t : Nat) (r : StaticRange) : Prop :=
  r.plower = p.l + t * c * p.d ∧ r.pupper = p.l + t * c * p.d + (c - 1) * p.d ∧
    r.pstride = T * c * p.d

/-- The thread's block starts and ends at its positions, and is empty where it has none. -/
def Loop.BlockGiven (p : Loop) (T t : Nat) (r : StaticRange) : Prop :=
  if p.share T t = 0 then r.sub p.d = ∅
  else r.plower = p.l + p.position T t * p.d ∧
    r.pupper = p.l + (p.position T (t + 1) - 1 : Nat) * p.d

/-- The loop that `__kmpc_for_static_init_4` sees. -/
def Loop.narrow (p : Loop) : Loop := ⟨kmpInt32 p.l, kmpInt32 p.u, kmpInt32 p.d⟩

section Conversions

variable {e : LoopType} {x y : Int}

theorem LoopType.size_pos (e : LoopType) : (0 : Int) < 2 ^ e.width := by positivity

theorem LoopType.dvd_size (e : LoopType) : (2 : Int) ^ 32 ∣ 2 ^ e.width := by
  cases e with
  | u4 => exact dvd_refl _
  | s8 => exact pow_dvd_pow 2 (by decide)
  | u8 => exact pow_dvd_pow 2 (by decide)

theorem LoopType.size_ge (e : LoopType) : (2 : Int) ^ 32 ≤ 2 ^ e.width :=
  Int.le_of_dvd e.size_pos e.dvd_size

theorem fits_iff_in : Fits 32 x ↔ In (-2 ^ 31) (2 ^ 32) x := by
  unfold Fits In
  omega

theorem fits_kmpInt32 (x : Int) : Fits 32 (kmpInt32 x) := fits_iff_in.mpr (wrap_in (by decide) _ x)

theorem dvd_kmpInt32_sub (x : Int) : 2 ^ 32 ∣ kmpInt32 x - x := dvd_wrap_sub _ _ x

theorem kmpInt32_of_fits (h : Fits 32 x) : kmpInt32 x = x :=
  wrap_of_in (by decide) (fits_iff_in.mp h)

theorem kmpInt32_eq_iff : kmpInt32 x = x ↔ Fits 32 x := by
  constructor
  · intro h
    rw [← h]
    exact fits_kmpInt32 x
  · exact kmpInt32_of_fits

theorem LoopType.cast_eq_iff (hy : e.Has y) : e.cast x = y ↔ 2 ^ e.width ∣ x - y :=
  wrap_eq_iff e.size_pos hy

theorem LoopType.cast_has (e : LoopType) (x : Int) : e.Has (e.cast x) := wrap_in e.size_pos _ x

/-- A difference of two values of the signed type that is a multiple of the size is zero. -/
theorem LoopType.eq_of_dvd (hx : Fits e.width x) (hy : Fits e.width y)
    (h : 2 ^ e.width ∣ x - y) : x = y := by
  have hin : ∀ {z : Int}, Fits e.width z → In (-2 ^ (e.width - 1)) (2 ^ e.width) z := by
    intro z hz
    unfold Fits at hz
    unfold In
    cases e <;> simp only [LoopType.width] at hz ⊢ <;> omega
  exact (hin hx).eq_of_dvd (hin hy) h

theorem LoopType.fits_of_fits (e : LoopType) (h : Fits 32 x) : Fits e.width x := by
  unfold Fits at h ⊢
  cases e <;> simp only [LoopType.width] at h ⊢ <;> omega

/-- Values of one type lie less than its size apart. -/
theorem LoopType.Has.abs_lt (hx : e.Has x) (hy : e.Has y) : |x - y| < 2 ^ e.width := by
  unfold LoopType.Has In at hx hy
  rw [abs_sub_lt_iff]
  omega

end Conversions

section Chunk

/-- The intermediate results of `__kmpc_for_static_init_4` in the chunked schedule. -/
@[mk_iff]
structure Loop.ChunkDefined (p : Loop) (c : Int) (T t : Nat) : Prop where
  diff : Fits 32 (p.u - p.l)
  step : p.d ≠ 0
  quotient : Fits 32 ((p.u - p.l).tdiv p.d)
  count : Fits 32 ((p.u - p.l).tdiv p.d + 1)
  span : Fits 32 (p.d * c)
  stride : Fits 32 (p.d * c * T)
  turn : Fits 32 (p.d * c * t)
  first : Fits 32 (p.l + p.d * c * t)
  stop : Fits 32 (p.l + p.d * c * t + p.d * c)
  upper : Fits 32 (p.l + p.d * c * t + p.d * c - p.d)
  span_ne : p.d * c ≠ 0
  blocks : Fits 32 (p.u.tdiv (p.d * c))
  last : Fits 32 (p.u - p.u.tmod (p.d * c))
  gap : Fits 32 (p.u - p.u.tmod (p.d * c) - (p.l + p.d * c * t))
  stride_ne : p.d * c * T ≠ 0
  turns : Fits 32 ((p.u - p.u.tmod (p.d * c) - (p.l + p.d * c * t)).tdiv (p.d * c * T))

variable {e : LoopType} {p : Loop} {c : Int} {T t : Nat}

theorem wideInit_eq (e : LoopType) (T : Nat) (sched c : Int) (p : Loop) (t : Nat) :
    wideInit e T sched c p t = (staticInit T sched (kmpInt32 c) p.narrow t).map fun r =>
      { r with plower := e.cast r.plower, pupper := e.cast r.pupper } := by
  have hvia : e.init = staticInitVia e := by cases e <;> rfl
  have hzero : kmpInt32 0 = 0 := by decide
  simp only [wideInit, hvia, staticInitVia, hzero, staticInit, Loop.narrow, Option.map_eq_bind]
  rfl

/-- What `__kmpc_for_static_init_4` computes for its loop. -/
def Loop.chunkOf (p : Loop) (c : Int) (T t : Nat) : StaticRange :=
  let first := p.l + p.d * c * t
  let rest := (p.u - p.u.tmod (p.d * c) - first).tmod (p.d * c * T)
  ⟨some (if rest = 0 then 1 else 0), first, first + p.d * c - p.d, p.d * c * T⟩

theorem staticInit_chunkOf (r : StaticRange) :
    staticInit T kmpSchedStaticChunk c p t = some r ↔
      p.ChunkDefined c T t ∧ r = p.chunkOf c T t := by
  simp only [staticInit_chunk_do, bind, pure, Option.bind_eq_some_iff, sub_eq_some, div_eq_some,
    add_eq_some, mul_eq_some, mod_eq_some, ↓existsAndEq, true_and, and_assoc, Option.some.injEq]
  rw [Loop.chunkDefined_iff, Loop.chunkOf, eq_comm (a := r)]
  simp only [and_assoc]

/-- The entry point hands over the chunks where nothing overflows and the values agree. -/
theorem wideInit_chunkGiven :
    (∃ r, wideInit e T kmpSchedStaticChunk c p t = some r ∧ p.ChunkGiven c T t r) ↔
      p.narrow.ChunkDefined (kmpInt32 c) T t ∧
        e.cast (p.narrow.l + p.narrow.d * kmpInt32 c * t) = p.l + t * c * p.d ∧
        e.cast (p.narrow.l + p.narrow.d * kmpInt32 c * t + p.narrow.d * kmpInt32 c - p.narrow.d) =
          p.l + t * c * p.d + (c - 1) * p.d ∧
        p.narrow.d * kmpInt32 c * T = T * c * p.d := by
  simp only [wideInit_eq, Option.map_eq_some_iff, staticInit_chunkOf, Loop.ChunkGiven,
    ↓existsAndEq, true_and, and_assoc, Loop.chunkOf]

/-- When the chunks of a wide loop come through the narrow routine: bounds, increment and chunk
survive the conversions, nothing overflows and the handed bounds are values of the type. -/
structure Loop.ChunkCarried (e : LoopType) (p : Loop) (c : Int) (T : Nat) : Prop where
  lower : e.cast (kmpInt32 p.l) = p.l
  incr : Fits 32 p.d
  chunk : Fits 32 c
  defined : ∀ t < T, p.narrow.ChunkDefined c T t
  first : ∀ t < T, e.Has (p.l + t * c * p.d)
  last : ∀ t < T, e.Has (p.l + t * c * p.d + (c - 1) * p.d)

theorem chunkGiven_iff (hp : p.Wide e) (hT : 0 < T) :
    (∀ t < T, ∃ r, wideInit e T kmpSchedStaticChunk c p t = some r ∧ p.ChunkGiven c T t r) ↔
      p.ChunkCarried e c T := by
  simp only [wideInit_chunkGiven]
  have hT' : (T : Int) ≠ 0 := by exact_mod_cast hT.ne'
  constructor
  · intro h
    obtain ⟨hdef, hlow, hup, hstride⟩ := h 0 hT
    simp only [Nat.cast_zero, mul_zero, add_zero, zero_mul] at hlow hup
    have hspan : p.narrow.d * kmpInt32 c = p.d * c := by
      have hmul : (T : Int) * (p.narrow.d * kmpInt32 c) = T * (p.d * c) := by linarith
      exact mul_left_cancel₀ hT' hmul
    have hlower := (LoopType.cast_eq_iff hp.lower).mp hlow
    have hincr : p.narrow.d = p.d := by
      have hhas : e.Has (p.l + (c - 1) * p.d) := hup ▸ e.cast_has _
      have hdvd := (LoopType.cast_eq_iff hhas).mp hup
      rw [hspan] at hdvd
      have hdiff := dvd_sub hlower hdvd
      rw [show p.narrow.l - p.l - (p.narrow.l + p.d * c - p.narrow.d - (p.l + (c - 1) * p.d)) =
        p.narrow.d - p.d by ring] at hdiff
      exact LoopType.eq_of_dvd (e.fits_of_fits (fits_kmpInt32 p.d)) hp.incr hdiff
    have hchunk : kmpInt32 c = c := by
      rw [hincr] at hspan
      exact mul_left_cancel₀ hp.step hspan
    refine ⟨hlow, kmpInt32_eq_iff.mp hincr, kmpInt32_eq_iff.mp hchunk, ?_, ?_, ?_⟩
    · intro t ht
      have hdef := (h t ht).1
      rwa [hchunk] at hdef
    · intro t ht
      rw [← (h t ht).2.1]
      exact e.cast_has _
    · intro t ht
      rw [← (h t ht).2.2.1]
      exact e.cast_has _
  · intro h t ht
    have hd : p.narrow.d = p.d := kmpInt32_of_fits h.incr
    have hc' : kmpInt32 c = c := kmpInt32_of_fits h.chunk
    have hlower := (LoopType.cast_eq_iff hp.lower).mp h.lower
    rw [hc', hd]
    refine ⟨h.defined t ht, ?_, ?_, by ring⟩
    · rw [LoopType.cast_eq_iff (h.first t ht)]
      rwa [show p.narrow.l + p.d * c * t - (p.l + t * c * p.d) = p.narrow.l - p.l by ring]
    · rw [LoopType.cast_eq_iff (h.last t ht)]
      rwa [show p.narrow.l + p.d * c * t + p.d * c - p.d - (p.l + t * c * p.d + (c - 1) * p.d) =
        p.narrow.l - p.l by ring]

end Chunk

section Block

/-- The trip count as the routine computes it. -/
def Loop.count (p : Loop) : Int := (p.u - p.l).tdiv p.d + 1

/-- The iterations the routine leaves over after dealing them out evenly. -/
def Loop.rest (p : Loop) (T : Nat) : Int := p.count - p.count.tdiv T * T

def Loop.size (p : Loop) (T t : Nat) : Int :=
  if t < p.rest T then p.count.tdiv T + 1 else p.count.tdiv T

def Loop.first (p : Loop) (T t : Nat) : Int :=
  if t < p.rest T then p.l + t * p.size T t * p.d else p.l + t * p.size T t * p.d + p.rest T

/-- The intermediate results of `__kmpc_for_static_init_4` in the unchunked schedule. -/
@[mk_iff]
structure Loop.BlockDefined (p : Loop) (T t : Nat) : Prop where
  diff : Fits 32 (p.u - p.l)
  step : p.d ≠ 0
  quotient : Fits 32 ((p.u - p.l).tdiv p.d)
  count : Fits 32 p.count
  team : (T : Int) ≠ 0
  share : Fits 32 (p.count.tdiv T)
  dealt : Fits 32 (p.count.tdiv T * T)
  rest : Fits 32 (p.rest T)
  size : Fits 32 (p.size T t)
  turn : Fits 32 (t * p.size T t)
  offset : Fits 32 (t * p.size T t * p.d)
  begin : Fits 32 (p.l + t * p.size T t * p.d)
  first : Fits 32 (p.first T t)
  width : Fits 32 (p.size T t * p.d)
  stop : Fits 32 (p.first T t + p.size T t * p.d)
  upper : Fits 32 (p.first T t + p.size T t * p.d - p.d)

/-- What `__kmpc_for_static_init_4` computes for its loop. -/
def Loop.blockOf (p : Loop) (T t : Nat) : StaticRange :=
  let upper := p.first T t + p.size T t * p.d - p.d
  ⟨some (if upper = p.u ∧ p.first T t ≤ p.u then 1 else 0), p.first T t, upper, p.count⟩

variable {e : LoopType} {p : Loop} {c : Int} {T t : Nat}

theorem staticInit_blockOf (r : StaticRange) :
    staticInit T kmpSchedStaticNochunk c p t = some r ↔ p.BlockDefined T t ∧ r = p.blockOf T t := by
  simp only [staticInit_nochunk_do, bind, pure, Option.bind_eq_some_iff, sub_eq_some, div_eq_some,
    add_eq_some, mul_eq_some, ↓existsAndEq, true_and, and_assoc]
  rw [Loop.blockDefined_iff, Loop.blockOf, eq_comm (a := r)]
  unfold Loop.first Loop.size Loop.rest Loop.count
  split
  · simp only [Option.bind_eq_some_iff, add_eq_some, sub_eq_some, mul_eq_some, Option.some.injEq,
      ↓existsAndEq, true_and, and_assoc, and_self_left]
  · simp only [Option.bind_eq_some_iff, add_eq_some, sub_eq_some, mul_eq_some, Option.some.injEq,
      ↓existsAndEq, true_and, and_assoc]
    constructor
    · intro h
      obtain ⟨h0, h1, h2, h3, h4, h5, h6, h7, hrest⟩ := h
      exact ⟨h0, h1, h2, h3, h4, h5, h6, h7, h5, hrest⟩
    · intro h
      obtain ⟨h0, h1, h2, h3, h4, h5, h6, h7, -, hrest⟩ := h
      exact ⟨h0, h1, h2, h3, h4, h5, h6, h7, hrest⟩

/-- What the values that come back say, in residues of the type. -/
def Loop.Meets (e : LoopType) (p : Loop) (T t : Nat) : Prop :=
  let x := p.narrow.first T t
  let y := x + p.narrow.size T t * p.narrow.d - p.narrow.d
  if p.share T t = 0 then ¬ Within p.d (e.cast x) (e.cast y)
  else 2 ^ e.width ∣ x - (p.l + p.position T t * p.d) ∧
    2 ^ e.width ∣ y - (p.l + (p.position T (t + 1) - 1 : Nat) * p.d)

/-- The iterations of a loop are values of its type. -/
theorem Loop.Wide.has (hp : p.Wide e) (hw : Within p.d p.l p.u) {j : Nat} (hj : j < p.trips) :
    e.Has (p.l + j * p.d) := by
  have hin := (within_step_iff hp.step hw j).mpr hj
  have hlow := hp.lower
  have hup := hp.upper
  have h0 : (0 : Int) ≤ j := by positivity
  unfold LoopType.Has In at *
  unfold Within at hin
  split at hin
  · next hd =>
    have hmul := mul_nonneg h0 hd.le
    omega
  · next hd =>
    have hmul := mul_nonneg h0 (by omega : 0 ≤ -p.d)
    rw [mul_neg] at hmul
    omega

theorem visited_eq_empty_iff {l u d : Int} (hd : d ≠ 0) : visited l u d = ∅ ↔ ¬ Within d l u := by
  constructor
  · intro h hin
    have hmem : l ∈ visited l u d := ⟨0, by simp, hin⟩
    rw [h] at hmem
    exact hmem
  · intro h
    ext x
    simp only [Set.mem_empty_iff_false, iff_false]
    intro hx
    obtain ⟨j, rfl, hj⟩ := hx
    have hfirst := within_of_later (l := l) hd (Nat.zero_le j) hj
    simp only [Nat.cast_zero, zero_mul, add_zero] at hfirst
    exact h hfirst

theorem wideInit_blockGiven (hp : p.Wide e) (hw : Within p.d p.l p.u) (ht : t < T) :
    (∃ r, wideInit e T kmpSchedStaticNochunk c p t = some r ∧ p.BlockGiven T t r) ↔
      p.narrow.BlockDefined T t ∧ p.Meets e T t := by
  simp only [wideInit_eq, Option.map_eq_some_iff, staticInit_blockOf, ↓existsAndEq, true_and,
    and_assoc, Loop.blockOf, Loop.BlockGiven, StaticRange.sub, Loop.Meets,
    visited_eq_empty_iff hp.step]
  have hnext := position_mono p T (Nat.succ_le_of_lt ht)
  have hlast := position_last (p := p) (Nat.zero_lt_of_lt ht)
  have hstep := position_succ p T t
  simp only [Nat.succ_eq_add_one, hlast] at hnext
  by_cases hs : p.share T t = 0
  · simp only [hs, if_true]
  · have hfirst := hp.has hw (j := p.position T t) (by omega)
    have hend := hp.has hw (j := p.position T (t + 1) - 1) (by omega)
    simp only [hs, if_false, LoopType.cast_eq_iff hfirst, LoopType.cast_eq_iff hend]

/-- When the blocks of a wide loop come through the narrow routine.  A single thread needs its last
value only; a team needs the trip count and the increment, an unscaled left-over that is harmless
and, where threads stay idle, a range for them that does not wrap around. -/
structure Loop.BlockCarried (e : LoopType) (p : Loop) (T : Nat) : Prop where
  lower : e.cast (kmpInt32 p.l) = p.l
  defined : ∀ t < T, p.narrow.BlockDefined T t
  alone : T = 1 →
    2 ^ e.width ∣ (p.narrow.count - 1) * p.narrow.d - (p.trips - 1 : Nat) * p.d
  count : 1 < T → p.narrow.count = p.trips
  incr : 1 < T → p.trips = 1 ∨ Fits 32 p.d
  even : 1 < T → p.d = 1 ∨ T ∣ p.trips ∨ p.trips < T
  idle : p.trips < T →
    ¬ Within p.d (e.cast (p.narrow.l + p.trips)) (e.cast (p.narrow.l + p.trips - p.narrow.d))

section Counts

variable {m n : Nat}

/-- The share of thread `t` when `n` iterations are dealt out to `T` threads. -/
def quota (n T t : Nat) : Nat := if t < n % T then n / T + 1 else n / T

theorem share_eq_quota (p : Loop) (T t : Nat) : p.share T t = quota p.trips T t := rfl

theorem quota_zero_pos (hn : 0 < n) : 0 < quota n T 0 := by
  have hsplit := Nat.div_add_mod n T
  unfold quota
  split
  · exact Nat.succ_pos _
  · next hrest =>
    rw [Nat.eq_zero_of_not_pos hrest, Nat.add_zero] at hsplit
    exact Nat.pos_of_mul_pos_left (hsplit ▸ hn)

theorem quota_le (hT : 1 < T) (hn : 0 < n) :
    quota n T t ≤ n - if t = 0 then 0 else 1 := by
  have hsplit := Nat.div_add_mod n T
  have htwo : 2 * (n / T) ≤ T * (n / T) := Nat.mul_le_mul_right _ hT
  unfold quota
  split <;> split <;> omega

theorem quota_anti (n T t : Nat) : quota n T t ≤ quota n T 0 := by
  unfold quota
  split <;> split <;> omega

/-- The numbers of iterations dealt out tell how many there were. -/
theorem eq_of_quota (hT : 0 < T) (h : ∀ t < T, quota m T t = quota n T t) : m = n := by
  have hm := Nat.mod_lt m hT
  have hn := Nat.mod_lt n hT
  have hdiv : m / T = n / T := by
    have hlast := h (T - 1) (by omega)
    unfold quota at hlast
    rwa [if_neg (by omega), if_neg (by omega)] at hlast
  have hmod : m % T = n % T := by
    have h0 := h (m % T) hm
    have h1 := h (n % T) hn
    unfold quota at h0 h1
    rw [if_neg (lt_irrefl _), hdiv] at h0
    rw [if_neg (lt_irrefl (n % T)), hdiv] at h1
    split at h0
    · omega
    · split at h1
      · omega
      · omega
  rw [← Nat.div_add_mod m T, ← Nat.div_add_mod n T, hdiv, hmod]

end Counts

section Narrow

variable {n : Nat} {q : Loop}

theorem rest_of_count (h : q.count = n) : q.rest T = (n % T : Nat) := by
  have hsplit : (T : Int) * (n / T : Nat) + (n % T : Nat) = n := by
    exact_mod_cast Nat.div_add_mod n T
  have hdiv : (n : Int).tdiv T = (n / T : Nat) := by
    rw [Int.tdiv_eq_ediv_of_nonneg (by positivity)]
    simp
  rw [Loop.rest, h, hdiv]
  linarith

theorem size_of_count (h : q.count = n) : q.size T t = quota n T t := by
  have hdiv : (n : Int).tdiv T = (n / T : Nat) := by
    rw [Int.tdiv_eq_ediv_of_nonneg (by positivity)]
    simp
  simp only [Loop.size, rest_of_count h, h, hdiv, quota, Nat.cast_lt]
  by_cases hlt : t < n % T
  · simp [hlt]
  · simp [hlt]

/-- The start of a block: the left-over is not scaled by the increment. -/
theorem first_of_count (h : q.count = n) : q.first T t =
    q.l + (t * quota n T t : Nat) * q.d + if t < n % T then 0 else (n % T : Nat) := by
  simp only [Loop.first, rest_of_count h, size_of_count h, Nat.cast_lt]
  by_cases hlt : t < n % T
  · simp [hlt]
  · simp [hlt]

end Narrow

section Carried

theorem alone_first (q : Loop) : q.first 1 0 = q.l := by
  simp [Loop.first, Loop.rest]

theorem alone_size (q : Loop) : q.size 1 0 = q.count := by
  simp [Loop.size, Loop.rest]

theorem meets_alone (hp : p.Wide e) (hw : Within p.d p.l p.u) : p.Meets e 1 0 ↔
    e.cast (kmpInt32 p.l) = p.l ∧
      2 ^ e.width ∣ (p.narrow.count - 1) * p.narrow.d - (p.trips - 1 : Nat) * p.d := by
  have hpos := Loop.trips_pos hw
  have hshare : p.share 1 0 = p.trips := by simp [Loop.share, Loop.leftOver, Loop.quot, Nat.mod_one]
  have hlast : p.position 1 (0 + 1) = p.trips := position_last Nat.one_pos
  have hne : p.trips ≠ 0 := hpos.ne'
  simp only [Loop.Meets, hshare, hne, if_false, alone_first, alone_size, position_zero, hlast,
    Nat.cast_zero, zero_mul, add_zero]
  rw [LoopType.cast_eq_iff hp.lower]
  refine and_congr_right ?_
  intro hlow
  rw [show p.narrow.l + p.narrow.count * p.narrow.d - p.narrow.d -
    (p.l + (p.trips - 1 : Nat) * p.d) = p.narrow.l - p.l +
      ((p.narrow.count - 1) * p.narrow.d - (p.trips - 1 : Nat) * p.d) by ring]
  exact dvd_add_right hlow

/-- With the trip count of the wide loop, an idle thread gets what `idle` describes. -/
theorem meets_idle (ht : t < T) (hcount : p.narrow.count = p.trips) (hs : p.share T t = 0) :
    p.Meets e T t ↔
      ¬ Within p.d (e.cast (p.narrow.l + p.trips)) (e.cast (p.narrow.l + p.trips - p.narrow.d)) := by
  obtain ⟨hfew, hge, -⟩ := idle_start ht hs
  have hmod : p.trips % T = p.trips := Nat.mod_eq_of_lt hfew
  have hquota : quota p.trips T t = 0 := hs
  simp only [Loop.Meets, hs, if_true, first_of_count hcount, size_of_count hcount, hquota, hmod,
    not_lt.mpr hge, if_false, mul_zero, Nat.cast_zero, zero_mul, add_zero]

/-- With trip count and increment of the wide loop, the blocks come out right where the left-over
needs no scaling. -/
theorem meets_busy (hL : 2 ^ e.width ∣ p.narrow.l - p.l) (hcount : p.narrow.count = p.trips)
    (hd : p.narrow.d = p.d) (hs : p.share T t ≠ 0) :
    p.Meets e T t ↔ t < p.trips % T ∨ 2 ^ e.width ∣ ((p.trips % T : Nat) : Int) * (1 - p.d) := by
  have hstep := position_succ p T t
  have hshare : quota p.trips T t = p.share T t := rfl
  have hend : ((p.position T (t + 1) - 1 : Nat) : Int) = p.position T t + p.share T t - 1 := by
    omega
  simp only [Loop.Meets, hs, if_false, first_of_count hcount, size_of_count hcount, hd, hend, hshare]
  by_cases hlt : t < p.trips % T
  · have hpos : p.position T t = t * p.share T t := by
      have hshare' : p.share T t = p.quot T + 1 := by simp [Loop.share, Loop.leftOver, hlt]
      rw [hshare', Loop.position, Loop.leftOver, min_eq_left hlt.le]
      ring
    simp only [hlt, if_true, true_or, iff_true, hpos]
    constructor
    · rwa [show p.narrow.l + (t * p.share T t : Nat) * p.d + (0 : Nat) -
        (p.l + (t * p.share T t : Nat) * p.d) = p.narrow.l - p.l by push_cast; ring]
    · rwa [show p.narrow.l + (t * p.share T t : Nat) * p.d + (0 : Nat) + p.share T t * p.d - p.d -
        (p.l + ((t * p.share T t : Nat) + p.share T t - 1) * p.d) = p.narrow.l - p.l by
          push_cast; ring]
  · have hpos : p.position T t = t * p.share T t + p.trips % T := by
      have hshare' : p.share T t = p.quot T := by simp [Loop.share, Loop.leftOver, hlt]
      rw [hshare', Loop.position, Loop.leftOver, min_eq_right (not_lt.mp hlt)]
    simp only [hlt, if_false, false_or, hpos]
    rw [show p.narrow.l + (t * p.share T t : Nat) * p.d + (p.trips % T : Nat) -
        (p.l + (t * p.share T t + p.trips % T : Nat) * p.d) =
          p.narrow.l - p.l + (p.trips % T : Nat) * (1 - p.d) by push_cast; ring,
      show p.narrow.l + (t * p.share T t : Nat) * p.d + (p.trips % T : Nat) + p.share T t * p.d -
        p.d - (p.l + ((t * p.share T t + p.trips % T : Nat) + p.share T t - 1) * p.d) =
          p.narrow.l - p.l + (p.trips % T : Nat) * (1 - p.d) by push_cast; ring]
    rw [and_self, dvd_add_right hL]

/-- A single iteration goes to the first thread, whatever the increment. -/
theorem meets_single (hT : 1 < T) (hL : 2 ^ e.width ∣ p.narrow.l - p.l)
    (hcount : p.narrow.count = p.trips) (hone : p.trips = 1) (hs : p.share T t ≠ 0) :
    p.Meets e T t := by
  have hmod : 1 % T = 1 := Nat.mod_eq_of_lt hT
  have hdiv : 1 / T = 0 := Nat.div_eq_of_lt hT
  have ht : t = 0 := by
    by_contra hne
    have hge : ¬ t < 1 := by omega
    exact hs (by simp [Loop.share, Loop.leftOver, Loop.quot, hone, hmod, hdiv, hge])
  have hstep := position_succ p T 0
  have hshare : p.share T 0 = 1 := by simp [Loop.share, Loop.leftOver, Loop.quot, hone, hmod, hdiv]
  have hquota : quota 1 T 0 = 1 := by simp [quota, hmod, hdiv]
  subst ht
  rw [position_zero, hshare] at hstep
  simp only [Loop.Meets, hs, if_false, first_of_count hcount, size_of_count hcount, hquota, hstep,
    position_zero, hone, hmod]
  simpa using hL

theorem meets_of_carried (hp : p.Wide e) (hw : Within p.d p.l p.u) (hc : p.BlockCarried e T)
    (ht : t < T) : p.Meets e T t := by
  have hL := (LoopType.cast_eq_iff hp.lower).mp hc.lower
  rcases Nat.lt_or_ge 1 T with hT | hT
  · have hcount := hc.count hT
    by_cases hs : p.share T t = 0
    · exact (meets_idle ht hcount hs).mpr (hc.idle (idle_start ht hs).1)
    · rcases hc.incr hT with hone | hfit
      · exact meets_single hT hL hcount hone hs
      · refine (meets_busy hL hcount (kmpInt32_of_fits hfit) hs).mpr ?_
        rcases hc.even hT with hd | hdvd | hfew
        · simp [hd]
        · simp [Nat.mod_eq_zero_of_dvd hdvd]
        · left
          by_contra hge
          have hdiv : p.trips / T = 0 := Nat.div_eq_of_lt hfew
          exact hs (by simp [Loop.share, Loop.leftOver, Loop.quot, hge, hdiv])
  · have hone : T = 1 := by omega
    subst hone
    have hzero : t = 0 := by omega
    subst hzero
    exact (meets_alone hp hw).mpr ⟨hc.lower, hc.alone rfl⟩

end Carried

section Necessary

/-- The distance the routine sees, in whole steps. -/
theorem steps_le (q : Loop) : ((q.u - q.l).tdiv q.d).natAbs * q.d.natAbs ≤ (q.u - q.l).natAbs := by
  rw [Int.natAbs_tdiv]
  exact Nat.div_mul_le_self _ _

theorem trips_le (hw : Within p.d p.l p.u) : (p.trips - 1) * p.d.natAbs ≤ (p.u - p.l).natAbs := by
  rw [Loop.trips, tripCount, if_pos hw, Nat.add_sub_cancel]
  exact Nat.div_mul_le_self _ _

theorem natAbs_le_of_fits {x : Int} (h : Fits 32 x) : x.natAbs ≤ 2 ^ 31 := by
  unfold Fits at h
  omega

theorem share_zero_ne (hw : Within p.d p.l p.u) : p.share T 0 ≠ 0 :=
  (quota_zero_pos (Loop.trips_pos hw)).ne'

/-- The first thread's block starts at the lower bound, so nothing is left over on the wrong side. -/
theorem lower_of_meets (hw : Within p.d p.l p.u) (hcount : Fits 32 p.narrow.count)
    (h : p.Meets e T 0) : 2 ^ e.width ∣ p.narrow.l - p.l ∧ 0 ≤ p.narrow.rest T := by
  simp only [Loop.Meets, share_zero_ne hw, if_false, position_zero, Nat.cast_zero, zero_mul,
    add_zero] at h
  have hfirst := h.1
  have hrest : (p.narrow.rest T).natAbs ≤ p.narrow.count.natAbs := by
    have hmod : p.narrow.rest T = p.narrow.count.tmod T := by
      have hsplit := Int.mul_tdiv_add_tmod p.narrow.count T
      unfold Loop.rest
      linarith
    rw [hmod, Int.natAbs_tmod]
    exact Nat.mod_le _ _
  have habs := natAbs_le_of_fits hcount
  unfold Loop.first at hfirst
  simp only [Nat.cast_zero, zero_mul, add_zero] at hfirst
  split at hfirst
  · next hpos => exact ⟨hfirst, hpos.le⟩
  · next hneg =>
    have hdvd := e.dvd_size.trans hfirst
    have hlow := dvd_kmpInt32_sub p.l
    have hdiff := Int.dvd_sub hdvd hlow
    rw [show p.narrow.l + p.narrow.rest T - p.l - (kmpInt32 p.l - p.l) = p.narrow.rest T by
      simp only [Loop.narrow]; ring] at hdiff
    obtain ⟨k, hk⟩ := hdiff
    have hzero : p.narrow.rest T = 0 := by omega
    rw [hzero, add_zero] at hfirst
    exact ⟨hfirst, hzero.ge⟩

/-- A loop that the conversion turns round has run almost through the whole type. -/
theorem wrapped_distance (hp : p.Wide e) (hw : Within p.d p.l p.u)
    (hdiff : Fits 32 (p.narrow.u - p.narrow.l))
    (hneg : (p.narrow.u - p.narrow.l).tdiv p.d < 0) :
    (p.u - p.l).natAbs + (p.narrow.u - p.narrow.l).natAbs ≤ 2 ^ e.width + (2 ^ 31 - 1) := by
  obtain ⟨i, hi⟩ := dvd_kmpInt32_sub p.l
  obtain ⟨j, hj⟩ := dvd_kmpInt32_sub p.u
  have habs := natAbs_le_of_fits hdiff
  have hlow := hp.lower
  have hup := hp.upper
  have hturned : p.narrow.u - p.narrow.l < 0 ∧ 0 < p.d ∨ 0 < p.narrow.u - p.narrow.l ∧ p.d < 0 := by
    rcases lt_or_gt_of_ne hp.step with h | h
    · right
      refine ⟨?_, h⟩
      by_contra hle
      have hq := Int.tdiv_nonneg_of_nonpos_of_nonpos (not_lt.mp hle) h.le
      omega
    · left
      refine ⟨?_, h⟩
      by_contra hle
      have hq := Int.tdiv_nonneg (not_lt.mp hle) h.le
      omega
  unfold LoopType.Has In at hlow hup
  unfold Within at hw
  simp only [Loop.narrow] at *
  cases e <;> simp only [LoopType.width, LoopType.least] at * <;> split at hw <;> omega

theorem narrow_d_eq (hp : p.Wide e) (h : 2 ^ e.width ∣ p.narrow.d - p.d) : p.narrow.d = p.d :=
  LoopType.eq_of_dvd (e.fits_of_fits (fits_kmpInt32 p.d)) hp.incr h

/-- Without a positive trip count nothing is left over, and every thread gets the same size. -/
theorem even_of_count_nonpos {q : Loop} (hcount : q.count ≤ 0) (hrest : 0 ≤ q.rest T) :
    q.count = q.count.tdiv T * T ∧ q.count.tdiv T ≤ 0 ∧
      ∀ t, q.size T t = q.count.tdiv T ∧ q.first T t = q.l + t * q.count.tdiv T * q.d := by
  have hsplit := Int.mul_tdiv_add_tmod q.count T
  have hmod := Int.tmod_nonneg (T : Int) (by omega : 0 ≤ -q.count)
  rw [Int.neg_tmod] at hmod
  have hzero : q.rest T = 0 := by
    have heq : q.rest T = q.count.tmod T := by
      unfold Loop.rest
      linarith
    omega
  have hdiv := Int.tdiv_nonneg (by omega : 0 ≤ -q.count) (Int.natCast_nonneg T)
  rw [Int.neg_tdiv] at hdiv
  refine ⟨?_, by omega, ?_⟩
  · unfold Loop.rest at hzero
    linarith
  · intro t
    have hlt : ¬ (t : Int) < 0 := by omega
    simp [Loop.size, Loop.first, hzero, hlt]

theorem share_one_ne (hn : 2 ≤ p.trips) : p.share T 1 ≠ 0 := by
  have hsplit := Nat.div_add_mod p.trips T
  rw [share_eq_quota, quota]
  split
  · exact Nat.succ_ne_zero _
  · next hge =>
    intro hzero
    rw [hzero] at hsplit
    omega

theorem mul_share_zero_le (p : Loop) (T : Nat) : T * p.share T 0 ≤ p.trips + (T - 1) := by
  have hsplit := trips_split p T
  unfold Loop.share
  split
  · rw [Nat.mul_succ]
    omega
  · omega

/-- Two strides round the type cannot hide in the blocks of a team. -/
theorem no_second_turn {M T a b n δ : Nat} (hT : 1 < T) (hM : 2 ^ 32 ≤ M) (hδ : δ ≤ 2 ^ 31)
    (ha : M ≤ a * δ) (hTa : T * a ≤ n + b + (T - 1)) (hn : n * δ + b * δ ≤ M + (2 ^ 31 - 1)) :
    False := by
  have h0 : T * M ≤ T * a * δ := by
    rw [Nat.mul_assoc]
    exact Nat.mul_le_mul_left T ha
  have h1 : T * a * δ ≤ (n + b + (T - 1)) * δ := Nat.mul_le_mul_right δ hTa
  have h2 : (n + b + (T - 1)) * δ = n * δ + b * δ + (T - 1) * δ := by ring
  have h3 : (T - 1) * δ ≤ (T - 1) * 2 ^ 31 := Nat.mul_le_mul_left _ hδ
  have h4 : T * M = M + (T - 1) * M := by
    rw [Nat.sub_mul, Nat.one_mul]
    have hle : 1 * M ≤ T * M := Nat.mul_le_mul_right M hT.le
    omega
  have h5 : (T - 1) * 2 ^ 32 ≤ (T - 1) * M := Nat.mul_le_mul_left _ hM
  omega

/-- A team that gets its first two blocks right sees a positive trip count. -/
theorem count_pos_of_meets (hp : p.Wide e) (hw : Within p.d p.l p.u) (hT : 1 < T)
    (hdef : p.narrow.BlockDefined T 0) (h : ∀ t < T, p.Meets e T t) : 0 < p.narrow.count := by
  by_contra hcount
  obtain ⟨hL, hrest⟩ := lower_of_meets hw hdef.count (h 0 (by omega))
  obtain ⟨hmul, hk, hsize⟩ := even_of_count_nonpos (not_lt.mp hcount) hrest
  have hnarrow := steps_le p.narrow
  have habs := natAbs_le_of_fits hdef.diff
  have hsizeM := e.size_ge
  have hq : p.narrow.count = (p.narrow.u - p.narrow.l).tdiv p.narrow.d + 1 := rfl
  have h0 := h 0 (by omega)
  have hpos0 : p.position T (0 + 1) = p.share T 0 := by
    rw [position_succ, position_zero, Nat.zero_add]
  simp only [Loop.Meets, share_zero_ne hw, if_false, hsize, hpos0] at h0
  have hend := Int.dvd_sub h0.2 hL
  have hs0 := share_zero_ne (T := T) hw
  generalize p.narrow.count.tdiv T = k at *
  have hkN : p.narrow.count ≤ k := by
    have hT' : (1 : Int) ≤ T := by exact_mod_cast hT.le
    nlinarith
  rcases Nat.lt_or_ge p.trips 2 with hfew | hmany
  · -- one iteration: the narrow loop would be empty
    have hn := Loop.trips_pos hw
    have hone : p.share T 0 = 1 := by
      have hle := quota_le (t := 0) hT hn
      rw [← share_eq_quota] at hle
      simp only [if_true] at hle
      omega
    rw [hone, Nat.sub_self] at hend
    rw [show p.narrow.l + (0 : Nat) * k * p.narrow.d + k * p.narrow.d - p.narrow.d -
      (p.l + (0 : Nat) * p.d) - (p.narrow.l - p.l) = (k - 1) * p.narrow.d by push_cast; ring] at hend
    have hle : ((k - 1) * p.narrow.d).natAbs ≤ 2 ^ 31 := by
      rw [Int.natAbs_mul]
      have hkq : (k - 1).natAbs ≤ ((p.narrow.u - p.narrow.l).tdiv p.narrow.d).natAbs := by omega
      exact ((Nat.mul_le_mul_right _ hkq).trans hnarrow).trans habs
    have hzero := Int.eq_zero_of_abs_lt_dvd hend (by rw [Int.abs_eq_natAbs]; omega)
    rcases mul_eq_zero.mp hzero with h1 | h1
    · omega
    · exact hdef.step h1
  · -- the first two blocks force the increment, and then a turn round the type
    have h1 := h 1 hT
    have hs1 := share_one_ne (T := T) hmany
    have hpos1 : p.position T 1 = p.share T 0 := hpos0
    simp only [Loop.Meets, hs1, if_false, hsize, hpos1] at h1
    have hstart := Int.dvd_sub h1.1 hL
    have hdiff := Int.dvd_sub hstart hend
    have hcast : ((p.share T 0 - 1 : Nat) : Int) = p.share T 0 - 1 := by omega
    rw [hcast, show p.narrow.l + (1 : Nat) * k * p.narrow.d - (p.l + p.share T 0 * p.d) -
      (p.narrow.l - p.l) - (p.narrow.l + (0 : Nat) * k * p.narrow.d + k * p.narrow.d - p.narrow.d -
        (p.l + (p.share T 0 - 1) * p.d) - (p.narrow.l - p.l)) = p.narrow.d - p.d by
          push_cast; ring] at hdiff
    have hd := narrow_d_eq hp hdiff
    rw [hd, show p.narrow.l + (1 : Nat) * k * p.d - (p.l + p.share T 0 * p.d) -
      (p.narrow.l - p.l) = (k - p.share T 0) * p.d by push_cast; ring] at hstart
    have hturn := wrapped_distance hp hw hdef.diff (by rw [← hd]; omega)
    have hsteps := trips_le hw
    have hδ := natAbs_le_of_fits (fits_kmpInt32 p.d)
    have hfit : kmpInt32 p.d = p.d := hd
    rw [hd] at hnarrow
    rw [hfit] at hδ
    have hM : 2 ^ e.width ≤ (k - p.share T 0).natAbs * p.d.natAbs := by
      rw [← Int.natAbs_mul]
      have hdvd := Int.natAbs_dvd_natAbs.mpr hstart
      rw [Int.natAbs_pow] at hdvd
      refine Nat.le_of_dvd (Int.natAbs_pos.mpr (mul_ne_zero (by omega) hp.step)) hdvd
    have hshare := mul_share_zero_le p T
    have hTa : T * (k - p.share T 0).natAbs ≤
        (p.trips - 1) + ((p.narrow.u - p.narrow.l).tdiv p.d).natAbs + (T - 1) := by
      have ha : ((k - p.share T 0).natAbs : Int) = p.share T 0 - k := by omega
      have hb : (((p.narrow.u - p.narrow.l).tdiv p.d).natAbs : Int) = 1 - p.narrow.count := by
        rw [hd] at hq
        omega
      have hshare' : (T : Int) * p.share T 0 ≤ p.trips + (T - 1 : Nat) := by exact_mod_cast hshare
      have hcast' : ((p.trips - 1 : Nat) : Int) = p.trips - 1 := by omega
      zify
      rw [← Int.natCast_natAbs, ← Int.natCast_natAbs, ha, hb, hcast']
      linarith
    exact no_second_turn hT (by exact_mod_cast hsizeM) hδ hM hTa (by omega)

theorem first_zero {q : Loop} {m : Nat} (hm : q.count = m) : q.first T 0 = q.l := by
  rw [first_of_count hm]
  split
  · simp
  · next hrest => simp [Nat.eq_zero_of_not_pos hrest]

theorem within_refl (d x : Int) : Within d x x := by
  unfold Within
  split <;> exact le_rfl

/-- An idle thread is not given a block of one iteration. -/
theorem size_ne_one_of_idle {m : Nat} (hm : p.narrow.count = m) (hs : p.share T t = 0)
    (h : p.Meets e T t) : quota m T t ≠ 1 := by
  intro hone
  simp only [Loop.Meets, hs, if_true, size_of_count hm, hone, Nat.cast_one, one_mul,
    add_sub_cancel_right] at h
  exact h (within_refl _ _)

/-- The last value of the first thread. -/
theorem end_of_meets {m : Nat} (hw : Within p.d p.l p.u) (hm : p.narrow.count = m)
    (hL : 2 ^ e.width ∣ p.narrow.l - p.l) (h : p.Meets e T 0) :
    2 ^ e.width ∣ ((quota m T 0 : Int) - 1) * p.narrow.d - (p.share T 0 - 1 : Nat) * p.d := by
  have hpos : p.position T (0 + 1) = p.share T 0 := by
    rw [position_succ, position_zero, Nat.zero_add]
  simp only [Loop.Meets, share_zero_ne hw, if_false, first_zero hm, size_of_count hm, hpos] at h
  have hend := Int.dvd_sub h.2 hL
  rwa [show p.narrow.l + quota m T 0 * p.narrow.d - p.narrow.d -
    (p.l + (p.share T 0 - 1 : Nat) * p.d) - (p.narrow.l - p.l) =
      ((quota m T 0 : Int) - 1) * p.narrow.d - (p.share T 0 - 1 : Nat) * p.d by ring] at hend

theorem single_of_meets {m : Nat} (hw : Within p.d p.l p.u) (hT : 1 < T)
    (hdef : p.narrow.BlockDefined T 0) (hone : p.trips = 1) (hm : p.narrow.count = m) (hpos : 0 < m)
    (hL : 2 ^ e.width ∣ p.narrow.l - p.l) (h : ∀ t < T, p.Meets e T t) : m = 1 := by
  have hend := end_of_meets hw hm hL (h 0 (by omega))
  have hnarrow := (steps_le p.narrow).trans (natAbs_le_of_fits hdef.diff)
  have hsizeM := e.size_ge
  have hle0 := quota_le (t := 0) hT hpos
  have hpos0 := quota_zero_pos (T := T) hpos
  have hq : p.narrow.count = (p.narrow.u - p.narrow.l).tdiv p.narrow.d + 1 := rfl
  have hmod : 1 % T = 1 := Nat.mod_eq_of_lt hT
  have hdiv : 1 / T = 0 := Nat.div_eq_of_lt hT
  have hshare0 : p.share T 0 = 1 := by simp [Loop.share, Loop.leftOver, Loop.quot, hone, hmod, hdiv]
  have hshare1 : p.share T 1 = 0 := by simp [Loop.share, Loop.leftOver, Loop.quot, hone, hmod, hdiv]
  simp only [if_true] at hle0
  rw [hshare0, Nat.sub_self, Nat.cast_zero, zero_mul, sub_zero] at hend
  have hsmall : (((quota m T 0 : Int) - 1) * p.narrow.d).natAbs ≤ 2 ^ 31 := by
    rw [Int.natAbs_mul]
    have hle : ((quota m T 0 : Int) - 1).natAbs ≤
        ((p.narrow.u - p.narrow.l).tdiv p.narrow.d).natAbs := by omega
    exact (Nat.mul_le_mul_right _ hle).trans hnarrow
  have hzero := Int.eq_zero_of_abs_lt_dvd hend (by rw [Int.abs_eq_natAbs]; omega)
  have hquota : quota m T 0 = 1 := by
    rcases mul_eq_zero.mp hzero with h1 | h1
    · omega
    · exact absurd h1 hdef.step
  by_contra hne
  refine size_ne_one_of_idle hm hshare1 (h 1 hT) ?_
  have hsplit := Nat.div_add_mod m T
  unfold quota at hquota ⊢
  split at hquota
  · have hzero : m / T = 0 := by omega
    rw [hzero] at hsplit
    rw [if_pos (by omega), hzero]
  · rwa [if_neg (by omega)]

/-- The starts of the first two blocks force the increment. -/
theorem incr_of_meets {m : Nat} (hp : p.Wide e) (hw : Within p.d p.l p.u) (hT : 1 < T)
    (hmany : 2 ≤ p.trips) (hm : p.narrow.count = m) (hL : 2 ^ e.width ∣ p.narrow.l - p.l)
    (h : ∀ t < T, p.Meets e T t) : p.narrow.d = p.d := by
  have hend := end_of_meets hw hm hL (h 0 (by omega))
  have h1 := h 1 hT
  have hpos1 : p.position T 1 = p.share T 0 := by
    rw [show 1 = 0 + 1 from rfl, position_succ, position_zero, Nat.zero_add]
  have hs0 := share_zero_ne (T := T) hw
  have hcast : ((p.share T 0 - 1 : Nat) : Int) = p.share T 0 - 1 := by omega
  simp only [Loop.Meets, share_one_ne hmany, if_false, first_of_count hm, hpos1, one_mul] at h1
  have hdiff := Int.dvd_sub (Int.dvd_sub h1.1 hL) hend
  rw [hcast] at hdiff
  by_cases hrest : m % T = 1
  · -- the left-over is added as it is
    have hquota : quota m T 0 = quota m T 1 + 1 := by simp [quota, hrest]
    rw [hquota, hrest, show p.narrow.l + quota m T 1 * p.narrow.d + ((if 1 < 1 then 0 else 1 : Nat) : Int) -
      (p.l + p.share T 0 * p.d) - (p.narrow.l - p.l) -
        (((quota m T 1 + 1 : Nat) - 1) * p.narrow.d - (p.share T 0 - 1) * p.d) = 1 - p.d by
          push_cast; simp; ring] at hdiff
    have hone : Fits 32 (1 : Int) := by decide
    have hd := LoopType.eq_of_dvd (e.fits_of_fits hone) hp.incr hdiff
    exact kmpInt32_of_fits (hd ▸ hone)
  · have hquota : quota m T 1 = quota m T 0 := by
      unfold quota
      split <;> split <;> omega
    have hextra : (if 1 < m % T then 0 else m % T) = 0 := by
      split <;> omega
    rw [hquota, hextra, show p.narrow.l + quota m T 0 * p.narrow.d + ((0 : Nat) : Int) -
      (p.l + p.share T 0 * p.d) - (p.narrow.l - p.l) -
        ((quota m T 0 - 1) * p.narrow.d - (p.share T 0 - 1) * p.d) = p.narrow.d - p.d by
          push_cast; ring] at hdiff
    exact narrow_d_eq hp hdiff

/-- Blocks of the right length in every residue class have the right length. -/
theorem quota_of_meets {m : Nat} (hp : p.Wide e) (hw : Within p.d p.l p.u) (hT : 1 < T) (ht : t < T)
    (hdef : p.narrow.BlockDefined T 0) (hm : p.narrow.count = m) (hpos : 0 < m)
    (hd : p.narrow.d = p.d) (h : p.Meets e T t) (hs : p.share T t ≠ 0) :
    quota m T t = quota p.trips T t := by
  have hshare : quota p.trips T t = p.share T t := rfl
  have hstep := position_succ p T t
  have hcast : ((p.position T (t + 1) - 1 : Nat) : Int) = p.position T t + p.share T t - 1 := by
    omega
  simp only [Loop.Meets, hs, if_false, size_of_count hm, hcast, hd] at h
  have hdiff := Int.dvd_sub h.2 h.1
  rw [show p.narrow.first T t + quota m T t * p.d - p.d -
    (p.l + (p.position T t + p.share T t - 1) * p.d) -
      (p.narrow.first T t - (p.l + p.position T t * p.d)) =
        ((quota m T t : Int) - p.share T t) * p.d by ring] at hdiff
  have hq : p.narrow.count = (p.narrow.u - p.narrow.l).tdiv p.narrow.d + 1 := rfl
  have hnarrow := (steps_le p.narrow).trans (natAbs_le_of_fits hdef.diff)
  have hwide := trips_le hw
  have habs := hp.upper.abs_lt hp.lower
  have hsizeM := e.size_ge
  have hn := Loop.trips_pos hw
  have hk := quota_le (t := t) hT hpos
  have hk' := quota_le (t := t) hT hn
  rw [hd] at hnarrow hq
  have hsmall : (((quota m T t : Int) - p.share T t) * p.d).natAbs < 2 ^ e.width := by
    rw [Int.natAbs_mul]
    have hmax : ((quota m T t : Int) - p.share T t).natAbs ≤ m - 1 ∨
        ((quota m T t : Int) - p.share T t).natAbs ≤ p.trips - 1 := by
      rw [hshare] at hk'
      by_cases h0 : t = 0
      · have hpos0 := quota_zero_pos (T := T) hpos
        subst h0
        omega
      · rw [if_neg h0] at hk hk'
        omega
    have hmq : m - 1 = ((p.narrow.u - p.narrow.l).tdiv p.d).natAbs := by omega
    rcases hmax with hle | hle
    · rw [hmq] at hle
      have hmul := (Nat.mul_le_mul_right p.d.natAbs hle).trans hnarrow
      zify at hmul ⊢
      omega
    · have hmul := (Nat.mul_le_mul_right p.d.natAbs hle).trans hwide
      zify at hmul ⊢
      omega
  have hzero := Int.eq_zero_of_abs_lt_dvd hdiff (by rw [Int.abs_eq_natAbs]; exact_mod_cast hsmall)
  rcases mul_eq_zero.mp hzero with h1 | h1
  · omega
  · exact absurd h1 hp.step

/-- A team that gets its blocks right sees the trip count of the wide loop. -/
theorem count_of_meets {m : Nat} (hp : p.Wide e) (hw : Within p.d p.l p.u) (hT : 1 < T)
    (hdef : p.narrow.BlockDefined T 0) (hm : p.narrow.count = m) (hpos : 0 < m)
    (hd : p.narrow.d = p.d) (h : ∀ t < T, p.Meets e T t) : m = p.trips := by
  have hn := Loop.trips_pos hw
  have hfirst := quota_of_meets hp hw hT (by omega) hdef hm hpos hd (h 0 (by omega))
    (share_zero_ne hw)
  refine eq_of_quota (T := T) (by omega) ?_
  intro t ht
  by_cases hs : p.share T t = 0
  · obtain ⟨hfew, -, -⟩ := idle_start ht hs
    have hshare : quota p.trips T t = 0 := hs
    have hone := size_ne_one_of_idle hm hs (h t ht)
    have hquota : quota p.trips T 0 = 1 := by
      simp [quota, Nat.mod_eq_of_lt hfew, Nat.div_eq_of_lt hfew, hn]
    have hle := quota_anti m T t
    omega
  · exact quota_of_meets hp hw hT ht hdef hm hpos hd (h t ht) hs

/-- The unscaled left-over misplaces the first block past the longer ones. -/
theorem even_of_meets (hp : p.Wide e) (hw : Within p.d p.l p.u) (hT : 1 < T)
    (hcount : p.narrow.count = p.trips) (hd : p.narrow.d = p.d)
    (hL : 2 ^ e.width ∣ p.narrow.l - p.l) (h : ∀ t < T, p.Meets e T t) :
    p.d = 1 ∨ T ∣ p.trips ∨ p.trips < T := by
  by_contra hodd
  simp only [not_or, not_lt] at hodd
  obtain ⟨hone, hdvd, hmany⟩ := hodd
  have hlt : p.trips % T < T := Nat.mod_lt _ (by omega)
  have hrest : 0 < p.trips % T := Nat.emod_pos_of_not_dvd hdvd
  have hq : 0 < p.trips / T := Nat.div_pos hmany (by omega)
  have hs : p.share T (p.trips % T) ≠ 0 := by
    rw [share_eq_quota, quota, if_neg (lt_irrefl _)]
    exact hq.ne'
  have hres := (meets_busy hL hcount hd hs).mp (h _ hlt)
  have hdvd' := hres.resolve_left (lt_irrefl _)
  have hwide := trips_le hw
  have habs := hp.upper.abs_lt hp.lower
  have hsplit := Nat.div_add_mod p.trips T
  have hlong : T * 1 ≤ T * (p.trips / T) := Nat.mul_le_mul_left T hq
  have hdpos : 0 < p.d.natAbs := Int.natAbs_pos.mpr hp.step
  have hsmall : (((p.trips % T : Nat) : Int) * (1 - p.d)).natAbs < 2 ^ e.width := by
    rw [Int.natAbs_mul, Int.natAbs_natCast]
    have hstep : (1 - p.d).natAbs ≤ 2 * p.d.natAbs := by omega
    have h1 : p.trips % T * (1 - p.d).natAbs ≤ p.trips % T * (2 * p.d.natAbs) :=
      Nat.mul_le_mul_left _ hstep
    have h2 : 2 * (p.trips % T) * p.d.natAbs ≤ (p.trips - 1) * p.d.natAbs :=
      Nat.mul_le_mul_right _ (by omega)
    have h3 : p.trips % T * (2 * p.d.natAbs) = 2 * (p.trips % T) * p.d.natAbs := by ring
    have h4 := (h1.trans (h3.le.trans h2)).trans hwide
    zify at h4 ⊢
    omega
  have hzero := Int.eq_zero_of_abs_lt_dvd hdvd' (by
    rw [Int.abs_eq_natAbs]
    exact_mod_cast hsmall)
  rcases mul_eq_zero.mp hzero with h1 | h1
  · omega
  · omega

theorem carried_of_meets (hp : p.Wide e) (hw : Within p.d p.l p.u) (hT : 0 < T)
    (hdef : ∀ t < T, p.narrow.BlockDefined T t) (h : ∀ t < T, p.Meets e T t) :
    p.BlockCarried e T := by
  have hL := (lower_of_meets hw (hdef 0 hT).count (h 0 hT)).1
  have hlower : e.cast (kmpInt32 p.l) = p.l := (LoopType.cast_eq_iff hp.lower).mpr hL
  rcases Nat.lt_or_ge 1 T with hteam | hsingle
  · have hpos := count_pos_of_meets hp hw hteam (hdef 0 hT) h
    obtain ⟨m, hm⟩ := Int.eq_ofNat_of_zero_le hpos.le
    have hm0 : 0 < m := by omega
    have hn := Loop.trips_pos hw
    have hboth : p.narrow.count = p.trips ∧ (p.trips = 1 ∨ p.narrow.d = p.d) := by
      rcases Nat.lt_or_ge p.trips 2 with hfew | hmany
      · have hone : p.trips = 1 := by omega
        have hm1 := single_of_meets hw hteam (hdef 0 hT) hone hm hm0 hL h
        exact ⟨by rw [hm, hm1, hone], Or.inl hone⟩
      · have hd := incr_of_meets hp hw hteam hmany hm hL h
        have hmn := count_of_meets hp hw hteam (hdef 0 hT) hm hm0 hd h
        exact ⟨by rw [hm, hmn], Or.inr hd⟩
    obtain ⟨hcount, hincr⟩ := hboth
    refine ⟨hlower, hdef, ?_, fun _ => hcount, ?_, ?_, ?_⟩
    · intro hone
      omega
    · intro _
      rcases hincr with hone | hd
      · exact Or.inl hone
      · exact Or.inr (kmpInt32_eq_iff.mp hd)
    · intro _
      rcases hincr with hone | hd
      · exact Or.inr (Or.inr (by omega))
      · exact even_of_meets hp hw hteam hcount hd hL h
    · intro hfew
      have hs : p.share T p.trips = 0 := by
        simp [Loop.share, Loop.leftOver, Loop.quot, Nat.mod_eq_of_lt hfew, Nat.div_eq_of_lt hfew]
      exact (meets_idle hfew hcount hs).mp (h _ hfew)
  · have hone : T = 1 := by omega
    subst hone
    have halone := ((meets_alone hp hw).mp (h 0 hT)).2
    refine ⟨hlower, hdef, fun _ => halone, ?_, ?_, ?_, ?_⟩
    · intro hlt
      omega
    · intro hlt
      omega
    · intro hlt
      omega
    · intro hlt
      have hn := Loop.trips_pos hw
      omega

end Necessary

theorem blockGiven_iff (hp : p.Wide e) (hw : Within p.d p.l p.u) (hT : 0 < T) :
    (∀ t < T, ∃ r, wideInit e T kmpSchedStaticNochunk c p t = some r ∧ p.BlockGiven T t r) ↔
      p.BlockCarried e T := by
  constructor
  · intro h
    have hboth := fun t ht => (wideInit_blockGiven (c := c) hp hw ht).mp (h t ht)
    exact carried_of_meets hp hw hT (fun t ht => (hboth t ht).1) fun t ht => (hboth t ht).2
  · intro h t ht
    exact (wideInit_blockGiven hp hw ht).mpr ⟨h.defined t ht, meets_of_carried hp hw h ht⟩

end Block

end Hero.Omp
