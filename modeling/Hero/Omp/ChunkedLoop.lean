import Hero.Omp.StaticLoop
import Mathlib.Algebra.Order.Ring.Abs
import Mathlib.Data.Nat.ModEq

/-!
# Chunked static scheduling

Generated code runs the first chunk a thread is handed and then shifts it by the stride, clipping
each chunk to the bound of the loop.  The routine tests for the last chunk with a remainder of the
loop's upper bound, as if every loop started at zero.
-/

namespace Hero.Omp

open Hero.Checked Hero.Progression

/-- The iterations generated code runs for a range under the chunked schedule of a loop to `u`. -/
def StaticRange.chunks (d u : Int) (r : StaticRange) : Set Int :=
  {x | ∃ k : Nat, (∀ i ≤ k, Within d (r.plower + i * r.pstride) u) ∧
    x ∈ visited (r.plower + k * r.pstride) (clip d (r.pupper + k * r.pstride) u) d}

namespace Loop

/-- A chunk size and a team whose products with the increment are `kmp_int32`. -/
structure Chunked (p : Loop) (c T : Nat) : Prop where
  step : p.d ≠ 0
  nonempty : Within p.d p.l p.u
  lower : Fits 32 p.l
  upper : Fits 32 p.u
  chunk : 0 < c
  team : 0 < T
  span : Fits 32 (p.d * c)
  stride : Fits 32 (p.d * c * T)

def span (p : Loop) (c : Nat) : Int := p.d * c

/-- The routine's start of the last chunk. -/
def beginLastChunk (p : Loop) (c : Nat) : Int := p.u - p.u.tmod (p.span c)

def chunkRange (p : Loop) (c T t : Nat) : StaticRange :=
  let first := p.l + p.span c * t
  ⟨some (if (p.beginLastChunk c - first).tmod (p.span c * T) = 0 then 1 else 0), first,
    first + p.span c - p.d, p.span c * T⟩

/-- The intermediate results of thread `t` that can leave the word. -/
@[mk_iff]
structure ChunkInRange (p : Loop) (c T t : Nat) : Prop where
  diff : Fits 32 (p.u - p.l)
  count : Fits 32 p.trips
  first : Fits 32 (p.l + p.span c * t)
  stop : Fits 32 (p.l + p.span c * t + p.span c)
  upper : Fits 32 (p.l + p.span c * t + p.span c - p.d)
  quotient : Fits 32 (p.u.tdiv (p.span c))
  gap : Fits 32 (p.beginLastChunk c - (p.l + p.span c * t))
  turns : Fits 32 ((p.beginLastChunk c - (p.l + p.span c * t)).tdiv (p.span c * T))

end Loop

variable {p : Loop} {c T t : Nat}

private theorem span_ne_zero (h : p.Chunked c T) : p.span c ≠ 0 :=
  mul_ne_zero h.step (by exact_mod_cast h.chunk.ne')

private theorem stride_ne_zero (h : p.Chunked c T) : p.span c * T ≠ 0 :=
  mul_ne_zero (span_ne_zero h) (by exact_mod_cast h.team.ne')

private theorem beginLastChunk_between (p : Loop) (c : Nat) :
    0 ≤ p.beginLastChunk c ∧ p.beginLastChunk c ≤ p.u ∨
      p.u ≤ p.beginLastChunk c ∧ p.beginLastChunk c ≤ 0 := by
  have habs := Int.natAbs_tmod p.u (p.span c)
  have hle := Nat.mod_le p.u.natAbs (p.span c).natAbs
  unfold Loop.beginLastChunk
  rcases le_total 0 p.u with hu | hu
  · left
    have h0 := Int.tmod_nonneg (p.span c) hu
    omega
  · right
    have h0 : 0 ≤ (-p.u).tmod (p.span c) := Int.tmod_nonneg _ (by omega)
    rw [Int.neg_tmod] at h0
    omega

/-- What a call computes, and when it is defined. -/
theorem staticInit_chunk (h : p.Chunked c T) (ht : t < T) (r : StaticRange) :
    staticInit T kmpSchedStaticChunk c p t = some r ↔
      p.ChunkInRange c T t ∧ r = p.chunkRange c T t := by
  have hpos := Loop.trips_pos h.nonempty
  have htr := Loop.tdiv_add_one h.nonempty
  have hdiv : Fits 32 p.trips → Fits 32 ((p.u - p.l).tdiv p.d) := by
    intro hn
    apply (fits_zero 32).between hn
    left
    omega
  have hturn : Fits 32 (p.d * c * t) := by
    have hle := (show Fits 32 (T * (p.d * c)) by simpa [mul_comm] using h.stride).mul_step ht.le
    rwa [mul_comm] at hle
  have hbegin : Fits 32 (p.u - p.u.tmod (p.d * c)) := by
    rcases beginLastChunk_between p c with hb | hb
    · exact (fits_zero 32).between h.upper (Or.inl hb)
    · exact (fits_zero 32).between h.upper (Or.inr hb)
  have hs := span_ne_zero h
  have hsT := stride_ne_zero h
  unfold Loop.span at hs hsT
  simp only [staticInit_chunk_do, bind, pure, Option.bind_eq_some_iff, sub_eq_some, div_eq_some,
    add_eq_some, mul_eq_some, mod_eq_some, ↓existsAndEq, true_and, and_assoc, htr, Option.some.injEq]
  rw [Loop.chunkInRange_iff]
  simp only [Loop.chunkRange, Loop.beginLastChunk, Loop.span, h.step, h.span, h.stride, hturn,
    hbegin, hs, hsT, ne_eq, not_false_eq_true, true_and, and_assoc]
  constructor
  · intro hall
    obtain ⟨h0, -, h1, h2, h3, h4, h5, h6, h7, rfl⟩ := hall
    exact ⟨h0, h1, h2, h3, h4, h5, h6, h7, rfl⟩
  · intro hall
    obtain ⟨h0, h1, h2, h3, h4, h5, h6, h7, rfl⟩ := hall
    exact ⟨h0, hdiv h1, h1, h2, h3, h4, h5, h6, h7, rfl⟩

private theorem chunk_start (p : Loop) (c T t k : Nat) :
    p.l + p.span c * t + k * (p.span c * T) = p.l + (c * (t + T * k) : Nat) * p.d := by
  unfold Loop.span
  push_cast
  ring

private theorem chunk_stop (p : Loop) (c T t k : Nat) :
    p.l + p.span c * t + p.span c - p.d + k * (p.span c * T)
      = p.l + (c * (t + T * k) : Nat) * p.d + c * p.d - p.d := by
  unfold Loop.span
  push_cast
  ring

/-- The chunks of a thread are its blocks of `c` positions, dealt round robin. -/
private theorem chunks_eq (h : p.Chunked c T) (ht : t < T) :
    (p.chunkRange c T t).chunks p.d p.u =
      valuesAt p.l p.d {j | j < p.trips ∧ j / c % T = t} := by
  have hc := h.chunk
  ext x
  simp only [StaticRange.chunks, Loop.chunkRange, chunk_start, chunk_stop,
    mem_visited_clip h.step, mem_terms_shift]
  constructor
  · intro hx
    obtain ⟨k, -, ⟨j, hj0, hj1, rfl⟩, hu⟩ := hx
    have hblock : j / c = t + T * k := by
      apply Nat.div_eq_of_lt_le
      · linarith
      · rw [Nat.succ_mul, mul_comm (t + T * k)]
        exact hj1
    refine ⟨j, ⟨(within_step_iff h.step h.nonempty j).mp hu, ?_⟩, rfl⟩
    rw [hblock, Nat.add_mul_mod_self_left, Nat.mod_eq_of_lt ht]
  · intro hx
    obtain ⟨j, ⟨hj, hturn⟩, rfl⟩ := hx
    have hblock : t + T * (j / c / T) = j / c := by
      rw [← hturn]
      exact Nat.mod_add_div _ _
    have hlow : c * (j / c) ≤ j := Nat.mul_div_le _ _
    have hhigh : j < c * (j / c) + c := Nat.lt_mul_div_succ _ hc
    have hin : Within p.d (p.l + j * p.d) p.u := (within_step_iff h.step h.nonempty j).mpr hj
    refine ⟨j / c / T, ?_, ⟨j, by rwa [hblock], by rwa [hblock], rfl⟩, hin⟩
    intro i hi
    apply within_of_later h.step _ hin
    have hle : t + T * i ≤ t + T * (j / c / T) := Nat.add_le_add_left (Nat.mul_le_mul_left _ hi) _
    rw [hblock] at hle
    exact (Nat.mul_le_mul_left c hle).trans hlow

private theorem told_iff_dvd (p : Loop) (c T t : Nat) :
    (p.chunkRange c T t).plastiter = some 1 ↔
      p.span c * T ∣ p.beginLastChunk c - (p.l + p.span c * t) := by
  rw [Int.dvd_iff_tmod_eq_zero]
  simp only [Loop.chunkRange]
  split <;> simp_all

/-- The loop covers as many whole spans as there are full blocks before its last iteration. -/
private theorem diff_eq_spans (h : p.Chunked c T) : ∃ r : Int,
    p.u - p.l = p.span c * ((p.trips - 1) / c : Nat) + r ∧ 0 ≤ r * p.span c ∧
      r * p.span c < p.span c * p.span c := by
  have hpos := Loop.trips_pos h.nonempty
  have hc := h.chunk
  have hlast : Within p.d (p.l + (p.trips - 1 : Nat) * p.d) p.u :=
    (within_step_iff h.step h.nonempty _).mpr (Nat.sub_lt hpos Nat.one_pos)
  have hnext : ¬ Within p.d (p.l + p.trips * p.d) p.u := by
    intro hin
    exact lt_irrefl _ ((within_step_iff h.step h.nonempty _).mp hin)
  rw [within_iff_mul _ _ _ h.step] at hlast hnext
  have hmod : (c : Int) * ((p.trips - 1) / c : Nat) + ((p.trips - 1) % c : Nat)
      = (p.trips - 1 : Nat) := by exact_mod_cast Nat.div_add_mod (p.trips - 1) c
  have hlt : (((p.trips - 1) % c : Nat) : Int) + 1 ≤ c := by
    exact_mod_cast Nat.mod_lt _ hc
  have hc' : (0 : Int) < c := by exact_mod_cast hc
  have hm : (0 : Int) ≤ ((p.trips - 1) % c : Nat) := by positivity
  have hdd : 0 < p.d * p.d := mul_self_pos.mpr h.step
  have hn : (p.trips : Int) = (p.trips - 1 : Nat) + 1 := by omega
  rw [hn] at hnext
  rw [← hmod] at hlast hnext
  generalize ((p.trips - 1) / c : Nat) = k at *
  generalize (((p.trips - 1) % c : Nat) : Int) = m at *
  refine ⟨p.u - p.l - p.span c * k, by ring, ?_, ?_⟩
  · have heq : (p.u - p.l - p.span c * k) * p.span c
        = c * ((p.u - (p.l + (c * k + m) * p.d)) * p.d + m * (p.d * p.d)) := by
      unfold Loop.span
      ring
    rw [heq]
    positivity
  · have heq : (p.u - p.l - p.span c * k) * p.span c
        = c * ((p.u - (p.l + (c * k + m + 1) * p.d)) * p.d + (m + 1) * (p.d * p.d)) := by
      unfold Loop.span
      ring
    have hsq : p.span c * p.span c = c * (c * (p.d * p.d)) := by
      unfold Loop.span
      ring
    rw [heq, hsq]
    apply mul_lt_mul_of_pos_left _ hc'
    have hle := mul_le_mul_of_nonneg_right hlt hdd.le
    linarith

/-- Spans by which rounding the upper bound toward zero passes the last block. -/
def Loop.overshoot (p : Loop) (c : Nat) : Nat :=
  if 0 ≤ p.u.tmod (p.span c) * p.span c then 0 else 1

private theorem tmod_sign {u s : Int} (hus : 0 ≤ u * s) : 0 ≤ u.tmod s * s := by
  rcases lt_trichotomy s 0 with hs | hs | hs
  · have hu : 0 ≤ -u := by nlinarith
    have hmod := Int.tmod_nonneg s hu
    rw [Int.neg_tmod] at hmod
    nlinarith
  · simp [hs]
  · have hu : 0 ≤ u := by nlinarith
    have hmod := Int.tmod_nonneg s hu
    positivity

private theorem overshoot_eq_zero_iff (p : Loop) (c : Nat) :
    p.overshoot c = 0 ↔ 0 ≤ p.u * p.span c ∨ p.span c ∣ p.u := by
  simp only [Loop.overshoot, ite_eq_left_iff, Nat.one_ne_zero, imp_false, not_not]
  constructor
  · intro hmod
    by_contra hno
    obtain ⟨hneg, hdvd⟩ := not_or.mp hno
    have hsign := tmod_sign (u := -p.u) (s := p.span c) (by linarith)
    rw [Int.neg_tmod] at hsign
    have hzero : p.u.tmod (p.span c) * p.span c = 0 := by linarith
    rcases mul_eq_zero.mp hzero with h0 | h0
    · exact hdvd (Int.dvd_of_tmod_eq_zero h0)
    · simp [h0] at hneg
  · intro hor
    rcases hor with hus | hdvd
    · exact tmod_sign hus
    · rw [Int.dvd_iff_tmod_eq_zero.mp hdvd, zero_mul]

/-- Rounding the upper bound toward zero finds the last block of an aligned loop, or the one after
it when the bound lies on the other side of zero. -/
private theorem lastBlock_eq (h : p.Chunked c T) {b : Int} (hl : p.l = p.span c * b) :
    p.u.tdiv (p.span c) - b = ((p.trips - 1) / c + p.overshoot c : Nat) := by
  obtain ⟨r, hr, hr0, hr1⟩ := diff_eq_spans h
  have hs := span_ne_zero h
  have hu := Int.mul_tdiv_add_tmod p.u (p.span c)
  have hsq : 0 < p.span c * p.span c := mul_self_pos.mpr hs
  have habs : |p.u.tmod (p.span c) * p.span c| < p.span c * p.span c := by
    have hlt : |p.u.tmod (p.span c)| < |p.span c| := by
      have hmod := Int.natAbs_tmod p.u (p.span c)
      have hlt := Nat.mod_lt p.u.natAbs (Int.natAbs_pos.mpr hs)
      rw [← hmod] at hlt
      zify at hlt
      exact hlt
    rw [abs_mul, ← abs_mul_abs_self (p.span c)]
    exact mul_lt_mul_of_pos_right hlt (abs_pos.mpr hs)
  obtain ⟨hlow, hhigh⟩ := abs_lt.mp habs
  have hgap : (p.u.tdiv (p.span c) - b - ((p.trips - 1) / c : Nat)) * (p.span c * p.span c)
      = r * p.span c - p.u.tmod (p.span c) * p.span c := by
    have hr' : r = p.span c * (p.u.tdiv (p.span c) - b - ((p.trips - 1) / c : Nat))
        + p.u.tmod (p.span c) := by
      rw [hl] at hr
      linarith
    rw [hr']
    ring
  unfold Loop.overshoot
  generalize p.u.tmod (p.span c) * p.span c = ρ at *
  generalize p.u.tdiv (p.span c) - b = q at *
  generalize (p.trips - 1) / c = k at *
  generalize p.span c * p.span c = sq at *
  split
  · next hρ =>
    have hlt1 : q - k < 1 := by nlinarith
    have hgt : -1 < q - k := by nlinarith
    omega
  · next hρ =>
    have hlt2 : q - k < 2 := by nlinarith
    have hgt : 0 < q - k := by nlinarith
    omega

private theorem gap_eq (h : p.Chunked c T) (hl : p.span c ∣ p.l) (t : Nat) :
    p.beginLastChunk c - (p.l + p.span c * t)
      = p.span c * (((p.trips - 1) / c + p.overshoot c : Nat) - t) := by
  obtain ⟨b, hb⟩ := hl
  have hu := Int.mul_tdiv_add_tmod p.u (p.span c)
  rw [← lastBlock_eq h hb, Loop.beginLastChunk, hb]
  linarith

/-- The thread that is told it has the last iteration in a loop aligned with its span. -/
private theorem told_turn_iff (h : p.Chunked c T) (hl : p.span c ∣ p.l) (ht : t < T) :
    (p.chunkRange c T t).plastiter = some 1 ↔
      ((p.trips - 1) / c + p.overshoot c) % T = t := by
  rw [told_iff_dvd, gap_eq h hl, mul_dvd_mul_iff_left (span_ne_zero h), ← Nat.modEq_iff_dvd,
    Nat.ModEq, Nat.mod_eq_of_lt ht, eq_comm]

private theorem aligned_of_told (p : Loop) (c T t : Nat)
    (htold : (p.chunkRange c T t).plastiter = some 1) : p.span c ∣ p.l := by
  obtain ⟨m, hm⟩ := (told_iff_dvd p c T t).mp htold
  have hu := Int.mul_tdiv_add_tmod p.u (p.span c)
  refine ⟨p.u.tdiv (p.span c) - t - T * m, ?_⟩
  rw [Loop.beginLastChunk] at hm
  linarith

/-- When the last-chunk test of the routine agrees with the loop and nothing overflows. -/
structure Loop.ChunkExact (p : Loop) (c T : Nat) : Prop where
  diff : Fits 32 (p.u - p.l)
  count : Fits 32 p.trips
  stop : Fits 32 (p.l + p.span c * T)
  quotient : Fits 32 (p.u.tdiv (p.span c))
  gap : T = 1 → Fits 32 (p.u - p.u.tmod (p.span c) - p.l)
  aligned : p.span c ∣ p.l
  sign : T = 1 ∨ 0 ≤ p.u * p.span c ∨ p.span c ∣ p.u

private theorem turn_fits (h : p.Chunked c T) (hstop : Fits 32 (p.l + p.span c * T)) {a : Nat}
    (ha : a ≤ T) : Fits 32 (p.l + p.span c * a) := by
  rw [mul_comm] at hstop ⊢
  exact h.lower.step hstop ha

/-- The distance of a chunk start from the last chunk lies between the two extreme ones. -/
private theorem gap_fits (h : p.Chunked c T) (hx : p.ChunkExact c T) (ht : t < T) :
    Fits 32 (p.beginLastChunk c - (p.l + p.span c * t)) := by
  rcases Nat.lt_or_ge 1 T with hT | hT
  · have hover : p.overshoot c = 0 := by
      rw [overshoot_eq_zero_iff]
      rcases hx.sign with h1 | h1
      · omega
      · exact h1
    rw [gap_eq h hx.aligned, hover, Nat.add_zero]
    obtain ⟨r, hr, hr0, -⟩ := diff_eq_spans h
    have hs := span_ne_zero h
    rcases le_total t ((p.trips - 1) / c) with hle | hle
    · have hfull : Fits 32 (p.span c * ((p.trips - 1) / c : Nat)) := by
        apply (fits_zero 32).between hx.diff
        have hk : (0 : Int) ≤ ((p.trips - 1) / c : Nat) := by positivity
        rcases lt_or_gt_of_ne hs with hneg | hpos
        · right
          have hr' : r ≤ 0 := by nlinarith
          exact ⟨by linarith, by nlinarith⟩
        · left
          have hr' : 0 ≤ r := by nlinarith
          exact ⟨by nlinarith, by linarith⟩
      have hpart := Fits.mul_step (d := p.span c) (by rwa [mul_comm] at hfull)
        (Nat.sub_le ((p.trips - 1) / c) t)
      rwa [Nat.cast_sub hle, mul_comm] at hpart
    · have hstride : Fits 32 (T * p.span c) := by
        rw [mul_comm]
        exact h.stride
      obtain ⟨hlow, hhigh⟩ := hstride
      have hcast : (t : Int) + 1 ≤ T := by exact_mod_cast ht
      have hle' : (((p.trips - 1) / c : Nat) : Int) ≤ t := by exact_mod_cast hle
      have hk : (0 : Int) ≤ ((p.trips - 1) / c : Nat) := by positivity
      generalize (((p.trips - 1) / c : Nat) : Int) = k at *
      constructor <;> rcases lt_or_gt_of_ne hs with hneg | hpos <;> nlinarith
  · have hT1 : T = 1 := by omega
    have ht0 : t = 0 := by omega
    have hgap := hx.gap hT1
    simpa [ht0, Loop.beginLastChunk] using hgap

private theorem turns_fits (h : p.Chunked c T) (hx : p.ChunkExact c T) (ht : t < T) :
    Fits 32 ((p.beginLastChunk c - (p.l + p.span c * t)).tdiv (p.span c * T)) := by
  have hgap := gap_fits h hx ht
  by_cases hone : p.span c * T = -1
  · have hT := h.team
    have hunit : (T : Int) ∣ 1 := ⟨-p.span c, by linarith⟩
    have hT1 : T = 1 := by
      have hdvd : T ∣ 1 := by exact_mod_cast hunit
      exact Nat.dvd_one.mp hdvd
    have hs : p.span c = -1 := by simpa [hT1] using hone
    have hd : p.d = -1 := by
      have hc := h.chunk
      have hcd : (c : Int) ∣ 1 := ⟨-p.d, by unfold Loop.span at hs; linarith⟩
      have hc1 : c = 1 := by
        have hdvd : c ∣ 1 := by exact_mod_cast hcd
        exact Nat.dvd_one.mp hdvd
      simpa [Loop.span, hc1] using hs
    have htr := Loop.tdiv_add_one h.nonempty
    have ht0 : t = 0 := by omega
    rw [hd] at htr
    have hpos := Loop.trips_pos h.nonempty
    have heq : (p.beginLastChunk c - (p.l + p.span c * t)).tdiv (p.span c * T)
        = (p.trips : Int) - 1 := by
      rw [hone, ← htr]
      simp [Loop.beginLastChunk, hs, ht0]
    rw [heq]
    apply (fits_zero 32).between hx.count
    left
    omega
  · exact hgap.tdiv hone

private theorem inRange_of_chunkExact (h : p.Chunked c T) (hx : p.ChunkExact c T) (ht : t < T) :
    p.ChunkInRange c T t := by
  have hfirst := turn_fits h hx.stop ht.le
  have hstop := turn_fits h hx.stop (Nat.succ_le_of_lt ht)
  have hnext : p.l + p.span c * (t.succ : Nat) = p.l + p.span c * t + p.span c := by
    push_cast
    ring
  rw [hnext] at hstop
  refine ⟨hx.diff, hx.count, hfirst, hstop, ?_, hx.quotient, gap_fits h hx ht,
    turns_fits h hx ht⟩
  apply hfirst.between hstop
  have hc : (1 : Int) ≤ c := by exact_mod_cast h.chunk
  unfold Loop.span
  rcases le_total 0 p.d with hd | hd
  · left
    constructor <;> nlinarith
  · right
    constructor <;> nlinarith

/-- The chunks that contain the final iteration are those of the turn of its block. -/
private theorem last_mem_chunks (h : p.Chunked c T) (ht : t < T) :
    p.lastIteration ∈ (p.chunkRange c T t).chunks p.d p.u ↔ (p.trips - 1) / c % T = t := by
  have hpos := Loop.trips_pos h.nonempty
  rw [chunks_eq h ht]
  constructor
  · intro hx
    obtain ⟨j, ⟨-, hturn⟩, hj⟩ := hx
    rwa [step_injective h.step hj]
  · intro hturn
    exact ⟨p.trips - 1, ⟨Nat.sub_lt hpos Nat.one_pos, hturn⟩, rfl⟩

private theorem partitions_of_chunkExact (h : p.Chunked c T) (hx : p.ChunkExact c T) :
    Partitions T p (staticInit T kmpSchedStaticChunk c p) (StaticRange.chunks p.d p.u) := by
  have hsplits := splits_cyclic c T p.trips h.team
  have hover : ((p.trips - 1) / c + p.overshoot c) % T = (p.trips - 1) / c % T := by
    rcases hx.sign with h1 | h1
    · simp [h1, Nat.mod_one]
    · rw [(overshoot_eq_zero_iff p c).mpr h1, Nat.add_zero]
  refine ⟨p.chunkRange c T, ?_, ?_, ?_, ?_, ?_⟩
  · intro t ht
    exact (staticInit_chunk h ht _).mpr ⟨inRange_of_chunkExact h hx ht, rfl⟩
  · intro s hs t ht hst
    rw [chunks_eq h hs, chunks_eq h ht]
    exact hsplits.values_disjoint h.step hs ht hst
  · rw [Loop.iterations_eq h.step, ← hsplits.values_cover]
    apply Set.iUnion₂_congr
    intro t ht
    exact chunks_eq h ht
  · have hlt := Nat.mod_lt ((p.trips - 1) / c) h.team
    refine ⟨(p.trips - 1) / c % T, ⟨hlt, (told_turn_iff h hx.aligned hlt).mpr hover⟩, ?_⟩
    intro t ht
    have hturn := (told_turn_iff h hx.aligned ht.1).mp ht.2
    rw [← hturn, hover]
  · intro t ht htold
    rw [last_mem_chunks h ht, ← hover]
    exact (told_turn_iff h hx.aligned ht).mp htold

private theorem chunkExact_of_partitions (h : p.Chunked c T)
    (hp : Partitions T p (staticInit T kmpSchedStaticChunk c p) (StaticRange.chunks p.d p.u)) :
    p.ChunkExact c T := by
  obtain ⟨r, hr, -, -, ⟨t, ⟨ht, htold⟩, -⟩, hlast⟩ := hp
  have hin : ∀ s < T, p.ChunkInRange c T s ∧ r s = p.chunkRange c T s := by
    intro s hs
    exact (staticInit_chunk h hs _).mp (hr s hs)
  have hmem := hlast t ht htold
  rw [(hin t ht).2] at htold hmem
  have haligned := aligned_of_told p c T t htold
  have hsame : ((p.trips - 1) / c + p.overshoot c) % T = (p.trips - 1) / c % T := by
    rw [(told_turn_iff h haligned ht).mp htold, (last_mem_chunks h ht).mp hmem]
  have hT := h.team
  have hfirst := (hin 0 hT).1
  refine ⟨hfirst.diff, hfirst.count, ?_, hfirst.quotient, ?_, haligned, ?_⟩
  · have hstop := (hin (T - 1) (by omega)).1.stop
    have heq : p.l + p.span c * (T - 1 : Nat) + p.span c = p.l + p.span c * T := by
      rw [Nat.cast_sub hT]
      push_cast
      ring
    rwa [heq] at hstop
  · intro _
    have hgap := hfirst.gap
    simpa [Loop.beginLastChunk] using hgap
  · rw [← overshoot_eq_zero_iff]
    by_contra hno
    obtain ⟨hT1, hov⟩ := not_or.mp hno
    have hov1 : p.overshoot c = 1 := by
      unfold Loop.overshoot at hov ⊢
      split <;> simp_all
    rw [hov1] at hsame
    have hdvd : T ∣ 1 := (Nat.modEq_iff_dvd' (Nat.le_add_right _ 1)).mp hsame.symm |>.trans (by simp)
    exact hT1 (Nat.dvd_one.mp hdvd)

/-- The chunked schedule partitions the loop and names its last thread exactly under
`ChunkExact`. -/
theorem static_chunk_partitions_iff (p : Loop) (c T : Nat) (h : p.Chunked c T) :
    Partitions T p (staticInit T kmpSchedStaticChunk c p) (StaticRange.chunks p.d p.u) ↔
      p.ChunkExact c T := by
  constructor
  · intro hp
    exact chunkExact_of_partitions h hp
  · intro hx
    exact partitions_of_chunkExact h hx

theorem static_chunk_partitions_pairs :
    Partitions 3 ⟨4, 21, 1⟩ (staticInit 3 kmpSchedStaticChunk 2 ⟨4, 21, 1⟩)
      (StaticRange.chunks 1 21) :=
  (static_chunk_partitions_iff ⟨4, 21, 1⟩ 2 3
    ⟨by decide, by decide, by decide, by decide, by decide, by decide, by decide, by decide⟩).mpr
    ⟨by decide, by decide, by decide, by decide, by decide, by decide, by decide⟩

/-- Two threads share `1..4` in chunks of two: neither is told that it has the last iteration. -/
theorem static_chunk_not_partition :
    (Loop.mk 1 4 1).Chunked 2 2 ∧
    staticInit 2 kmpSchedStaticChunk 2 ⟨1, 4, 1⟩ 0 = some ⟨some 0, 1, 2, 4⟩ ∧
    staticInit 2 kmpSchedStaticChunk 2 ⟨1, 4, 1⟩ 1 = some ⟨some 0, 3, 4, 4⟩ ∧
    ¬ Partitions 2 ⟨1, 4, 1⟩ (staticInit 2 kmpSchedStaticChunk 2 ⟨1, 4, 1⟩)
      (StaticRange.chunks 1 4) := by
  have hzero : staticInit 2 kmpSchedStaticChunk 2 ⟨1, 4, 1⟩ 0 = some ⟨some 0, 1, 2, 4⟩ := by
    decide
  have hone : staticInit 2 kmpSchedStaticChunk 2 ⟨1, 4, 1⟩ 1 = some ⟨some 0, 3, 4, 4⟩ := by
    decide
  refine ⟨⟨by decide, by decide, by decide, by decide, by decide, by decide, by decide,
    by decide⟩, hzero, hone, ?_⟩
  intro hp
  obtain ⟨r, hr, -, -, ⟨t, ⟨ht, htold⟩, -⟩, -⟩ := hp
  have ht' := hr t ht
  cases t with
  | zero =>
    rw [hzero] at ht'
    simp [← Option.some.inj ht'] at htold
  | succ t =>
    have h0 : t = 0 := by omega
    subst h0
    rw [hone] at ht'
    simp [← Option.some.inj ht'] at htold

end Hero.Omp
