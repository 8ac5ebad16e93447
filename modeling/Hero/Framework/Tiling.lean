import Mathlib.Data.Nat.Find
import Mathlib.Order.Lattice
import Mathlib.Tactic.Common

/-!
# Tilings of an interval

Consecutive half-open intervals laid end to end, and the part of a tiling that a window cuts out.
-/

namespace Hero

variable {α : Type*} [LinearOrder α]

/-- The intervals `[lo k, hi k)` for `k < n`, laid end to end from `a` to `b`. -/
structure Tiling (n : Nat) (a b : α) (lo hi : Nat → α) : Prop where
  pos : 0 < n
  first : lo 0 = a
  last : hi (n - 1) = b
  link : ∀ k, k + 1 < n → hi k = lo (k + 1)
  le : ∀ k, k < n → lo k ≤ hi k

namespace Tiling

variable {n : Nat} {a b x : α} {lo hi : Nat → α} {k l : Nat}

theorem hi_le_lo (h : Tiling n a b lo hi) (hkl : k < l) (hl : l < n) : hi k ≤ lo l := by
  induction l with
  | zero => omega
  | succ l ih =>
    have hlink := h.link l hl
    rcases Nat.lt_succ_iff_lt_or_eq.mp hkl with hlt | rfl
    · calc hi k ≤ lo l := ih hlt (by omega)
        _ ≤ hi l := h.le l (by omega)
        _ = lo (l + 1) := hlink
    · exact hlink.le

theorem lo_mono (h : Tiling n a b lo hi) (hkl : k ≤ l) (hl : l < n) : lo k ≤ lo l := by
  rcases Nat.lt_or_eq_of_le hkl with hlt | rfl
  · exact (h.le k (by omega)).trans (h.hi_le_lo hlt hl)
  · exact le_rfl

theorem hi_mono (h : Tiling n a b lo hi) (hkl : k ≤ l) (hl : l < n) : hi k ≤ hi l := by
  rcases Nat.lt_or_eq_of_le hkl with hlt | rfl
  · exact (h.hi_le_lo hlt hl).trans (h.le l hl)
  · exact le_rfl

theorem le_lo (h : Tiling n a b lo hi) (hk : k < n) : a ≤ lo k := by
  rw [← h.first]
  exact h.lo_mono (Nat.zero_le k) hk

theorem hi_le (h : Tiling n a b lo hi) (hk : k < n) : hi k ≤ b := by
  have hpos := h.pos
  rw [← h.last]
  exact h.hi_mono (by omega) (by omega)

/-- Every point of the interval lies in a tile. -/
theorem exists_mem (h : Tiling n a b lo hi) (hax : a ≤ x) (hxb : x < b) :
    ∃ k, k < n ∧ lo k ≤ x ∧ x < hi k := by
  have hpos := h.pos
  have hlast : x < hi (n - 1) := by
    rw [h.last]
    exact hxb
  have hex : ∃ k, x < hi k := ⟨n - 1, hlast⟩
  have hle : Nat.find hex ≤ n - 1 := Nat.find_min' hex hlast
  refine ⟨Nat.find hex, by omega, ?_, Nat.find_spec hex⟩
  cases hf : Nat.find hex with
  | zero =>
    rw [h.first]
    exact hax
  | succ k =>
    have hmin : ¬ x < hi k := Nat.find_min hex (by omega)
    rw [← h.link k (by omega)]
    exact not_lt.mp hmin

/-- Two tiles with a common point are the same tile. -/
theorem eq_of_mem (h : Tiling n a b lo hi) (hk : k < n) (hl : l < n) (hkx : lo k ≤ x ∧ x < hi k)
    (hlx : lo l ≤ x ∧ x < hi l) : k = l := by
  rcases Nat.lt_trichotomy k l with hlt | heq | hgt
  · exact absurd ((h.hi_le_lo hlt hl).trans hlx.1) (not_le.mpr hkx.2)
  · exact heq
  · exact absurd ((h.hi_le_lo hgt hk).trans hkx.1) (not_le.mpr hlx.2)

theorem mem_iff (h : Tiling n a b lo hi) :
    (∃ k, k < n ∧ lo k ≤ x ∧ x < hi k) ↔ a ≤ x ∧ x < b := by
  constructor
  · intro hx
    obtain ⟨k, hk, hlo, hhi⟩ := hx
    exact ⟨(h.le_lo hk).trans hlo, hhi.trans_le (h.hi_le hk)⟩
  · intro hx
    exact h.exists_mem hx.1 hx.2

/-- A window that starts in tile `s` and ends in tile `e` is tiled by the tiles between, the first
and the last one cut. -/
theorem window (h : Tiling n a b lo hi) {s e : Nat} {a' b' : α} (hse : s ≤ e) (hen : e < n)
    (hhi : a' ≤ hi s) (hlo : lo e ≤ b') (hab : a' ≤ b') :
    Tiling (e + 1 - s) a' b' (fun k => if k = 0 then a' else lo (s + k))
      (fun k => if k + 1 < e + 1 - s then hi (s + k) else b') where
  pos := by omega
  first := if_pos rfl
  last := if_neg (by omega)
  link := by
    intro k hk
    simp only [if_pos hk, if_neg (Nat.succ_ne_zero k)]
    exact h.link (s + k) (by omega)
  le := by
    intro k hk
    by_cases h0 : k = 0
    · subst h0
      by_cases hlast : 0 + 1 < e + 1 - s
      · simpa only [if_pos hlast, if_true, Nat.add_zero] using hhi
      · simpa only [if_neg hlast, if_true] using hab
    · by_cases hlast : k + 1 < e + 1 - s
      · simpa only [if_pos hlast, if_neg h0] using h.le (s + k) (by omega)
      · obtain rfl : e = s + k := by omega
        simpa only [if_neg hlast, if_neg h0] using hlo

/-- The points of the tiles, one tile after the other, are those of the interval. -/
theorem flatMap_range' {a b : Nat} {lo hi : Nat → Nat} (h : Tiling n a b lo hi) :
    ((List.range n).flatMap fun k => List.range' (lo k) (hi k - lo k)) = List.range' a (b - a) := by
  have hprefix : ∀ j, j < n →
      ((List.range (j + 1)).flatMap fun k => List.range' (lo k) (hi k - lo k)) =
        List.range' a (hi j - a) := by
    intro j
    induction j with
    | zero =>
      intro _
      simp [h.first]
    | succ j ih =>
      intro hj
      have hlink := h.link j hj
      have hle := h.le (j + 1) hj
      have ha := h.le_lo hj
      rw [List.range_succ, List.flatMap_append, ih (by omega), hlink, List.flatMap_singleton,
        show List.range' (lo (j + 1)) (hi (j + 1) - lo (j + 1)) =
          List.range' (a + 1 * (lo (j + 1) - a)) (hi (j + 1) - lo (j + 1)) by congr 1; omega,
        List.range'_append]
      congr 1
      omega
  have hpos := h.pos
  have hall := hprefix (n - 1) (by omega)
  rw [Nat.sub_add_cancel hpos, h.last] at hall
  exact hall

end Tiling

end Hero
