import Mathlib.Data.Set.Lattice
import Mathlib.Order.BourbakiWitt
import Mathlib.Order.CompletePartialOrder
import Mathlib.Tactic.Linarith
import Mathlib.Tactic.Ring

/-!
# Counted loops as arithmetic progressions

A loop with start `l`, bound `u` and step `d` visits an initial run of the progression `l + j * d`.
Ranges of iterations are compared through their positions `j` in that progression.
-/

namespace Hero.Progression

/-- `x` does not lie beyond the bound `u` of a loop that steps by `d`. -/
def Within (d x u : Int) : Prop := if 0 < d then x ≤ u else u ≤ x

instance (d x u : Int) : Decidable (Within d x u) := by unfold Within; infer_instance

/-- The values a loop from `l` to `u` by `d` visits. -/
def visited (l u d : Int) : Set Int := {x | ∃ j : Nat, x = l + j * d ∧ Within d x u}

/-- The first `n` terms of the progression from `l` by `d`. -/
def terms (l d : Int) (n : Nat) : Set Int := {x | ∃ j : Nat, j < n ∧ x = l + j * d}

/-- The number of iterations of a loop from `l` to `u` by `d`. -/
def tripCount (l u d : Int) : Nat :=
  if Within d l u then (u - l).natAbs / d.natAbs + 1 else 0

/-- The nearer of two bounds of a loop that steps by `d`. -/
def clip (d x u : Int) : Int := if 0 < d then min x u else max x u

theorem within_clip (d x a b : Int) : Within d x (clip d a b) ↔ Within d x a ∧ Within d x b := by
  unfold Within clip
  split <;> omega

theorem within_iff_mul (d x u : Int) (hd : d ≠ 0) : Within d x u ↔ 0 ≤ (u - x) * d := by
  unfold Within
  split
  · next h => constructor <;> intro h' <;> nlinarith
  · next h =>
    have hneg : d < 0 := by omega
    constructor <;> intro h' <;> nlinarith

theorem within_step_iff {l u d : Int} (hd : d ≠ 0) (hlu : Within d l u) (j : Nat) :
    Within d (l + j * d) u ↔ j < tripCount l u d := by
  have hpos : 0 < d.natAbs := Int.natAbs_pos.mpr hd
  rw [tripCount, if_pos hlu, Nat.lt_succ_iff, Nat.le_div_iff_mul_le hpos]
  unfold Within at *
  split at hlu
  · next h =>
    rw [if_pos h]
    zify
    rw [abs_of_pos h, abs_of_nonneg (by omega : 0 ≤ u - l)]
    constructor <;> intro h' <;> linarith
  · next h =>
    rw [if_neg h]
    have hneg : d < 0 := by omega
    zify
    rw [abs_of_neg hneg, abs_of_nonpos (by omega : u - l ≤ 0)]
    constructor <;> intro h' <;> linarith

theorem visited_eq_terms {l u d : Int} (hd : d ≠ 0) :
    visited l u d = terms l d (tripCount l u d) := by
  ext x
  by_cases hlu : Within d l u
  · constructor
    · rintro ⟨j, rfl, hj⟩
      exact ⟨j, (within_step_iff hd hlu j).mp hj, rfl⟩
    · rintro ⟨j, hj, rfl⟩
      exact ⟨j, rfl, (within_step_iff hd hlu j).mpr hj⟩
  · constructor
    · rintro ⟨j, rfl, hj⟩
      refine absurd ?_ hlu
      rw [within_iff_mul d _ u hd] at hj ⊢
      have h0 : 0 ≤ (j : Int) * (d * d) := mul_nonneg (by positivity) (mul_self_nonneg d)
      linarith
    · rintro ⟨j, hj, rfl⟩
      simp [tripCount, hlu] at hj

/-- A loop bound that closes `n + 1` steps exactly makes `n + 1` iterations. -/
theorem visited_exact {l d : Int} (hd : d ≠ 0) (n : Nat) :
    visited l (l + n * d - d) d = terms l d n := by
  cases n with
  | zero =>
    have hout : ¬ Within d l (l - d) := by
      unfold Within
      split <;> omega
    rw [visited_eq_terms hd]
    simp [tripCount, hout]
  | succ n =>
    ext x
    constructor
    · rintro ⟨j, rfl, hj⟩
      refine ⟨j, ?_, rfl⟩
      rw [within_iff_mul d _ _ hd] at hj
      by_contra hge
      have hcast : (n : Int) + 1 ≤ j := by exact_mod_cast not_lt.mp hge
      have hdd : 0 < d * d := mul_self_pos.mpr hd
      push_cast at hj
      nlinarith
    · rintro ⟨j, hj, rfl⟩
      refine ⟨j, rfl, ?_⟩
      rw [within_iff_mul d _ _ hd]
      have hcast : (j : Int) ≤ n := by exact_mod_cast Nat.lt_succ_iff.mp hj
      have hdd : 0 ≤ d * d := mul_self_nonneg d
      push_cast
      nlinarith

/-- Clipping the bound of a run of `c` terms keeps the terms within the clip. -/
theorem mem_visited_clip {l d u x : Int} (hd : d ≠ 0) (c : Nat) :
    x ∈ visited l (clip d (l + c * d - d) u) d ↔ x ∈ terms l d c ∧ Within d x u := by
  rw [← visited_exact hd c]
  simp only [visited, Set.mem_ofPred_eq, within_clip]
  constructor
  · intro hx
    obtain ⟨j, hj, hstop, hu⟩ := hx
    exact ⟨⟨j, hj, hstop⟩, hu⟩
  · intro hx
    obtain ⟨⟨j, hj, hstop⟩, hu⟩ := hx
    exact ⟨j, hj, hstop, hu⟩

theorem within_of_later {l d u : Int} (hd : d ≠ 0) {i j : Nat} (hij : i ≤ j)
    (h : Within d (l + j * d) u) : Within d (l + i * d) u := by
  rw [within_iff_mul d _ u hd] at h ⊢
  have hcast : (i : Int) ≤ j := by exact_mod_cast hij
  have hdd : 0 ≤ d * d := mul_self_nonneg d
  nlinarith

theorem step_injective {l d : Int} (hd : d ≠ 0) {i j : Nat} (h : l + i * d = l + j * d) :
    i = j := by
  have h' : (i : Int) * d = j * d := by linarith
  exact_mod_cast mul_right_cancel₀ hd h'

/-- A run of terms that starts at position `a`, seen in the whole progression. -/
theorem mem_terms_shift {l d x : Int} (a n : Nat) :
    x ∈ terms (l + a * d) d n ↔ ∃ j : Nat, a ≤ j ∧ j < a + n ∧ x = l + j * d := by
  constructor
  · rintro ⟨j, hj, rfl⟩
    refine ⟨a + j, by omega, by omega, ?_⟩
    push_cast
    ring
  · rintro ⟨j, hj, hj', rfl⟩
    refine ⟨j - a, by omega, ?_⟩
    push_cast [hj]
    ring

/-- The values a loop from `l` by `d` visits when its end `u` is exclusive. -/
def before (l u d : Int) : Set Int := visited l (u - d.sign) d

theorem within_before_iff {l d : Int} (hd : d ≠ 0) (j n : Nat) :
    Within d (l + j * d) (l + n * d - d.sign) ↔ j < n := by
  have hcast : (j : Int) < n ↔ j < n := Int.ofNat_lt
  unfold Within
  split
  · next h =>
    rw [Int.sign_eq_one_of_pos h, Int.le_sub_one_iff, add_lt_add_iff_left, mul_lt_mul_iff_left₀ h,
      hcast]
  · next h =>
    have hneg : d < 0 := by omega
    rw [Int.sign_eq_neg_one_of_neg hneg, sub_neg_eq_add, Int.add_one_le_iff, add_lt_add_iff_left,
      mul_lt_mul_right_of_neg hneg, hcast]

theorem before_exact {l d : Int} (hd : d ≠ 0) (n : Nat) : before l (l + n * d) d = terms l d n := by
  ext x
  constructor
  · intro h
    obtain ⟨j, rfl, hj⟩ := h
    exact ⟨j, (within_before_iff hd j n).mp hj, rfl⟩
  · intro h
    obtain ⟨j, hj, rfl⟩ := h
    exact ⟨j, rfl, (within_before_iff hd j n).mpr hj⟩

/-- A loop entered after `a` of its iterations makes the others. -/
theorem visited_shift {l u d : Int} (hd : d ≠ 0) (a : Nat) :
    visited (l + a * d) u d = terms (l + a * d) d (tripCount l u d - a) := by
  have hterms := visited_eq_terms (l := l) (u := u) hd
  ext x
  constructor
  · intro h
    obtain ⟨j, rfl, hj⟩ := h
    have hx : l + (a + j : Nat) * d ∈ visited l u d :=
      ⟨a + j, rfl, by rwa [show l + (a + j : Nat) * d = l + a * d + j * d by push_cast; ring]⟩
    rw [hterms] at hx
    obtain ⟨i, hi, heq⟩ := hx
    have hij := step_injective hd heq
    exact ⟨j, by omega, rfl⟩
  · intro h
    obtain ⟨j, hj, rfl⟩ := h
    have hx : l + (a + j : Nat) * d ∈ terms l d (tripCount l u d) := ⟨a + j, by omega, rfl⟩
    rw [← hterms] at hx
    obtain ⟨i, heq, hi⟩ := hx
    refine ⟨j, rfl, ?_⟩
    rwa [show l + (a + j : Nat) * d = l + a * d + j * d by push_cast; ring] at hi

/-- A run of terms followed by the next ones. -/
theorem terms_union {l d : Int} {a b : Nat} (hab : a ≤ b) :
    terms l d a ∪ terms (l + a * d) d (b - a) = terms l d b := by
  ext x
  rw [Set.mem_union, mem_terms_shift]
  constructor
  · intro h
    rcases h with ⟨j, hj, rfl⟩ | ⟨j, -, hj, rfl⟩
    · exact ⟨j, by omega, rfl⟩
    · exact ⟨j, by omega, rfl⟩
  · intro h
    obtain ⟨j, hj, rfl⟩ := h
    by_cases hja : j < a
    · exact Or.inl ⟨j, hja, rfl⟩
    · exact Or.inr ⟨j, by omega, by omega, rfl⟩

@[simp] theorem terms_zero (l d : Int) : terms l d 0 = ∅ := by
  ext x
  simp [terms]

/-- Position sets that split `0..n-1` among `parts` split the progression the same way. -/
structure Splits {ι : Type*} (parts : Set ι) (pos : ι → Set Nat) (n : Nat) : Prop where
  disjoint : ∀ s ∈ parts, ∀ t ∈ parts, s ≠ t → ∀ j, j ∈ pos s → j ∉ pos t
  cover : ∀ j, j < n → ∃ s ∈ parts, j ∈ pos s
  bounded : ∀ s ∈ parts, ∀ j ∈ pos s, j < n

/-- The values at a set of positions. -/
def valuesAt (l d : Int) (pos : Set Nat) : Set Int := {x | ∃ j ∈ pos, x = l + j * d}

theorem Splits.values_disjoint {ι : Type*} {parts : Set ι} {pos : ι → Set Nat} {n : Nat}
    (h : Splits parts pos n) {l d : Int} (hd : d ≠ 0) {s t : ι} (hs : s ∈ parts) (ht : t ∈ parts)
    (hst : s ≠ t) : Disjoint (valuesAt l d (pos s)) (valuesAt l d (pos t)) := by
  rw [Set.disjoint_left]
  rintro x ⟨i, hi, rfl⟩ ⟨j, hj, hij⟩
  rw [step_injective hd hij] at hi
  exact h.disjoint s hs t ht hst j hi hj

theorem Splits.values_cover {ι : Type*} {parts : Set ι} {pos : ι → Set Nat} {n : Nat}
    (h : Splits parts pos n) (l d : Int) :
    ⋃ s ∈ parts, valuesAt l d (pos s) = terms l d n := by
  ext x
  simp only [Set.mem_iUnion, exists_prop]
  constructor
  · rintro ⟨s, hs, j, hj, rfl⟩
    exact ⟨j, h.bounded s hs j hj, rfl⟩
  · rintro ⟨j, hj, rfl⟩
    obtain ⟨s, hs, hjs⟩ := h.cover j hj
    exact ⟨s, hs, j, hjs, rfl⟩

/-- Consecutive blocks between the cut points of a monotone `off` split `0..off m - 1`. -/
theorem splits_blocks (off : Nat → Nat) (hmono : Monotone off) (h0 : off 0 = 0) (m : Nat) :
    Splits {t | t < m} (fun t => {j | off t ≤ j ∧ j < off (t + 1)}) (off m) where
  disjoint := by
    rintro s - t - hst j ⟨hj0, hj1⟩ ⟨hj2, hj3⟩
    rcases lt_or_gt_of_ne hst with h | h
    · have := hmono (Nat.succ_le_of_lt h)
      simp only [Nat.succ_eq_add_one] at this
      omega
    · have := hmono (Nat.succ_le_of_lt h)
      simp only [Nat.succ_eq_add_one] at this
      omega
  cover := by
    intro j hj
    induction m with
    | zero => omega
    | succ m ih =>
      by_cases hjm : j < off m
      · obtain ⟨s, hs, hjs⟩ := ih hjm
        exact ⟨s, Nat.lt_succ_of_lt hs, hjs⟩
      · exact ⟨m, Nat.lt_succ_self m, not_lt.mp hjm, hj⟩
  bounded := by
    rintro t ht j ⟨-, hj⟩
    exact hj.trans_le (hmono (Nat.succ_le_of_lt ht))

/-- Blocks of `c` positions dealt round robin to `m` parts split `0..n-1`. -/
theorem splits_cyclic (c m n : Nat) (hm : 0 < m) :
    Splits {t | t < m} (fun t => {j | j < n ∧ j / c % m = t}) n where
  disjoint := by
    rintro s - t - hst j ⟨-, hs⟩ ⟨-, ht⟩
    exact hst (hs.symm.trans ht)
  cover := by
    intro j hj
    exact ⟨j / c % m, Nat.mod_lt _ hm, hj, rfl⟩
  bounded := by
    rintro t - j ⟨hj, -⟩
    exact hj

end Hero.Progression
