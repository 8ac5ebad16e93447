import Mathlib.Algebra.Order.Group.Unbundled.Int
import Mathlib.Tactic.Linarith

/-!
# Wrapping into a window

Integer types hold the `m` consecutive values from some `lo` on, and a conversion takes the value of
the window in the same residue class.
-/

namespace Hero.Wrap

variable {lo m x y : Int}

/-- `x` is one of the `m` values from `lo` on. -/
def In (lo m x : Int) : Prop := lo ≤ x ∧ x < lo + m

instance (lo m x : Int) : Decidable (In lo m x) := inferInstanceAs (Decidable (_ ∧ _))

/-- The value of the window that `x` is converted to. -/
def wrap (lo m x : Int) : Int := lo + (x - lo) % m

theorem wrap_in (hm : 0 < m) (lo x : Int) : In lo m (wrap lo m x) := by
  have h0 := Int.emod_nonneg (x - lo) hm.ne'
  have h1 := Int.emod_lt_of_pos (x - lo) hm
  unfold In wrap
  omega

theorem dvd_wrap_sub (lo m x : Int) : m ∣ wrap lo m x - x := by
  have h := Int.mul_ediv_add_emod (x - lo) m
  refine ⟨-((x - lo) / m), ?_⟩
  unfold wrap
  linarith

/-- Two values of the window in one residue class are equal. -/
theorem In.eq_of_dvd (hx : In lo m x) (hy : In lo m y) (h : m ∣ x - y) : x = y := by
  have habs : |x - y| < m := by
    unfold In at hx hy
    rw [abs_lt]
    omega
  have hzero := Int.eq_zero_of_abs_lt_dvd h habs
  omega

theorem wrap_eq_iff (hm : 0 < m) (hy : In lo m y) : wrap lo m x = y ↔ m ∣ x - y := by
  have hw := dvd_wrap_sub lo m x
  constructor
  · intro h
    rw [h] at hw
    rwa [← Int.dvd_neg, neg_sub]
  · intro h
    refine (wrap_in hm lo x).eq_of_dvd hy ?_
    have hsum := Int.dvd_add hw h
    rwa [sub_add_sub_cancel] at hsum

theorem wrap_of_in (hm : 0 < m) (hx : In lo m x) : wrap lo m x = x := by
  rw [wrap_eq_iff hm hx, sub_self]
  exact dvd_zero m

/-- Numbers in one residue class are converted alike. -/
theorem wrap_congr (hm : 0 < m) (h : m ∣ x - y) : wrap lo m x = wrap lo m y := by
  rw [wrap_eq_iff hm (wrap_in hm lo y)]
  have hw := dvd_wrap_sub lo m y
  have hdiff := Int.dvd_sub h hw
  rwa [sub_sub_sub_cancel_right] at hdiff

end Hero.Wrap
