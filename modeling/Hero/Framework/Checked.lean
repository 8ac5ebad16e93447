import Mathlib.Tactic.Linarith
import Mathlib.Tactic.Ring

/-!
# Checked signed machine arithmetic

Signed overflow has no defined result in C.  Every operation here returns `none` when its exact
result leaves the word, and the exact result otherwise.
-/

namespace Hero.Checked

/-- `x` is a value of the signed `w`-bit word. -/
def Fits (w : Nat) (x : Int) : Prop := -2 ^ (w - 1) ≤ x ∧ x < 2 ^ (w - 1)

instance (w : Nat) (x : Int) : Decidable (Fits w x) := inferInstanceAs (Decidable (_ ∧ _))

def narrow (w : Nat) (x : Int) : Option Int := if Fits w x then some x else none

def add (w : Nat) (x y : Int) : Option Int := narrow w (x + y)
def sub (w : Nat) (x y : Int) : Option Int := narrow w (x - y)
def mul (w : Nat) (x y : Int) : Option Int := narrow w (x * y)

/-- Division rounds toward zero and is undefined for a zero divisor. -/
def div (w : Nat) (x y : Int) : Option Int := if y = 0 then none else narrow w (x.tdiv y)

/-- The remainder is undefined wherever the quotient is. -/
def mod (w : Nat) (x y : Int) : Option Int := (div w x y).map fun _ => x.tmod y

@[simp] theorem narrow_eq_some {w : Nat} {x y : Int} :
    narrow w x = some y ↔ Fits w x ∧ x = y := by
  simp [narrow]

@[simp] theorem add_eq_some {w : Nat} {x y z : Int} :
    add w x y = some z ↔ Fits w (x + y) ∧ x + y = z := by
  simp [add]

@[simp] theorem sub_eq_some {w : Nat} {x y z : Int} :
    sub w x y = some z ↔ Fits w (x - y) ∧ x - y = z := by
  simp [sub]

@[simp] theorem mul_eq_some {w : Nat} {x y z : Int} :
    mul w x y = some z ↔ Fits w (x * y) ∧ x * y = z := by
  simp [mul]

@[simp] theorem div_eq_some {w : Nat} {x y z : Int} :
    div w x y = some z ↔ y ≠ 0 ∧ Fits w (x.tdiv y) ∧ x.tdiv y = z := by
  by_cases hy : y = 0 <;> simp [div, hy]

@[simp] theorem mod_eq_some {w : Nat} {x y z : Int} :
    mod w x y = some z ↔ y ≠ 0 ∧ Fits w (x.tdiv y) ∧ x.tmod y = z := by
  simp only [mod, Option.map_eq_some_iff, div_eq_some]
  constructor
  · rintro ⟨q, ⟨hy, hq, rfl⟩, hz⟩
    exact ⟨hy, hq, hz⟩
  · rintro ⟨hy, hq, hz⟩
    exact ⟨x.tdiv y, ⟨hy, hq, rfl⟩, hz⟩

/-- A value between two values of the word is a value of the word. -/
theorem Fits.between {w : Nat} {x y z : Int} (hx : Fits w x) (hz : Fits w z)
    (h : x ≤ y ∧ y ≤ z ∨ z ≤ y ∧ y ≤ x) : Fits w y := by
  obtain ⟨hx0, hx1⟩ := hx
  obtain ⟨hz0, hz1⟩ := hz
  rcases h with ⟨h0, h1⟩ | ⟨h0, h1⟩
  · exact ⟨hx0.trans h0, h1.trans_lt hz1⟩
  · exact ⟨hz0.trans h0, h1.trans_lt hx1⟩

theorem fits_zero (w : Nat) : Fits w 0 := by
  constructor
  · have h : (0 : Int) < 2 ^ (w - 1) := by positivity
    linarith
  · positivity

/-- Every smaller multiple of a step stays in the word when the largest one does. -/
theorem Fits.step {w : Nat} {l d : Int} {a n : Nat} (hl : Fits w l) (hn : Fits w (l + n * d))
    (ha : a ≤ n) : Fits w (l + a * d) := by
  have han : (a : Int) ≤ n := by exact_mod_cast ha
  have h0 : (0 : Int) ≤ a := by positivity
  apply hl.between hn
  rcases le_total 0 d with hd | hd
  · left
    constructor <;> nlinarith
  · right
    constructor <;> nlinarith

theorem Fits.mul_step {w : Nat} {d : Int} {a n : Nat} (hn : Fits w (n * d)) (ha : a ≤ n) :
    Fits w (a * d) := by
  have h := Fits.step (l := 0) (fits_zero w) (by simpa using hn) ha
  simpa using h

/-- Division overflows only for the divisor `-1`. -/
theorem Fits.tdiv {w : Nat} {x y : Int} (hx : Fits w x) (hy : y ≠ -1) : Fits w (x.tdiv y) := by
  by_cases hy1 : y = 1
  · simpa [hy1] using hx
  · have habs : (x.tdiv y).natAbs = x.natAbs / y.natAbs := Int.natAbs_tdiv x y
    have hle : (x.tdiv y).natAbs ≤ x.natAbs / 2 := by
      rw [habs]
      rcases Nat.eq_zero_or_pos y.natAbs with h0 | h0
      · rw [h0, Nat.div_zero]
        exact Nat.zero_le _
      · exact Nat.div_le_div_left (by omega) (by decide)
    have hpos : (0 : Int) < 2 ^ (w - 1) := by positivity
    obtain ⟨hlow, hhigh⟩ := hx
    unfold Fits
    generalize (2 : Int) ^ (w - 1) = m at *
    generalize x.tdiv y = q at *
    omega

end Hero.Checked
