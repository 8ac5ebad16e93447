import Mathlib.Data.List.TakeWhile
import Mathlib.Tactic.Linarith

/-!
# Clocks that wrap

Moments are numbers, of which a clock only shows the remainder.  A moment ahead of the clock is compared
to others by its remainder in the span of the present, and a moment is taken to be over if the clock is
less than a bound past it.
-/

namespace Hero.WrappingClock

section Order

variable {H now d t : Nat}

/-- In the span of the present, remainders tell which of two moments is earlier. -/
theorem mod_lt_iff_of_same (h : t / H = now / H) : t % H < now % H + d ↔ t < now + d := by
  have ht := Nat.div_add_mod t H
  have hnow := Nat.div_add_mod now H
  rw [h] at ht
  omega

/-- A moment of the span ahead seems to be earlier than it is. -/
theorem mod_lt_of_ahead (h : now / H < t / H) (ht : t < now + H) (hd : 0 < d) : t % H < now % H + d := by
  have hdiv := Nat.div_add_mod t H
  have hnow := Nat.div_add_mod now H
  have hmul : H * (now / H + 1) ≤ H * (t / H) := Nat.mul_le_mul_left H h
  rw [Nat.mul_add, Nat.mul_one] at hmul
  omega

theorem lt_of_div_lt (h : t / H < now / H) : t < now := by
  by_contra hle
  exact absurd (Nat.div_le_div_right (c := H) (Nat.le_of_not_lt hle)) (Nat.not_le.mpr h)

end Order

section Distance

variable {M B now t : Nat}

/-- The distance that the clock shows to a moment that is over. -/
theorem distance_of_le (hM : 0 < M) (h : t ≤ now) : (M - t % M + now % M) % M = (now - t) % M := by
  have hlt := Nat.mod_lt t hM
  have hdiv := Nat.div_add_mod t M
  have hsum : M - t % M + now = now - t + M * (t / M + 1) := by
    rw [Nat.mul_add, Nat.mul_one]
    omega
  rw [Nat.add_mod_mod, hsum, Nat.add_mul_mod_self_left]

/-- A moment ahead, and not too far, is shown far behind. -/
theorem distance_of_lt (h : now < t) (hB : t + B ≤ now + M) : B ≤ (M - t % M + now % M) % M := by
  have hM : 0 < M := by omega
  have hlt := Nat.mod_lt t hM
  have hdiv := Nat.div_add_mod t M
  have hsum : M - t % M + now = now + M - t + M * (t / M) := by omega
  rw [Nat.add_mod_mod, hsum, Nat.add_mul_mod_self_left, Nat.mod_eq_of_lt (by omega)]
  omega

end Distance

section Sorted

variable {α : Type*} {key : α → Nat} {l : List α} {p : α → Bool}

/-- The end of a list that is sorted, and whose elements in front meet a condition that passes on to
smaller ones. -/
theorem takeWhile_eq_filter (h : l.Pairwise fun a b => p b = true → p a = true) :
    l.takeWhile p = l.filter p ∧ l.dropWhile p = l.filter fun a => !p a := by
  induction l with
  | nil => exact ⟨rfl, rfl⟩
  | cons a l ih =>
    obtain ⟨hhead, htail⟩ := List.pairwise_cons.mp h
    obtain ⟨htake, hdrop⟩ := ih htail
    cases hp : p a with
    | true => simp [hp, htake, hdrop]
    | false =>
      have hnone : ∀ b ∈ l, p b = false := by
        intro b hb
        rw [Bool.eq_false_iff]
        intro hpb
        rw [hhead b hb hpb] at hp
        cases hp
      have hfilter : l.filter p = [] := by
        rw [List.filter_eq_nil_iff]
        intro b hb
        rw [hnone b hb]
        exact Bool.false_ne_true
      have hall : l.filter (fun b => !p b) = l := by
        rw [List.filter_eq_self]
        intro b hb
        rw [hnone b hb]
        rfl
      simp [hp, hfilter, hall]

/-- The element that ends the front of a list does not meet its condition. -/
theorem not_of_dropWhile_eq_cons {a : α} {rest : List α} (h : l.dropWhile p = a :: rest) : ¬ p a = true := by
  have hhead := List.head?_dropWhile_not p l
  rw [h] at hhead
  simpa using hhead

/-- Where a sorted list is split by the remainders of its moments, none of which is far ahead: the new
moment fits in there exactly if the moments of earlier spans seem to be earlier, and those of the span
ahead are not behind it, unless one in the present span is. -/
theorem split_iff {H now d : Nat} (hsorted : l.Pairwise fun a b => key a ≤ key b)
    (hnear : ∀ a ∈ l, key a < now + H) (hd : 0 < d) 
    (hp : ∀ a ∈ l, p a = decide (key a % H < now % H + d)) :
    ((∀ a ∈ l.takeWhile p, key a ≤ now + d) ∧ ∀ a ∈ l.dropWhile p, now + d ≤ key a) ↔
      (∀ a ∈ l, key a / H < now / H → key a % H < now % H + d) ∧
        ((∃ a ∈ l, key a / H = now / H ∧ now + d ≤ key a) ∨
          ∀ a ∈ l, now / H < key a / H → key a ≤ now + d) := by
  have hpass : ∀ a ∈ l, p a = true ↔ key a % H < now % H + d := by
    intro a ha
    rw [hp a ha, decide_eq_true_iff]
  have hsplit : l.takeWhile p ++ l.dropWhile p = l := List.takeWhile_append_dropWhile
  have hmem : ∀ a, a ∈ l ↔ a ∈ l.takeWhile p ∨ a ∈ l.dropWhile p := by
    intro a
    rw [← List.mem_append, hsplit]
  have htake : ∀ a ∈ l.takeWhile p, key a % H < now % H + d := fun a ha =>
    (hpass a ((hmem a).mpr (Or.inl ha))).mp (List.mem_takeWhile_imp ha)
  constructor
  · intro h
    obtain ⟨hfront, hback⟩ := h
    constructor
    · intro a ha hspan
      rcases (hmem a).mp ha with ha | ha
      · exact htake a ha
      · have hlater := hback a ha
        have hearlier := lt_of_div_lt hspan
        omega
    · cases hdrop : l.dropWhile p with
      | nil =>
        refine Or.inr fun a ha _ => hfront a ?_
        simpa [hdrop] using (hmem a).mp ha
      | cons a rest =>
        have ha : a ∈ l.dropWhile p := by simp [hdrop]
        have hal : a ∈ l := (hmem a).mpr (Or.inr ha)
        have hstop : ¬ key a % H < now % H + d := by
          rw [← hpass a hal]
          exact not_of_dropWhile_eq_cons hdrop
        refine Or.inl ⟨a, hal, ?_, hback a ha⟩
        have hlater := hback a ha
        rcases Nat.lt_trichotomy (key a / H) (now / H) with hspan | hspan | hspan
        · have hearlier := lt_of_div_lt hspan
          omega
        · exact hspan
        · exact absurd (mod_lt_of_ahead hspan (hnear a hal) hd) hstop
  · intro h
    obtain ⟨hbehind, hahead⟩ := h
    have hback : ∀ a ∈ l.dropWhile p, now + d ≤ key a := by
      cases hdrop : l.dropWhile p with
      | nil => simp
      | cons a rest =>
        have ha : a ∈ l := (hmem a).mpr (Or.inr (by simp [hdrop]))
        have hstop : ¬ key a % H < now % H + d := by
          rw [← hpass a ha]
          exact not_of_dropWhile_eq_cons hdrop
        have hfirst : now + d ≤ key a := by
          rcases Nat.lt_trichotomy (key a / H) (now / H) with hspan | hspan | hspan
          · exact absurd (hbehind a ha hspan) hstop
          · rw [mod_lt_iff_of_same hspan] at hstop
            exact Nat.le_of_not_lt hstop
          · exact absurd (mod_lt_of_ahead hspan (hnear a ha) hd) hstop
        rw [← hsplit, hdrop] at hsorted
        obtain ⟨-, hrest, -⟩ := List.pairwise_append.mp hsorted
        intro b hb
        rcases List.mem_cons.mp hb with rfl | hb
        · exact hfirst
        · exact hfirst.trans ((List.pairwise_cons.mp hrest).1 b hb)
    refine ⟨?_, hback⟩
    intro a ha
    have hal : a ∈ l := (hmem a).mpr (Or.inl ha)
    rcases Nat.lt_trichotomy (key a / H) (now / H) with hspan | hspan | hspan
    · have hearlier := lt_of_div_lt hspan
      omega
    · exact Nat.le_of_lt ((mod_lt_iff_of_same hspan).mp (htake a ha))
    · rcases hahead with hstop | hahead
      · obtain ⟨b, hb, hspan', hlater⟩ := hstop
        have hbdrop : b ∈ l.dropWhile p := by
          refine ((hmem b).mp hb).resolve_left fun hbtake => ?_
          have hlt := (mod_lt_iff_of_same hspan').mp (htake b hbtake)
          omega
        rw [← hsplit] at hsorted
        have hle := (List.pairwise_append.mp hsorted).2.2 a ha b hbdrop
        have hdiv := Nat.div_le_div_right (c := H) hle
        omega
      · exact hahead a hal hspan

end Sorted

end Hero.WrappingClock
