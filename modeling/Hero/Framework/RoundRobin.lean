import Mathlib.Data.Finset.Card
import Mathlib.Data.Finset.Range

/-!
# Round robin

A hand moves over the places that take part, and starts anew behind the last one.  A place gets its
next turn only after all others have had one.
-/

namespace Hero.RoundRobin

variable {p : Nat → Prop} {n q k : Nat} {order : List Nat}

/-- The hand has passed `r` since the last turn of `k`. -/
def Passed (q k r : Nat) : Prop := if k < q then k < r ∧ r < q else k < r ∨ r < q

/-- The turns so far, the last one first, are those of a hand that is now at `q`. -/
def Turns (p : Nat → Prop) (q : Nat) (order : List Nat) : Prop :=
  ∀ k, p k → ∀ pre post, order = pre ++ k :: post → k ∉ pre → ∀ r, p r → Passed q k r → r ∈ pre

/-- All others had a turn since the last one of `k`. -/
def InTurn (p : Nat → Prop) (order : List Nat) (k : Nat) : Prop :=
  p k ∧ ∀ pre post, order = pre ++ k :: post → k ∉ pre → ∀ r, p r → r ≠ k → r ∈ pre

theorem Turns.nil (q : Nat) : Turns p q [] := by
  intro k _ pre post h
  cases pre <;> cases h

/-- The first place from the hand on is in turn. -/
theorem Turns.inTurn (h : Turns p q order) (hk : p k) (hq : q ≤ k)
    (hfirst : ∀ r, p r → r < k → r < q) : InTurn p order k := by
  refine ⟨hk, ?_⟩
  intro pre post horder hnot r hr hne
  apply h k hk pre post horder hnot r hr
  rw [Passed, if_neg (by omega)]
  rcases Nat.lt_or_gt_of_ne hne with hlt | hgt
  · exact Or.inr (hfirst r hr hlt)
  · exact Or.inl hgt

/-- The hand moves behind the place that had its turn. -/
theorem Turns.advance (h : Turns p q order) (hq : q ≤ k) (hfirst : ∀ r, p r → r < k → r < q) :
    Turns p (k + 1) (k :: order) := by
  intro a ha pre post horder hnot r hr hpassed
  rw [Passed] at hpassed
  cases pre with
  | nil =>
    obtain rfl : k = a := (List.cons.inj horder).1
    rw [if_pos (Nat.lt_succ_self k)] at hpassed
    omega
  | cons b pre =>
    obtain ⟨rfl, htail⟩ := List.cons.inj horder
    rw [List.mem_cons, not_or] at hnot
    by_cases hrk : r = k
    · rw [hrk]
      exact List.mem_cons_self
    apply List.mem_cons_of_mem
    apply h a ha pre post htail hnot.2 r hr
    rw [Passed]
    by_cases hak : a < k
    · have haq := hfirst a ha hak
      rw [if_pos (by omega)] at hpassed
      rw [if_pos haq]
      have hrk' : r < k := by omega
      exact ⟨hpassed.1, hfirst r hr hrk'⟩
    · rw [if_neg (by omega)] at hpassed
      rw [if_neg (by omega)]
      rcases hpassed with hgt | hlt
      · exact Or.inl hgt
      · have hrk' : r < k := by omega
        exact Or.inr (hfirst r hr hrk')

/-- The hand starts anew. -/
theorem Turns.wrap (h : Turns p n order) (hn : ∀ k, p k → k < n) : Turns p 0 order := by
  intro k hk pre post horder hnot r hr hpassed
  apply h k hk pre post horder hnot r hr
  rw [Passed, if_neg (Nat.not_lt_zero k)] at hpassed
  rw [Passed, if_pos (hn k hk)]
  rcases hpassed with hgt | hlt
  · exact ⟨hgt, hn r hr⟩
  · omega

/-- The places from the hand on. -/
def remaining (p : Nat → Prop) [DecidablePred p] (n q : Nat) : Finset Nat :=
  (Finset.range n).filter fun k => p k ∧ q ≤ k

theorem mem_remaining [DecidablePred p] : k ∈ remaining p n q ↔ k < n ∧ p k ∧ q ≤ k := by
  rw [remaining, Finset.mem_filter, Finset.mem_range]

theorem card_remaining_advance [DecidablePred p] (hk : k ∈ remaining p n q) :
    (remaining p n (k + 1)).card < (remaining p n q).card := by
  apply Finset.card_lt_card
  rw [Finset.ssubset_iff_of_subset]
  · refine ⟨k, hk, fun hno => ?_⟩
    have hle := (mem_remaining.mp hno).2.2
    omega
  · intro r hr
    have hq := (mem_remaining.mp hk).2.2
    obtain ⟨hlt, hp, hle⟩ := mem_remaining.mp hr
    exact mem_remaining.mpr ⟨hlt, hp, by omega⟩

end Hero.RoundRobin
