import Mathlib.Logic.Equiv.Basic
import Mathlib.Data.Nat.Find
import Mathlib.Tactic.Common

/-!
# Bubble passes with fixed comparisons

Passes over a sequence that exchange neighbours at fixed positions, whatever has been exchanged before.
They reverse each run of such positions, rotated by its distance from the end.
-/

namespace Hero.FixedSwaps

variable {α : Type*} (D : Nat → Prop) [DecidablePred D]

/-- Exchange positions `j` and `j + 1`. -/
def exchange (s : Nat → α) (j : Nat) : Nat → α := fun p => s (Equiv.swap j (j + 1) p)

/-- A pass over positions `0, ..., n`. -/
def pass (s : Nat → α) (n : Nat) : Nat → α :=
  (List.range n).foldl (fun s j => if D j then exchange s j else s) s

/-- Passes over ever fewer positions. -/
def passes : Nat → (Nat → α) → Nat → α
  | 0, s => s
  | n + 1, s => passes n (pass D s (n + 1))

/-- The first position of the run of `p`. -/
def runStart : Nat → Nat
  | 0 => 0
  | p + 1 => if D p then runStart p else p + 1

/-- The last position of the run of `p` among `m` positions. -/
def runEnd (m p : Nat) : Nat := Nat.findGreatest (fun q => runStart D q = runStart D p) (m - 1)

def runLength (m p : Nat) : Nat := runEnd D m p + 1 - runStart D p

/-- Where the passes take the element at position `p` from. -/
def slot (m p : Nat) : Nat := runStart D p + (m - 1 - p) % runLength D m p

variable {D}

theorem runStart_le (p : Nat) : runStart D p ≤ p := by
  induction p with
  | zero => exact le_rfl
  | succ p ih =>
    rw [runStart]
    split_ifs
    · exact Nat.le_succ_of_le ih
    · exact le_rfl

theorem runStart_mono {p q : Nat} (hpq : p ≤ q) : runStart D p ≤ runStart D q := by
  induction q with
  | zero =>
    rw [Nat.le_zero.mp hpq]
  | succ q ih =>
    rcases Nat.le_succ_iff.mp hpq with hle | rfl
    · rw [runStart]
      split_ifs
      · exact ih hle
      · exact Nat.le_trans (runStart_le p) hpq
    · exact le_rfl

theorem runStart_succ {p : Nat} (h : D p) : runStart D (p + 1) = runStart D p := if_pos h

theorem runStart_succ_of_not {p : Nat} (h : ¬ D p) : runStart D (p + 1) = p + 1 := if_neg h

theorem le_runEnd {m p : Nat} (hp : p < m) : p ≤ runEnd D m p :=
  Nat.le_findGreatest (by omega) rfl

theorem runEnd_le {m p : Nat} : runEnd D m p ≤ m - 1 := Nat.findGreatest_le (m - 1)

theorem runEnd_succ {m p : Nat} (h : D p) : runEnd D m (p + 1) = runEnd D m p := by
  rw [runEnd, runEnd, runStart_succ h]

theorem runEnd_of_not {m p : Nat} (hp : p < m) (h : ¬ D p) : runEnd D m p = p := by
  have hspec : runStart D (runEnd D m p) = runStart D p :=
    Nat.findGreatest_spec (P := fun q => runStart D q = runStart D p) (show p ≤ m - 1 by omega) rfl
  have hge := le_runEnd (D := D) hp
  by_contra hne
  have hmono := runStart_mono (D := D) (show p + 1 ≤ runEnd D m p by omega)
  have hle := runStart_le (D := D) p
  rw [runStart_succ_of_not h] at hmono
  omega

theorem runLength_pos {m p : Nat} (hp : p < m) : 0 < runLength D m p := by
  have hle := runStart_le (D := D) p
  have hge := le_runEnd (D := D) hp
  rw [runLength]
  omega

theorem runLength_succ {m p : Nat} (h : D p) : runLength D m (p + 1) = runLength D m p := by
  rw [runLength, runLength, runEnd_succ h, runStart_succ h]

theorem runLength_of_not {m p : Nat} (hp : p < m) (h : ¬ D p) :
    runLength D m p = p - runStart D p + 1 := by
  have hle := runStart_le (D := D) p
  rw [runLength, runEnd_of_not hp h]
  omega

theorem slot_lt {m p : Nat} (hp : p < m) : slot D m p < m := by
  have hmod := Nat.mod_lt (m - 1 - p) (runLength_pos (D := D) hp)
  have hend := runEnd_le (D := D) (m := m) (p := p)
  rw [slot]
  generalize (m - 1 - p) % runLength D m p = r at hmod
  rw [runLength] at hmod
  omega

variable (D) in
/-- The sequence before the pass over `0, ..., n`: runs are rotated up to `n` and final behind. -/
def rotated (m n p : Nat) : Nat :=
  if p ≤ n then runStart D p + (p - runStart D p + (m - 1 - n)) % runLength D m p else slot D m p

variable (D) in
/-- What a pass over `0, ..., n` carries along at position `k`: the first element of the run. -/
def carried (m n k : Nat) : Nat := runStart D k + (m - 1 - n) % runLength D m k

theorem rotated_last (m : Nat) {p : Nat} (hp : p < m) :
    rotated D m (m - 1) p = p := by
  have hle := runStart_le (D := D) p
  have hend := le_runEnd (D := D) hp
  rw [rotated, if_pos (by omega), Nat.sub_self, Nat.add_zero, Nat.mod_eq_of_lt]
  · omega
  · rw [runLength]
    omega

theorem rotated_zero (m p : Nat) : rotated D m 0 p = slot D m p := by
  rw [rotated]
  split_ifs with h
  · obtain rfl := Nat.le_zero.mp h
    simp only [slot, runStart, Nat.sub_zero, Nat.zero_add]
  · rfl

theorem rotated_start (m n : Nat) {k : Nat} (hk : k ≤ n) (hstart : runStart D k = k) :
    rotated D m n k = carried D m n k := by
  rw [rotated, if_pos hk, carried, hstart, Nat.sub_self, Nat.zero_add]

/-- A position whose element moves on receives the next of its run. -/
theorem rotated_next {m n k : Nat} (hn : n < m) (hk : k < n) (h : D k) :
    rotated D m n (k + 1) = rotated D m (n - 1) k := by
  have hle := runStart_le (D := D) k
  rw [rotated, rotated, if_pos (by omega), if_pos (by omega), runStart_succ h, runLength_succ h]
  congr 2
  omega

/-- The last position of a run receives what has been carried along. -/
theorem carried_end {m n k : Nat} (hn : n < m) (hk : k < n) (h : ¬ D k) :
    carried D m n k = rotated D m (n - 1) k := by
  have hlen := runLength_of_not (m := m) (show k < m by omega) h
  rw [carried, rotated, if_pos (by omega), show k - runStart D k + (m - 1 - (n - 1)) =
    (m - 1 - n) + runLength D m k by omega, Nat.add_mod_right]

/-- One pass. -/
theorem pass_rotated {m n : Nat} (hn : n < m) (s : Nat → α) {t : Nat → α}
    (ht : ∀ p, p < m → t p = s (rotated D m n p)) {p : Nat} (hp : p < m) :
    pass D t n p = s (rotated D m (n - 1) p) := by
  have hloop : ∀ k, k ≤ n →
      let u := (List.range k).foldl (fun s j => if D j then exchange s j else s) t
      (∀ p, p < k → u p = s (rotated D m (n - 1) p)) ∧ u k = s (carried D m n k) ∧
        ∀ p, k < p → p < m → u p = s (rotated D m n p) := by
    intro k
    induction k with
    | zero =>
      intro _
      refine ⟨fun p hp => absurd hp (Nat.not_lt_zero p), ?_, fun p _ hp => ht p hp⟩
      change t 0 = _
      rw [ht 0 (by omega), rotated_start m n (Nat.zero_le n) rfl]
    | succ k ih =>
      intro hk
      obtain ⟨hbelow, hcarry, habove⟩ := ih (by omega)
      rw [List.range_succ, List.foldl_append]
      generalize (List.range k).foldl (fun s j => if D j then exchange s j else s) t = u at *
      simp only [List.foldl_cons, List.foldl_nil]
      by_cases h : D k
      · rw [if_pos h]
        have hlow : exchange u k k = u (k + 1) := by rw [exchange, Equiv.swap_apply_left]
        have hhigh : exchange u k (k + 1) = u k := by rw [exchange, Equiv.swap_apply_right]
        have hother : ∀ p, p ≠ k → p ≠ k + 1 → exchange u k p = u p := by
          intro p hp hp'
          rw [exchange, Equiv.swap_apply_of_ne_of_ne hp hp']
        refine ⟨?_, ?_, ?_⟩
        · intro p hp
          rcases Nat.lt_succ_iff_lt_or_eq.mp hp with hlt | rfl
          · rw [hother p (by omega) (by omega), hbelow p hlt]
          · rw [hlow, habove (p + 1) (by omega) (by omega), rotated_next hn (by omega) h]
        · rw [hhigh, hcarry, carried, carried, runStart_succ h, runLength_succ h]
        · intro p hp hpm
          rw [hother p (by omega) (by omega), habove p (by omega) hpm]
      · rw [if_neg h]
        refine ⟨?_, ?_, ?_⟩
        · intro p hp
          rcases Nat.lt_succ_iff_lt_or_eq.mp hp with hlt | rfl
          · exact hbelow p hlt
          · rw [hcarry, carried_end hn (by omega) h]
        · rw [habove (k + 1) (by omega) (by omega),
            rotated_start m n hk (runStart_succ_of_not h)]
        · intro p hp hpm
          exact habove p (by omega) hpm
  obtain ⟨hbelow, hcarry, habove⟩ := hloop n le_rfl
  rcases Nat.lt_trichotomy p n with hlt | rfl | hgt
  · exact hbelow p hlt
  · have hfinal : rotated D m (p - 1) p = carried D m p p := by
      rcases Nat.eq_zero_or_pos p with rfl | hpos
      · exact rotated_start m 0 le_rfl rfl
      · rw [rotated, if_neg (by omega)]
        rfl
    rw [hfinal]
    exact hcarry
  · rw [show pass D t n p = s (rotated D m n p) from habove p hgt hp, rotated, rotated,
      if_neg (by omega), if_neg (by omega)]

/-- All passes. -/
theorem passes_eq {m : Nat} (s : Nat → α) {p : Nat} (hp : p < m) :
    passes D (m - 1) s p = s (slot D m p) := by
  have hloop : ∀ n, n < m → ∀ t : Nat → α, (∀ p, p < m → t p = s (rotated D m n p)) →
      passes D n t p = s (slot D m p) := by
    intro n
    induction n with
    | zero =>
      intro _ t ht
      rw [passes, ht p hp, rotated_zero]
    | succ n ih =>
      intro hn t ht
      exact ih (by omega) _ (fun q hq => pass_rotated hn s ht hq)
  apply hloop (m - 1) (by omega) s
  intro q hq
  rw [rotated_last m hq]

end Hero.FixedSwaps
