import Mathlib.Data.List.Nodup
import Mathlib.Tactic.Common

/-!
# Windows

Named windows of given sizes that are laid end to end from 0 on, and the window an offset falls into.
-/

namespace Hero.Windows

variable {α : Type*}

/-- The window of an offset, with the offset in the window. -/
def locate : List (α × Nat) → Nat → Option (α × Nat)
  | [], _ => none
  | (a, n) :: ws, off => if off < n then some (a, off) else locate ws (off - n)

/-- The window of an offset, found by comparing with the sums of the sizes. -/
def locateFrom (base : Nat) : List (α × Nat) → Nat → Option (α × Nat)
  | [], _ => none
  | (a, n) :: ws, off => if off < base + n then some (a, off - base) else locateFrom (base + n) ws off

/-- The offset at which a window starts. -/
def start [DecidableEq α] : List (α × Nat) → α → Nat
  | [], _ => 0
  | (b, n) :: ws, a => if a = b then 0 else n + start ws a

variable {ws : List (α × Nat)} {a : α} {n off o : Nat}

theorem locate_cons (b : α) (m : Nat) : locate ((b, m) :: ws) off =
    if off < m then some (b, off) else locate ws (off - m) := rfl

theorem locateFrom_eq {base : Nat} (h : base ≤ off) :
    locateFrom base ws off = locate ws (off - base) := by
  induction ws generalizing base with
  | nil => rfl
  | cons w ws ih =>
    rw [locateFrom, locate]
    by_cases hlt : off < base + w.2
    · rw [if_pos hlt, if_pos (by omega)]
    · rw [if_neg hlt, if_neg (by omega), ih (by omega), Nat.sub_sub]

theorem mem_of_locate (h : locate ws off = some (a, o)) : ∃ n, (a, n) ∈ ws ∧ o < n := by
  induction ws generalizing off with
  | nil => cases h
  | cons w ws ih =>
    obtain ⟨b, m⟩ := w
    rw [locate_cons] at h
    split at h
    · cases h
      exact ⟨m, by simp, by assumption⟩
    · obtain ⟨n, hmem, hlt⟩ := ih h
      exact ⟨n, by simp [hmem], hlt⟩

variable [DecidableEq α]

/-- A window with its own name holds the offsets from its start on. -/
theorem locate_eq_some_iff (hnd : (ws.map Prod.fst).Nodup) (hmem : (a, n) ∈ ws) :
    locate ws off = some (a, o) ↔ off = start ws a + o ∧ o < n := by
  induction ws generalizing off with
  | nil => cases hmem
  | cons w ws ih =>
    obtain ⟨b, m⟩ := w
    rw [List.map_cons, List.nodup_cons] at hnd
    rw [locate_cons, start]
    by_cases hab : a = b
    · subst hab
      have hnot : ∀ n, (a, n) ∉ ws := fun n hn => hnd.1 (List.mem_map.mpr ⟨_, hn, rfl⟩)
      have hnm : n = m := by simpa [hnot n] using hmem
      subst hnm
      rw [if_pos rfl, Nat.zero_add]
      constructor
      · intro h
        split at h
        · cases h
          exact ⟨rfl, by assumption⟩
        · obtain ⟨n', hn', -⟩ := mem_of_locate h
          exact absurd hn' (hnot n')
      · intro h
        rw [if_pos (by omega), h.1]
    · have htail : (a, n) ∈ ws := by simpa [hab] using hmem
      rw [if_neg hab]
      constructor
      · intro h
        split at h
        · cases h
          exact absurd rfl hab
        · have hrest := (ih hnd.2 htail).mp h
          omega
      · intro h
        rw [if_neg (by omega)]
        exact (ih hnd.2 htail).mpr (by omega)

end Hero.Windows
