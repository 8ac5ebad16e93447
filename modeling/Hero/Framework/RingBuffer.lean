import Mathlib.Data.List.Basic
import Mathlib.Data.Nat.ModEq
import Mathlib.Logic.Function.Basic
import Mathlib.Tactic.Ring

/-!
# Ring buffers with a full flag

A read and a write index that meet both when the buffer is empty and when it is full.  The contents
are the queue the buffer stands for.
-/

namespace Hero

structure Ring (α : Type*) where
  cells : Nat → α
  rd : Nat
  wr : Nat
  full : Bool

namespace Ring

variable {α : Type*}

/-- The indices are in range and a full buffer has them at one place. -/
structure Valid (cap : Nat) (r : Ring α) : Prop where
  rd_lt : r.rd < cap
  wr_lt : r.wr < cap
  full_eq : r.full = true → r.wr = r.rd

def size (cap : Nat) (r : Ring α) : Nat :=
  if r.full then cap else if r.rd ≤ r.wr then r.wr - r.rd else cap - r.rd + r.wr

/-- The queue from the oldest element on. -/
def contents (cap : Nat) (r : Ring α) : List α :=
  (List.range (r.size cap)).map fun i => r.cells ((r.rd + i) % cap)

/-- The elements that can be read before the end of the array. -/
def available (cap : Nat) (r : Ring α) : Nat := if r.rd < r.wr then r.wr - r.rd else cap - r.rd

/-- The index after `i`, wrapping around. -/
def wrap (cap i : Nat) : Nat := if i ≥ cap then 0 else i

def push (cap : Nat) (x : α) (r : Ring α) : Ring α :=
  let wr := wrap cap (r.wr + 1)
  { r with
    cells := Function.update r.cells r.wr x
    wr
    full := if wr = r.rd then true else r.full }

/-- Give up the `n` oldest elements. -/
def advance (cap n : Nat) (r : Ring α) : Ring α :=
  { r with rd := wrap cap (r.rd + n), full := if n > 0 then false else r.full }

variable {cap n : Nat} {x : α} {r : Ring α}

@[simp] theorem length_contents (cap : Nat) (r : Ring α) :
    (r.contents cap).length = r.size cap := by simp [contents]

theorem Valid.cap_pos (h : r.Valid cap) : 0 < cap := Nat.zero_lt_of_lt h.rd_lt

theorem size_of_not_full (cap : Nat) (hfull : r.full = false) :
    r.size cap = if r.rd ≤ r.wr then r.wr - r.rd else cap - r.rd + r.wr := by
  simp [size, hfull]

theorem size_of_full (cap : Nat) (hfull : r.full = true) : r.size cap = cap := by
  simp [size, hfull]

theorem Valid.size_lt (h : r.Valid cap) (hfull : r.full = false) : r.size cap < cap := by
  have h0 := h.rd_lt
  have h1 := h.wr_lt
  rw [size_of_not_full cap hfull]
  split <;> omega

theorem Valid.size_le (h : r.Valid cap) : r.size cap ≤ cap := by
  cases hfull : r.full with
  | true => exact (size_of_full cap hfull).le
  | false => exact (h.size_lt hfull).le

theorem Valid.push (h : r.Valid cap) (hfull : r.full = false) : (r.push cap x).Valid cap := by
  have h0 := h.cap_pos
  refine ⟨h.rd_lt, ?_, ?_⟩
  · simp only [Ring.push, wrap]
    split <;> omega
  · simp only [Ring.push, hfull]
    intro hnew
    split at hnew
    · assumption
    · cases hnew

theorem Valid.size_push (h : r.Valid cap) (hfull : r.full = false) :
    (r.push cap x).size cap = r.size cap + 1 := by
  have h0 := h.rd_lt
  have h1 := h.wr_lt
  rw [size_of_not_full cap hfull]
  by_cases hmeet : wrap cap (r.wr + 1) = r.rd
  · rw [size_of_full cap (by simp [Ring.push, hmeet])]
    simp only [wrap] at hmeet
    split at hmeet <;> split <;> omega
  · rw [size_of_not_full cap (by simp [Ring.push, hmeet, hfull])]
    by_cases hend : r.wr + 1 ≥ cap
    · simp only [Ring.push, wrap, hend, if_true] at hmeet ⊢
      split <;> split <;> omega
    · simp only [Ring.push, wrap, hend, if_false] at hmeet ⊢
      split <;> split <;> omega

/-- The cell a push writes is the one after the contents. -/
theorem Valid.slot (h : r.Valid cap) (hfull : r.full = false) :
    (r.rd + r.size cap) % cap = r.wr := by
  have h0 := h.rd_lt
  have h1 := h.wr_lt
  rw [size_of_not_full cap hfull]
  split
  · rw [Nat.mod_eq_of_lt (by omega)]
    omega
  · rw [show r.rd + (cap - r.rd + r.wr) = r.wr + cap by omega, Nat.add_mod_right,
      Nat.mod_eq_of_lt h1]

theorem index_ne {i j : Nat} (rd : Nat) (hij : i < j) (hj : j < cap) :
    (rd + i) % cap ≠ (rd + j) % cap := by
  intro heq
  have hmod : Nat.ModEq cap i j := Nat.ModEq.add_left_cancel' rd heq
  have hval := Nat.ModEq.eq_of_lt_of_lt hmod (hij.trans hj) hj
  omega

theorem Valid.contents_push (h : r.Valid cap) (hfull : r.full = false) :
    (r.push cap x).contents cap = r.contents cap ++ [x] := by
  have hlt := h.size_lt hfull
  have hslot := h.slot hfull
  have hold : ∀ i ∈ List.range (r.size cap),
      (r.push cap x).cells ((r.rd + i) % cap) = r.cells ((r.rd + i) % cap) := by
    intro i hi
    apply Function.update_of_ne
    rw [← hslot]
    exact index_ne r.rd (List.mem_range.mp hi) hlt
  have hnew : (r.push cap x).cells ((r.rd + r.size cap) % cap) = x := by
    rw [hslot]
    exact Function.update_self _ _ _
  show (List.range ((r.push cap x).size cap)).map
    (fun i => (r.push cap x).cells ((r.rd + i) % cap)) = _
  rw [h.size_push hfull, List.range_succ, List.map_append, List.map_congr_left hold,
    List.map_singleton, hnew]
  rfl

theorem Valid.available_le (h : r.Valid cap) (hsome : r.wr ≠ r.rd ∨ r.full = true) :
    r.available cap ≤ r.size cap := by
  have h0 := h.rd_lt
  have h1 := h.wr_lt
  cases hfull : r.full with
  | true =>
    rw [size_of_full cap hfull, available]
    split <;> omega
  | false =>
    have hne : r.wr ≠ r.rd := by simpa [hfull] using hsome
    rw [size_of_not_full cap hfull, available]
    split <;> split <;> omega

theorem Valid.available_pos (h : r.Valid cap) : 0 < r.available cap := by
  have h0 := h.rd_lt
  rw [available]
  split <;> omega

theorem Valid.rd_add_available (h : r.Valid cap) : r.rd + r.available cap ≤ cap := by
  have h0 := h.rd_lt
  have h1 := h.wr_lt
  rw [available]
  split <;> omega

/-- The elements before the end of the array are where the contents have them. -/
theorem getElem_contents {i : Nat} (hend : r.rd + i < cap) (hi : i < r.size cap) :
    (r.contents cap)[i]? = some (r.cells (r.rd + i)) := by
  have hlen : i < (r.contents cap).length := by simpa using hi
  rw [List.getElem?_eq_getElem hlen]
  simp [contents, Nat.mod_eq_of_lt hend]

theorem Valid.advance (h : r.Valid cap) (hpos : 0 < n) : (r.advance cap n).Valid cap := by
  have h0 := h.cap_pos
  refine ⟨?_, h.wr_lt, ?_⟩
  · simp only [Ring.advance, wrap]
    split <;> omega
  · simp [Ring.advance, hpos]

theorem Valid.size_advance (h : r.Valid cap) (hpos : 0 < n) (hn : n ≤ r.size cap)
    (hend : r.rd + n ≤ cap) : (r.advance cap n).size cap = r.size cap - n := by
  have h0 := h.rd_lt
  have h1 := h.wr_lt
  rw [size_of_not_full (r := r.advance cap n) cap (by simp [Ring.advance, hpos])]
  simp only [Ring.advance, wrap]
  cases hfull : r.full with
  | true =>
    have heq := h.full_eq hfull
    rw [size_of_full cap hfull]
    split <;> split <;> omega
  | false =>
    rw [size_of_not_full cap hfull] at hn ⊢
    split at hn <;> split <;> split <;> omega

theorem Valid.contents_advance (h : r.Valid cap) (hpos : 0 < n) (hn : n ≤ r.size cap)
    (hend : r.rd + n ≤ cap) : (r.advance cap n).contents cap = (r.contents cap).drop n := by
  have hrd : ∀ i, (wrap cap (r.rd + n) + i) % cap = (r.rd + (n + i)) % cap := by
    intro i
    unfold wrap
    split
    · rw [show r.rd + (n + i) = 0 + i + cap by omega, Nat.add_mod_right]
    · rw [Nat.add_assoc]
  apply List.ext_getElem
  · simp [h.size_advance hpos hn hend]
  · intro i _ _
    rw [List.getElem_drop]
    simp only [contents, List.getElem_map, List.getElem_range]
    exact congrArg r.cells (hrd i)

theorem advance_zero (h : r.rd < cap) : r.advance cap 0 = r := by
  simp [Ring.advance, wrap, Nat.not_le.mpr h]

/-- Elements before the end of the array can be given up, also none. -/
theorem Valid.advance_spec (h : r.Valid cap) (hn : n ≤ r.size cap) (hend : r.rd + n ≤ cap) :
    (r.advance cap n).Valid cap ∧ (r.advance cap n).contents cap = (r.contents cap).drop n := by
  rcases Nat.eq_zero_or_pos n with rfl | hpos
  · rw [advance_zero h.rd_lt, List.drop_zero]
    exact ⟨h, rfl⟩
  · exact ⟨h.advance hpos, h.contents_advance hpos hn hend⟩

end Ring

end Hero
