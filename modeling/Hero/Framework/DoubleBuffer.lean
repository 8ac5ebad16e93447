import Mathlib.Data.List.Basic
import Mathlib.Logic.Function.Basic

/-!
# Double buffers

Two slots that one side fills and the other side empties.  Each side has an index of its own, which
alternates, and a slot says by itself whether it is full.
-/

namespace Hero.DoubleBuffer

variable {α : Type*} {full : α → Prop} {slots : Bool → α} {take put : Bool} {q : List α} {a : α}

/-- The slots hold the queue `q`: the next element to take is in slot `take`, and the next one to
come goes to slot `put`. -/
inductive Holds (full : α → Prop) (slots : Bool → α) (take : Bool) : Bool → List α → Prop where
  | empty : ¬ full (slots take) → ¬ full (slots !take) → Holds full slots take take []
  | one : full (slots take) → ¬ full (slots !take) → Holds full slots take (!take) [slots take]
  | both : full (slots take) → full (slots !take) →
      Holds full slots take take [slots take, slots !take]

/-- The elements in the full slots, the next one to take first. -/
def contents (full : α → Prop) [DecidablePred full] (slots : Bool → α) (take : Bool) : List α :=
  [slots take, slots !take].filter full

theorem Holds.contents_eq [DecidablePred full] (h : Holds full slots take put q) :
    contents full slots take = q := by
  cases h with
  | empty h0 h1 => simp [contents, h0, h1]
  | one h0 h1 => simp [contents, h0, h1]
  | both h0 h1 => simp [contents, h0, h1]

theorem Holds.eq_nil (h : Holds full slots take put q) (hempty : ¬ full (slots take)) : q = [] := by
  cases h with
  | empty => rfl
  | one h0 => exact absurd h0 hempty
  | both h0 => exact absurd h0 hempty

/-- A slot that is still empty may be written before it is marked as full. -/
theorem Holds.write (h : Holds full slots take put q) (hfree : ¬ full (slots put))
    (ha : ¬ full a) : Holds full (Function.update slots put a) take put q := by
  cases h with
  | empty h0 h1 =>
    have h1' : ¬ full (Function.update slots take a !take) := by simpa using h1
    exact .empty (by simpa using ha) h1'
  | one h0 h1 =>
    have hkeep : Function.update slots (!take) a take = slots take := by simp
    rw [← hkeep]
    exact .one (by simpa using h0) (by simpa using ha)
  | both h0 h1 => exact absurd h0 hfree

/-- A full element written to a slot that was empty joins the queue. -/
theorem Holds.push (h : Holds full slots take put q) (hfree : ¬ full (slots put)) (ha : full a) :
    Holds full (Function.update slots put a) take (!put) (q ++ [a]) := by
  cases h with
  | empty h0 h1 =>
    have hone : Holds full (Function.update slots take a) take (!take)
        [Function.update slots take a take] := .one (by simpa using ha) (by simpa using h1)
    simpa using hone
  | one h0 h1 =>
    have hboth : Holds full (Function.update slots (!take) a) take take
        [Function.update slots (!take) a take, Function.update slots (!take) a !take] :=
      .both (by simpa using h0) (by simpa using ha)
    simpa using hboth
  | both h0 h1 => exact absurd h0 hfree

/-- The first element leaves the queue when its slot is marked as empty. -/
theorem Holds.pop (h : Holds full slots take put q) (hfull : full (slots take))
    (ha : ¬ full a) :
    ∃ q', q = slots take :: q' ∧ Holds full (Function.update slots take a) (!take) put q' := by
  cases h with
  | empty h0 => exact absurd hfull h0
  | one h0 h1 =>
    exact ⟨[], rfl, .empty (by simpa using h1) (by simpa using ha)⟩
  | both h0 h1 =>
    have hone : Holds full (Function.update slots take a) (!take) (!!take)
        [Function.update slots take a !take] := .one (by simpa using h1) (by simpa using ha)
    refine ⟨[slots !take], rfl, ?_⟩
    simpa using hone

end Hero.DoubleBuffer
