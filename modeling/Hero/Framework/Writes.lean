import Mathlib.Data.List.Basic
import Mathlib.Tactic.Common

/-!
# Sequences of writes

Writes of ranges of a memory one after the other.  What is at an address in the end is decided by the
last write that covers it.
-/

namespace Hero

/-- The last element of a list with a property, if there is one. -/
theorem exists_last {α : Type*} {p : α → Prop} {l : List α} (h : ∃ a ∈ l, p a) :
    ∃ pre a post, l = pre ++ a :: post ∧ p a ∧ ∀ b ∈ post, ¬ p b := by
  induction l with
  | nil =>
    obtain ⟨a, ha, -⟩ := h
    cases ha
  | cons c l ih =>
    by_cases hlater : ∃ a ∈ l, p a
    · obtain ⟨pre, a, post, rfl, hlast⟩ := ih hlater
      exact ⟨c :: pre, a, post, rfl, hlast⟩
    · have hnone : ∀ a ∈ l, ¬ p a := fun a ha hp => hlater ⟨a, ha, hp⟩
      obtain ⟨a, ha, hp⟩ := h
      cases ha with
      | head => exact ⟨[], _, l, rfl, hp, hnone⟩
      | tail _ ha => exact absurd hp (hnone a ha)

structure Write (β : Type*) where
  start : Nat
  len : Nat
  data : Nat → β

namespace Write

variable {β : Type*}

def Covers (w : Write β) (x : Nat) : Prop := w.start ≤ x ∧ x < w.start + w.len

instance (w : Write β) (x : Nat) : Decidable (w.Covers x) := inferInstanceAs (Decidable (_ ∧ _))

def apply (mem : Nat → β) (w : Write β) (x : Nat) : β :=
  if w.Covers x then w.data (x - w.start) else mem x

def applyAll (mem : Nat → β) (ws : List (Write β)) : Nat → β := ws.foldl apply mem

variable {γ : Type*} {mem : Nat → β} {w : Write β} {ws vs : List (Write β)} {x : Nat}

@[simp] theorem applyAll_nil : applyAll mem [] = mem := rfl

@[simp] theorem applyAll_cons : applyAll mem (w :: ws) = applyAll (apply mem w) ws := rfl

theorem applyAll_append : applyAll mem (ws ++ vs) = applyAll (applyAll mem ws) vs :=
  List.foldl_append

/-- Addresses that no write covers keep what they hold. -/
theorem applyAll_of_not_covers (h : ∀ w ∈ ws, ¬ w.Covers x) : applyAll mem ws x = mem x := by
  induction ws generalizing mem with
  | nil => rfl
  | cons w ws ih =>
    rw [applyAll_cons, ih fun v hv => h v (by simp [hv])]
    exact if_neg (h w (by simp))

/-- The last write to an address decides. -/
theorem applyAll_of_last (hw : w.Covers x) (hvs : ∀ v ∈ vs, ¬ v.Covers x) :
    applyAll mem (ws ++ w :: vs) x = w.data (x - w.start) := by
  rw [applyAll_append, applyAll_cons, applyAll_of_not_covers hvs]
  exact if_pos hw

def map (f : β → γ) (w : Write β) : Write γ := ⟨w.start, w.len, fun k => f (w.data k)⟩

/-- What the last write that covers an address puts there -/
def written (ws : List (Write β)) : Nat → Option β := applyAll (fun _ => none) (ws.map (map some))

theorem written_of_not_covers (h : ∀ w ∈ ws, ¬ w.Covers x) : written ws x = none := by
  apply applyAll_of_not_covers
  intro v hv
  obtain ⟨w, hw, rfl⟩ := List.mem_map.mp hv
  exact h w hw

theorem written_of_last (hw : w.Covers x) (hvs : ∀ v ∈ vs, ¬ v.Covers x) :
    written (ws ++ w :: vs) x = some (w.data (x - w.start)) := by
  rw [written, List.map_append, List.map_cons]
  apply applyAll_of_last (w := map some w) hw
  intro v hv
  obtain ⟨u, hu, rfl⟩ := List.mem_map.mp hv
  exact hvs u hu

theorem written_append_of_not_covers (h : ∀ v ∈ vs, ¬ v.Covers x) :
    written (ws ++ vs) x = written ws x := by
  rw [written, List.map_append, applyAll_append]
  apply applyAll_of_not_covers
  intro v hv
  obtain ⟨w, hw, rfl⟩ := List.mem_map.mp hv
  exact h w hw

/-- The memory after writes of translated data -/
theorem applyAll_map {f : β → γ} {mem : Nat → γ} :
    applyAll mem (ws.map (map f)) x = ((written ws x).map f).getD (mem x) := by
  by_cases h : ∃ w ∈ ws, w.Covers x
  · obtain ⟨pre, w, post, rfl, hw, hpost⟩ := exists_last h
    rw [written_of_last hw hpost, List.map_append, List.map_cons]
    apply applyAll_of_last (w := map f w) hw
    intro v hv
    obtain ⟨u, hu, rfl⟩ := List.mem_map.mp hv
    exact hpost u hu
  · have hnone : ∀ w ∈ ws, ¬ w.Covers x := fun w hw hx => h ⟨w, hw, hx⟩
    rw [written_of_not_covers hnone]
    apply applyAll_of_not_covers
    intro v hv
    obtain ⟨w, hw, rfl⟩ := List.mem_map.mp hv
    exact hnone w hw

end Write

end Hero
