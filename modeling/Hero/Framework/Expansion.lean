import Mathlib.Data.List.Forall2

/-!
# Instructions expanded into sequences

A list of instructions is run one after the other and may get stuck.  Where every instruction is
replaced by a sequence that does the same up to what `forget` drops from the state, the replaced
list does the same too.
-/

namespace Hero

variable {ι ι' σ σ' : Type*}

/-- What a translation that may fail makes of each element of a list. -/
theorem mapM_eq_some {t : ι → Option ι'} {is : List ι} {is' : List ι'} :
    is.mapM t = some is' ↔ List.Forall₂ (fun i i' => t i = some i') is is' := by
  induction is generalizing is' with
  | nil => cases is' <;> simp
  | cons i is ih =>
    cases hi : t i with
    | none => cases is' <;> simp [List.mapM_cons, hi]
    | some j =>
      cases his : is.mapM t with
      | none => cases is' <;> simp [List.mapM_cons, hi, his, ← ih]
      | some js => cases is' <;> simp [List.mapM_cons, hi, his, ← ih]

theorem mapM_isSome {t : ι → Option ι'} {is : List ι} (h : ∀ i ∈ is, (t i).isSome) :
    ∃ is', is.mapM t = some is' := by
  induction is with
  | nil => exact ⟨[], rfl⟩
  | cons i is ih =>
    obtain ⟨i', hi⟩ := Option.isSome_iff_exists.mp (h i (by simp))
    obtain ⟨is', his⟩ := ih (fun j hj => h j (by simp [hj]))
    exact ⟨i' :: is', by simp [List.mapM_cons, hi, his]⟩

/-- What is in a list goes back to something in the list it is related to. -/
theorem exists_of_forall₂_mem {r : ι → ι' → Prop} {is : List ι} {is' : List ι'} {i' : ι'}
    (h : List.Forall₂ r is is') (hi' : i' ∈ is') : ∃ i ∈ is, r i i' := by
  induction h with
  | nil => cases hi'
  | cons hr _ ih =>
    obtain rfl | hmem := List.mem_cons.mp hi'
    · exact ⟨_, List.mem_cons_self, hr⟩
    · obtain ⟨i, hi, hri⟩ := ih hmem
      exact ⟨i, List.mem_cons_of_mem _ hi, hri⟩

section Run

variable {step : σ → ι → Option σ} {step' : σ' → ι' → Option σ'} {forget : σ' → σ}

/-- The sequence `is'` does what the instruction `i` does. -/
def Expands (step : σ → ι → Option σ) (step' : σ' → ι' → Option σ') (forget : σ' → σ) (i : ι)
    (is' : List ι') : Prop :=
  ∀ s', (is'.foldlM step' s').map forget = step (forget s') i

/-- Running the expansions of a list of instructions does what running the list does. -/
theorem foldlM_flatten {is : List ι} {iss' : List (List ι')}
    (h : List.Forall₂ (Expands step step' forget) is iss') (s' : σ') :
    (iss'.flatten.foldlM step' s').map forget = is.foldlM step (forget s') := by
  induction h generalizing s' with
  | nil => rfl
  | cons hi _ ih =>
    rw [List.flatten_cons, List.foldlM_append, List.foldlM_cons, ← hi s']
    simp only [Option.bind_eq_bind, Option.map_bind, Option.bind_map]
    congr 1
    funext t'
    exact ih t'

theorem expands_singleton {i : ι} {i' : ι'}
    (h : ∀ s', (step' s' i').map forget = step (forget s') i) :
    Expands step step' forget i [i'] := by
  intro s'
  rw [← h s']
  simp

/-- Running a list whose instructions are replaced one for one. -/
theorem foldlM_map {t : ι → ι'} {is : List ι}
    (h : ∀ i ∈ is, ∀ s', (step' s' (t i)).map forget = step (forget s') i) (s' : σ') :
    ((is.map t).foldlM step' s').map forget = is.foldlM step (forget s') := by
  induction is generalizing s' with
  | nil => rfl
  | cons i is ih =>
    rw [List.map_cons, List.foldlM_cons, List.foldlM_cons, ← h i (by simp) s']
    simp only [Option.bind_eq_bind, Option.map_bind, Option.bind_map]
    congr 1
    funext t'
    exact ih (fun j hj => h j (by simp [hj])) t'

end Run

end Hero
