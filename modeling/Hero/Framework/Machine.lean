import Mathlib.Data.List.Basic

/-!
# Machines with histories

A machine takes labelled steps that may be disabled and that emit events.  Invariants relate a
state to the history of events emitted so far and are carried along runs by one induction.
-/

namespace Hero

/-- A step function: the next state and the events emitted, or `none` for a disabled step. -/
abbrev Machine (σ ι ε : Type*) := σ → ι → Option (σ × List ε)

namespace Machine

variable {σ ι ε : Type*}

def run (m : Machine σ ι ε) (s : σ) : List ι → Option (σ × List ε)
  | [] => some (s, [])
  | i :: is => do
    let (s', es) ← m s i
    let (s'', es') ← run m s' is
    return (s'', es ++ es')

/-- Every step of the run meets `ok` in the state it is taken in. -/
def Along (m : Machine σ ι ε) (ok : σ → ι → Prop) (s : σ) : List ι → Prop
  | [] => True
  | i :: is => ok s i ∧ ∀ s' es, m s i = some (s', es) → Along m ok s' is

instance decidableAlong (m : Machine σ ι ε) (ok : σ → ι → Prop) [∀ s i, Decidable (ok s i)] :
    ∀ (is : List ι) (s : σ), Decidable (Along m ok s is)
  | [], _ => isTrue trivial
  | i :: is, s =>
    have : Decidable (∀ s' es, m s i = some (s', es) → Along m ok s' is) :=
      match h : m s i with
      | none => isTrue (by simp)
      | some (t, fs) =>
        have := decidableAlong m ok is t
        decidable_of_iff (Along m ok t is) (by simp)
    inferInstanceAs (Decidable (_ ∧ _))

variable {m : Machine σ ι ε} {s s' : σ} {i : ι} {is js : List ι} {es : List ε}

@[simp] theorem run_nil : m.run s [] = some (s, []) := rfl

theorem run_cons : m.run s (i :: is) = some (s', es) ↔
    ∃ t fs gs, m s i = some (t, fs) ∧ m.run t is = some (s', gs) ∧ fs ++ gs = es := by
  simp only [run, Option.bind_eq_bind, Option.bind_eq_some_iff, Prod.exists, Option.pure_def,
    Option.some.injEq, Prod.mk.injEq]
  constructor
  · intro h
    obtain ⟨t, fs, ht, u, gs, hu, rfl, rfl⟩ := h
    exact ⟨t, fs, gs, ht, hu, rfl⟩
  · intro h
    obtain ⟨t, fs, gs, ht, hu, rfl⟩ := h
    exact ⟨t, fs, ht, s', gs, hu, rfl, rfl⟩

theorem run_append {hs : List ε} : m.run s (is ++ js) = some (s', hs) ↔
    ∃ t fs gs, m.run s is = some (t, fs) ∧ m.run t js = some (s', gs) ∧ fs ++ gs = hs := by
  induction is generalizing s hs with
  | nil =>
    constructor
    · intro h
      exact ⟨s, [], hs, rfl, h, rfl⟩
    · intro h
      obtain ⟨t, fs, gs, h0, h1, rfl⟩ := h
      cases h0
      exact h1
  | cons i is ih =>
    simp only [List.cons_append, run_cons, ih]
    constructor
    · intro h
      obtain ⟨t, fs, gs, ht, ⟨u, fs', gs', hu, hu', rfl⟩, rfl⟩ := h
      exact ⟨u, fs ++ fs', gs', ⟨t, fs, fs', ht, hu, rfl⟩, hu', List.append_assoc _ _ _⟩
    · intro h
      obtain ⟨u, fs, gs, ⟨t, fs', gs', ht, hu, rfl⟩, hu', rfl⟩ := h
      exact ⟨t, fs', gs' ++ gs, ht, ⟨u, gs', gs, hu, hu', rfl⟩, (List.append_assoc _ _ _).symm⟩

/-- An invariant of states and histories that every permitted step keeps holds after a run. -/
theorem run_history (Inv : σ → List ε → Prop) (ok : σ → ι → Prop)
    (hstep : ∀ s h i s' es, Inv s h → ok s i → m s i = some (s', es) → Inv s' (h ++ es))
    {h : List ε} (hinv : Inv s h) (hok : Along m ok s is) (hrun : m.run s is = some (s', es)) :
    Inv s' (h ++ es) := by
  induction is generalizing s h es with
  | nil =>
    cases hrun
    simpa using hinv
  | cons i is ih =>
    obtain ⟨t, fs, gs, ht, hu, rfl⟩ := run_cons.mp hrun
    rw [← List.append_assoc]
    exact ih (hstep s h i t fs hinv hok.1 ht) (hok.2 t fs ht) hu

/-- An invariant of states that every permitted step keeps holds after a run. -/
theorem run_invariant (Inv : σ → Prop) (ok : σ → ι → Prop)
    (hstep : ∀ s i s' es, Inv s → ok s i → m s i = some (s', es) → Inv s')
    (hinv : Inv s) (hok : Along m ok s is) (hrun : m.run s is = some (s', es)) : Inv s' := by
  exact run_history (fun s _ => Inv s) ok (fun s _ i s' es => hstep s i s' es) (h := []) hinv hok
    hrun

/-- Where an invariant makes two conditions on steps equivalent, they hold along the same runs. -/
theorem along_iff {Inv : σ → Prop} {ok good : σ → ι → Prop}
    (hstep : ∀ s i s' es, Inv s → ok s i → m s i = some (s', es) → Inv s')
    (hiff : ∀ s i, Inv s → (good s i ↔ ok s i)) (hinv : Inv s) :
    Along m good s is ↔ Along m ok s is := by
  induction is generalizing s with
  | nil => exact Iff.rfl
  | cons i is ih =>
    constructor
    · intro h
      have hok := (hiff s i hinv).mp h.1
      exact ⟨hok, fun s' es hs' => (ih (hstep s i s' es hinv hok hs')).mp (h.2 s' es hs')⟩
    · intro h
      refine ⟨(hiff s i hinv).mpr h.1, ?_⟩
      intro s' es hs'
      exact (ih (hstep s i s' es hinv h.1 hs')).mpr (h.2 s' es hs')

/-- Where steps are always possible and an invariant ties what they do to the step alone, that holds
along a run exactly if it does for each step. -/
theorem along_iff_forall {Inv : σ → Prop} {good : σ → ι → Prop} {p : ι → Prop}
    (hgood : ∀ s i, Inv s → (good s i ↔ p i))
    (hstep : ∀ s i, Inv s → ∃ s' es, m s i = some (s', es) ∧ Inv s') (hinv : Inv s) :
    Along m good s is ↔ ∀ i ∈ is, p i := by
  induction is generalizing s with
  | nil => simp [Along]
  | cons i is ih =>
    obtain ⟨t, fs, ht, hnext⟩ := hstep s i hinv
    simp only [Along, ht, Option.some.injEq, Prod.mk.injEq, List.forall_mem_cons]
    rw [hgood s i hinv, ← ih hnext]
    constructor
    · intro h
      exact ⟨h.1, h.2 t fs ⟨rfl, rfl⟩⟩
    · intro h
      refine ⟨h.1, ?_⟩
      intro s' es hs'
      rw [← hs'.1]
      exact h.2

/-- Steps that are good where an invariant and a condition hold, and keep the invariant there, are
good along every run that meets the condition. -/
theorem along_of_inv {Inv : σ → Prop} {ok good : σ → ι → Prop}
    (hstep : ∀ s i, Inv s → ok s i → good s i ∧ ∀ s' es, m s i = some (s', es) → Inv s')
    (hinv : Inv s) (hok : Along m ok s is) : Along m good s is := by
  induction is generalizing s with
  | nil => trivial
  | cons i is ih =>
    obtain ⟨hgood, hnext⟩ := hstep s i hinv hok.1
    exact ⟨hgood, fun s' es hs' => ih (hnext s' es hs') (hok.2 s' es hs')⟩

theorem along_of_forall {ok : σ → ι → Prop} (h : ∀ i ∈ is, ∀ s, ok s i) : Along m ok s is := by
  induction is generalizing s with
  | nil => trivial
  | cons i is ih =>
    refine ⟨h i (by simp) s, ?_⟩
    intro s' es _
    exact ih (fun j hj => h j (by simp [hj]))

theorem along_append {ok : σ → ι → Prop} : Along m ok s (is ++ js) ↔
    Along m ok s is ∧ ∀ t es, m.run s is = some (t, es) → Along m ok t js := by
  induction is generalizing s with
  | nil => simp [Along]
  | cons i is ih =>
    simp only [List.cons_append, Along, ih, run_cons]
    constructor
    · intro h
      refine ⟨⟨h.1, fun t es ht => (h.2 t es ht).1⟩, ?_⟩
      intro t es ht
      obtain ⟨u, fs, gs, hu, hrest, -⟩ := ht
      exact (h.2 u fs hu).2 t gs hrest
    · intro h
      obtain ⟨⟨hok, hnext⟩, hrest⟩ := h
      refine ⟨hok, fun t es ht => ⟨hnext t es ht, ?_⟩⟩
      intro u fs hu
      exact hrest u (es ++ fs) ⟨t, es, fs, ht, hu, rfl⟩

/-- The condition on the step after a prefix of the run. -/
theorem Along.at {ok : σ → ι → Prop} {t : σ} (h : Along m ok s (is ++ i :: js))
    (hrun : m.run s is = some (t, es)) : ok t i := by
  induction is generalizing s es with
  | nil =>
    cases hrun
    exact h.1
  | cons j is ih =>
    obtain ⟨u, fs, gs, hu, hrest, -⟩ := run_cons.mp hrun
    exact ih (h.2 u fs hu) hrest

/-- Where an invariant of states and histories gives `Good`, and a step that does not meet the
condition ends in what is not `Good`, the states along a run are all `Good` exactly if each step
meets the condition. -/
theorem good_iff_along (Inv Good : σ → List ε → Prop) (ok : σ → ι → Prop)
    (hgood : ∀ s h, Inv s h → Good s h)
    (hstep : ∀ s h i s' es, Inv s h → ok s i → m s i = some (s', es) → Inv s' (h ++ es))
    (hbad : ∀ s h i, Inv s h → ¬ ok s i → ∃ s' es, m s i = some (s', es) ∧ ¬ Good s' (h ++ es))
    {h : List ε} (hinv : Inv s h) :
    (∀ js, js <+: is → ∀ s' es, m.run s js = some (s', es) → Good s' (h ++ es)) ↔
      Along m ok s is := by
  induction is generalizing s h with
  | nil =>
    refine ⟨fun _ => trivial, ?_⟩
    intro _ js hjs s' es hrun
    rw [List.prefix_nil] at hjs
    subst hjs
    cases hrun
    rw [List.append_nil]
    exact hgood s h hinv
  | cons i is ih =>
    constructor
    · intro hall
      have hok : ok s i := by
        by_contra hnot
        obtain ⟨s', es, hs', hnotGood⟩ := hbad s h i hinv hnot
        apply hnotGood
        exact hall [i] (List.prefix_append [i] is) s' es
          (run_cons.mpr ⟨s', es, [], hs', rfl, List.append_nil es⟩)
      refine ⟨hok, ?_⟩
      intro t fs ht
      apply (ih (hstep s h i t fs hinv hok ht)).mp
      intro js hjs s' es hrun
      rw [List.append_assoc]
      exact hall (i :: js) (List.cons_prefix_cons.mpr ⟨rfl, hjs⟩) s' (fs ++ es)
        (run_cons.mpr ⟨t, fs, es, ht, hrun, rfl⟩)
    · intro hok js hjs s' es hrun
      cases js with
      | nil =>
        cases hrun
        rw [List.append_nil]
        exact hgood s h hinv
      | cons j js =>
        obtain ⟨hji, htail⟩ := List.cons_prefix_cons.mp hjs
        subst hji
        obtain ⟨t, fs, gs, ht, hrest, rfl⟩ := run_cons.mp hrun
        rw [← List.append_assoc]
        exact (ih (hstep s h j t fs hinv hok.1 ht)).mpr (hok.2 t fs ht) js htail s' gs hrest

end Machine

end Hero
