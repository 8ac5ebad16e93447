import Hero.Framework.Program

/-!
# Two runs

Two programs that run from related states come out alike if both complete with related values, or both
stop with the same error, in related states.  The rules follow the structure of programs.
-/

namespace Hero.Interp

variable {σ ι ε τ α β γ δ ζ : Type}

/-- The outcomes of two runs are alike. -/
inductive OutcomesAlike (S : τ → τ → Prop) (R : α → β → Prop) :
    Except ε α × τ → Except ε β × τ → Prop
  | ok {a : α} {b : β} {t u : τ} (hR : R a b) (hS : S t u) : OutcomesAlike S R (.ok a, t) (.ok b, u)
  | error {e : ε} {t u : τ} (hS : S t u) : OutcomesAlike S R (.error e, t) (.error e, u)

/-- The runs of two programs come out alike. -/
def Alike (I : Interp σ ι τ) (S : τ → τ → Prop) (R : α → β → Prop) (p : Prog σ ι ε α)
    (q : Prog σ ι ε β) (t u : τ) : Prop :=
  OutcomesAlike S R (I.exec p t) (I.exec q u)

namespace Alike

variable {I : Interp σ ι τ} {S : τ → τ → Prop} {R : α → β → Prop} {t u : τ}

theorem ret {a : α} {b : β} (hR : R a b) (hS : S t u) :
    I.Alike S R (.ret a : Prog σ ι ε α) (.ret b) t u :=
  .ok hR hS

theorem fail {e : ε} (hS : S t u) : I.Alike S R (.fail e) (.fail e) t u := .error hS

theorem call {c d : ι} {p : Prog σ ι ε α} {q : Prog σ ι ε β}
    (h : I.Alike S R p q (I.step t c) (I.step u d)) : I.Alike S R (.call c p) (.call d q) t u :=
  h

theorem bind {p : Prog σ ι ε α} {q : Prog σ ι ε β} {f : α → Prog σ ι ε γ} {g : β → Prog σ ι ε δ}
    {Q : γ → δ → Prop} (h : I.Alike S R p q t u)
    (hf : ∀ a b t' u', R a b → S t' u' → I.Alike S Q (f a) (g b) t' u') :
    I.Alike S Q (p.bind f) (q.bind g) t u := by
  rw [Alike, exec_bind, exec_bind]
  rw [Alike] at h
  generalize I.exec p t = r at h ⊢
  generalize I.exec q u = r' at h ⊢
  cases h with
  | ok hR hS => exact hf _ _ _ _ hR hS
  | error hS => exact .error hS

theorem handle {p : Prog σ ι ε α} {q : Prog σ ι ε β} {h : ε → Prog σ ι ε α} {h' : ε → Prog σ ι ε β}
    (hp : I.Alike S R p q t u) (hh : ∀ e t' u', S t' u' → I.Alike S R (h e) (h' e) t' u') :
    I.Alike S R (p.handle h) (q.handle h') t u := by
  rw [Alike, exec_handle, exec_handle]
  rw [Alike] at hp
  generalize I.exec p t = r at hp ⊢
  generalize I.exec q u = r' at hp ⊢
  cases hp with
  | ok hR hS => exact .ok hR hS
  | error hS => exact hh _ _ _ hS

theorem foldl {f : α → γ → Prog σ ι ε α} {g : β → γ → Prog σ ι ε β} {xs : List γ}
    (hf : ∀ a b, ∀ x ∈ xs, ∀ t' u', R a b → S t' u' → I.Alike S R (f a x) (g b x) t' u')
    {a : α} {b : β} (hR : R a b) (hS : S t u) :
    I.Alike S R (Prog.foldl f a xs) (Prog.foldl g b xs) t u := by
  induction xs generalizing a b t u with
  | nil => exact ret hR hS
  | cons x xs ih =>
    apply bind (hf a b x List.mem_cons_self t u hR hS)
    intro a' b' t' u' hR' hS'
    exact ih (fun a b y hy => hf a b y (List.mem_cons_of_mem x hy)) hR' hS'

theorem mono {S' : τ → τ → Prop} {R' : α → β → Prop} {p : Prog σ ι ε α} {q : Prog σ ι ε β}
    (h : I.Alike S R p q t u) (hR : ∀ a b, R a b → R' a b) (hS : ∀ t' u', S t' u' → S' t' u') :
    I.Alike S' R' p q t u := by
  rw [Alike] at h ⊢
  generalize I.exec p t = r at h ⊢
  generalize I.exec q u = r' at h ⊢
  cases h with
  | ok hab hst => exact .ok (hR _ _ hab) (hS _ _ hst)
  | error hst => exact .error (hS _ _ hst)

end Alike

end Hero.Interp
