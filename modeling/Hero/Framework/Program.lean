import Mathlib.Logic.Basic

/-!
# Programs over calls

A program reads the state, issues calls that change it and may stop with an error.  Conditions on
calls are stated in the states the calls are issued in; an interpretation may carry ghost state that
the program does not see.
-/

namespace Hero

inductive Prog (σ ι ε α : Type) where
  | ret (a : α)
  | fail (e : ε)
  | read (k : σ → Prog σ ι ε α)
  | call (c : ι) (k : Prog σ ι ε α)

namespace Prog

variable {σ ι ε α β γ : Type}

def bind : Prog σ ι ε α → (α → Prog σ ι ε β) → Prog σ ι ε β
  | ret a, f => f a
  | fail e, _ => fail e
  | read k, f => read fun s => bind (k s) f
  | call c k, f => call c (bind k f)

instance : Monad (Prog σ ι ε) where
  pure := ret
  bind := bind

def get : Prog σ ι ε σ := read ret

def issue (c : ι) : Prog σ ι ε Unit := call c (ret ())

/-- A loop over a list that carries a value and ends with the first error. -/
def foldl (f : β → γ → Prog σ ι ε β) : β → List γ → Prog σ ι ε β
  | b, [] => ret b
  | b, x :: xs => (f b x).bind fun b' => foldl f b' xs

/-- Run `q` after `p`, also if `p` stops with an error. -/
def andThen : Prog σ ι ε α → Prog σ ι ε β → Prog σ ι ε β
  | ret _, q => q
  | fail _, q => q
  | read k, q => read fun s => andThen (k s) q
  | call c k, q => call c (andThen k q)

/-- Go on with `h` where `p` stops with an error. -/
def handle : Prog σ ι ε α → (ε → Prog σ ι ε α) → Prog σ ι ε α
  | ret a, _ => ret a
  | fail e, h => h e
  | read k, h => read fun s => handle (k s) h
  | call c k, h => call c (handle k h)

/-- One program after the other. -/
def session : List (Prog σ ι ε Unit) → Prog σ ι ε Unit
  | [] => ret ()
  | p :: ps => p.andThen (session ps)

/-- All calls of the program meet `p`, whatever it reads. -/
def Only (p : ι → Prop) : Prog σ ι ε α → Prop
  | ret _ => True
  | fail _ => True
  | read k => ∀ s, Only p (k s)
  | call c k => p c ∧ Only p k

namespace Only

variable {p : ι → Prop} {q : Prog σ ι ε α}

theorem bind (hq : q.Only p) {f : α → Prog σ ι ε β} (hf : ∀ a, (f a).Only p) : (q.bind f).Only p := by
  induction q with
  | ret a => exact hf a
  | fail e => trivial
  | read k ih => exact fun s => ih s (hq s)
  | call c k ih => exact ⟨hq.1, ih hq.2⟩

theorem handle (hq : q.Only p) {h : ε → Prog σ ι ε α} (hh : ∀ e, (h e).Only p) :
    (q.handle h).Only p := by
  induction q with
  | ret a => trivial
  | fail e => exact hh e
  | read k ih => exact fun s => ih s (hq s)
  | call c k ih => exact ⟨hq.1, ih hq.2⟩

theorem foldl {f : β → γ → Prog σ ι ε β} {xs : List γ} (hf : ∀ b, ∀ x ∈ xs, (f b x).Only p) (b : β) :
    (Prog.foldl f b xs).Only p := by
  induction xs generalizing b with
  | nil => trivial
  | cons x xs ih =>
    exact bind (hf b x List.mem_cons_self) fun b' =>
      ih (fun b y hy => hf b y (List.mem_cons_of_mem x hy)) b'

end Only

end Prog

/-- A meaning for calls on states `τ`, of which programs see the part `view`. -/
structure Interp (σ ι τ : Type) where
  view : τ → σ
  step : τ → ι → τ

namespace Interp

variable {σ ι ε τ α β γ : Type} (I : Interp σ ι τ)

def exec : Prog σ ι ε α → τ → Except ε α × τ
  | .ret a, t => (.ok a, t)
  | .fail e, t => (.error e, t)
  | .read k, t => exec (k (I.view t)) t
  | .call c k, t => exec k (I.step t c)

/-- Every call meets `ok` in the state it is issued in. -/
def Along (ok : τ → ι → Prop) : Prog σ ι ε α → τ → Prop
  | .ret _, _ => True
  | .fail _, _ => True
  | .read k, t => Along ok (k (I.view t)) t
  | .call c k, t => ok t c ∧ Along ok k (I.step t c)

instance decidableAlong (ok : τ → ι → Prop) [∀ t c, Decidable (ok t c)] :
    ∀ (p : Prog σ ι ε α) (t : τ), Decidable (I.Along ok p t)
  | .ret _, _ => isTrue trivial
  | .fail _, _ => isTrue trivial
  | .read k, t => decidableAlong ok (k (I.view t)) t
  | .call c k, t =>
    have := decidableAlong ok k (I.step t c)
    inferInstanceAs (Decidable (ok t c ∧ I.Along ok k (I.step t c)))

/-- From `P`, as long as the calls meet `ok`, all calls meet `good` and the outcome meets `Q`. -/
def Triple (ok good : τ → ι → Prop) (P : τ → Prop) (p : Prog σ ι ε α)
    (Q : Except ε α → τ → Prop) : Prop :=
  ∀ t, P t → I.Along ok p t → I.Along good p t ∧ Q (I.exec p t).1 (I.exec p t).2

/-- The condition on calls that restricts none. -/
abbrev always : τ → ι → Prop := fun _ _ => True

variable {I} {ok good : τ → ι → Prop} {P P' : τ → Prop}

theorem exec_bind (p : Prog σ ι ε α) (f : α → Prog σ ι ε β) (t : τ) :
    I.exec (p.bind f) t = match I.exec p t with
      | (.ok a, t') => I.exec (f a) t'
      | (.error e, t') => (.error e, t') := by
  induction p generalizing t with
  | ret a => rfl
  | fail e => rfl
  | read k ih => exact ih (I.view t) t
  | call c k ih => exact ih (I.step t c)

theorem along_bind (p : Prog σ ι ε α) (f : α → Prog σ ι ε β) (t : τ) :
    I.Along ok (p.bind f) t ↔ I.Along ok p t ∧
      ∀ a t', I.exec p t = (.ok a, t') → I.Along ok (f a) t' := by
  induction p generalizing t with
  | ret a => simp [Prog.bind, Along, exec]
  | fail e => simp [Prog.bind, Along, exec]
  | read k ih => exact ih (I.view t) t
  | call c k ih =>
    show ok t c ∧ _ ↔ (ok t c ∧ _) ∧ _
    rw [ih, and_assoc]
    rfl

theorem exec_andThen (p : Prog σ ι ε α) (q : Prog σ ι ε β) (t : τ) :
    I.exec (p.andThen q) t = I.exec q (I.exec p t).2 := by
  induction p generalizing t with
  | ret a => rfl
  | fail e => rfl
  | read k ih => exact ih (I.view t) t
  | call c k ih => exact ih (I.step t c)

theorem along_andThen (p : Prog σ ι ε α) (q : Prog σ ι ε β) (t : τ) :
    I.Along ok (p.andThen q) t ↔ I.Along ok p t ∧ I.Along ok q (I.exec p t).2 := by
  induction p generalizing t with
  | ret a => simp [Prog.andThen, Along, exec]
  | fail e => simp [Prog.andThen, Along, exec]
  | read k ih => exact ih (I.view t) t
  | call c k ih =>
    show ok t c ∧ _ ↔ (ok t c ∧ _) ∧ _
    rw [ih, and_assoc]
    rfl

theorem exec_handle (p : Prog σ ι ε α) (h : ε → Prog σ ι ε α) (t : τ) :
    I.exec (p.handle h) t = match I.exec p t with
      | (.ok a, t') => (.ok a, t')
      | (.error e, t') => I.exec (h e) t' := by
  induction p generalizing t with
  | ret a => rfl
  | fail e => rfl
  | read k ih => exact ih (I.view t) t
  | call c k ih => exact ih (I.step t c)

theorem along_handle (p : Prog σ ι ε α) (h : ε → Prog σ ι ε α) (t : τ) :
    I.Along ok (p.handle h) t ↔ I.Along ok p t ∧
      ∀ e t', I.exec p t = (.error e, t') → I.Along ok (h e) t' := by
  induction p generalizing t with
  | ret a => simp [Prog.handle, Along, exec]
  | fail e => simp [Prog.handle, Along, exec]
  | read k ih => exact ih (I.view t) t
  | call c k ih =>
    show ok t c ∧ _ ↔ (ok t c ∧ _) ∧ _
    rw [ih, and_assoc]
    rfl

theorem along_of_forall (h : ∀ t c, ok t c) (p : Prog σ ι ε α) (t : τ) : I.Along ok p t := by
  induction p generalizing t with
  | ret a => trivial
  | fail e => trivial
  | read k ih => exact ih (I.view t) t
  | call c k ih => exact ⟨h t c, ih (I.step t c)⟩

theorem along_mono (h : ∀ t c, ok t c → good t c) (p : Prog σ ι ε α) {t : τ} (hp : I.Along ok p t) :
    I.Along good p t := by
  induction p generalizing t with
  | ret a => trivial
  | fail e => trivial
  | read k ih => exact ih (I.view t) hp
  | call c k ih => exact ⟨h t c hp.1, ih hp.2⟩

/-- Programs of calls that keep an invariant keep it. -/
theorem exec_of_only {p : ι → Prop} {q : Prog σ ι ε α} (hq : q.Only p) {Inv : τ → Prop}
    (hstep : ∀ t c, Inv t → p c → Inv (I.step t c)) {t : τ} (ht : Inv t) : Inv (I.exec q t).2 := by
  induction q generalizing t with
  | ret a => exact ht
  | fail e => exact ht
  | read k ih => exact ih (I.view t) (hq _) ht
  | call c k ih => exact ih hq.2 (hstep t c ht hq.1)

/-- An interpretation with more state gives the same outcome where it does the same to the part that
the other one has. -/
theorem exec_project {υ : Type} {J : Interp σ ι υ} (proj : υ → τ)
    (hview : ∀ u, J.view u = I.view (proj u))
    (hstep : ∀ u c, proj (J.step u c) = I.step (proj u) c) (p : Prog σ ι ε α) (u : υ) :
    I.exec p (proj u) = ((J.exec p u).1, proj (J.exec p u).2) := by
  induction p generalizing u with
  | ret a => rfl
  | fail e => rfl
  | read k ih =>
    rw [exec, ← hview]
    exact ih (J.view u) u
  | call c k ih =>
    rw [exec, ← hstep]
    exact ih (J.step u c)

/-- Where an invariant makes two conditions on calls equivalent, they hold along the same programs. -/
theorem along_iff {Inv : τ → Prop} (hstep : ∀ t c, Inv t → ok t c → Inv (I.step t c))
    (hiff : ∀ t c, Inv t → (good t c ↔ ok t c)) (p : Prog σ ι ε α) {t : τ} (ht : Inv t) :
    I.Along good p t ↔ I.Along ok p t := by
  induction p generalizing t with
  | ret a => exact Iff.rfl
  | fail e => exact Iff.rfl
  | read k ih => exact ih (I.view t) ht
  | call c k ih =>
    constructor
    · intro h
      have hok := (hiff t c ht).mp h.1
      exact ⟨hok, (ih (hstep t c ht hok)).mp h.2⟩
    · intro h
      exact ⟨(hiff t c ht).mpr h.1, (ih (hstep t c ht h.1)).mpr h.2⟩

namespace Triple

theorem ret {a : α} {Q : Except ε α → τ → Prop} (h : ∀ t, P t → Q (.ok a) t) :
    I.Triple ok good P (.ret a) Q := by
  intro t ht _
  exact ⟨trivial, h t ht⟩

theorem fail {e : ε} {Q : Except ε α → τ → Prop} (h : ∀ t, P t → Q (.error e) t) :
    I.Triple ok good P (.fail e) Q := by
  intro t ht _
  exact ⟨trivial, h t ht⟩

theorem read {k : σ → Prog σ ι ε α} {Q : Except ε α → τ → Prop}
    (h : ∀ s, I.Triple ok good (fun t => P t ∧ I.view t = s) (k s) Q) :
    I.Triple ok good P (.read k) Q := by
  intro t ht hok
  exact h (I.view t) t ⟨ht, rfl⟩ hok

theorem call {c : ι} {k : Prog σ ι ε α} {Q : Except ε α → τ → Prop}
    (hgood : ∀ t, P t → ok t c → good t c)
    (hk : I.Triple ok good (fun t' => ∃ t, P t ∧ ok t c ∧ t' = I.step t c) k Q) :
    I.Triple ok good P (.call c k) Q := by
  intro t ht hok
  have hrest := hk (I.step t c) ⟨t, ht, hok.1, rfl⟩ hok.2
  exact ⟨⟨hgood t ht hok.1, hrest.1⟩, hrest.2⟩

theorem issue {c : ι} {Q : Except ε Unit → τ → Prop} (hgood : ∀ t, P t → ok t c → good t c)
    (h : ∀ t, P t → ok t c → Q (.ok ()) (I.step t c)) :
    I.Triple ok good P (Prog.issue c) Q := by
  apply call hgood
  apply ret
  intro t' ht'
  obtain ⟨t, ht, hok, rfl⟩ := ht'
  exact h t ht hok

/-- The rule for composition; an error of the first program is an error of the whole. -/
theorem bind {p : Prog σ ι ε α} {f : α → Prog σ ι ε β} {R : α → τ → Prop}
    {Q : Except ε β → τ → Prop}
    (hp : I.Triple ok good P p fun r t => match r with
      | .ok a => R a t
      | .error e => Q (.error e) t)
    (hf : ∀ a, I.Triple ok good (R a) (f a) Q) : I.Triple ok good P (p.bind f) Q := by
  intro t ht hok
  rw [along_bind] at hok
  have hfirst := hp t ht hok.1
  rw [along_bind, exec_bind]
  cases hexec : I.exec p t with
  | mk r t' =>
    rw [hexec] at hfirst
    cases r with
    | error e =>
      refine ⟨⟨hfirst.1, ?_⟩, hfirst.2⟩
      intro a u hu
      cases hu
    | ok a =>
      have hrest := hf a t' hfirst.2 (hok.2 a t' hexec)
      refine ⟨⟨hfirst.1, ?_⟩, hrest.2⟩
      intro b u hu
      cases hu
      exact hrest.1

theorem andThen {p : Prog σ ι ε α} {q : Prog σ ι ε β} {R : τ → Prop} {Q : Except ε β → τ → Prop}
    (hp : I.Triple ok good P p fun _ => R) (hq : I.Triple ok good R q Q) :
    I.Triple ok good P (p.andThen q) Q := by
  intro t ht hok
  rw [along_andThen] at hok
  have hfirst := hp t ht hok.1
  have hrest := hq _ hfirst.2 hok.2
  rw [along_andThen, exec_andThen]
  exact ⟨⟨hfirst.1, hrest.1⟩, hrest.2⟩

/-- The rule for error handlers. -/
theorem handle {p : Prog σ ι ε α} {h : ε → Prog σ ι ε α} {R : ε → τ → Prop}
    {Q : Except ε α → τ → Prop}
    (hp : I.Triple ok good P p fun r t => match r with
      | .ok a => Q (.ok a) t
      | .error e => R e t)
    (hh : ∀ e, I.Triple ok good (R e) (h e) Q) : I.Triple ok good P (p.handle h) Q := by
  intro t ht hok
  rw [along_handle] at hok
  have hfirst := hp t ht hok.1
  rw [along_handle, exec_handle]
  cases hexec : I.exec p t with
  | mk r t' =>
    rw [hexec] at hfirst
    cases r with
    | ok a =>
      refine ⟨⟨hfirst.1, ?_⟩, hfirst.2⟩
      intro e u hu
      cases hu
    | error e =>
      have hrest := hh e t' hfirst.2 (hok.2 e t' hexec)
      refine ⟨⟨hfirst.1, ?_⟩, hrest.2⟩
      intro e' u hu
      cases hu
      exact hrest.1

/-- The rule for loops, with an invariant on what is done, what is left and the carried value. -/
theorem foldl {f : β → γ → Prog σ ι ε β} {R : List γ → List γ → β → τ → Prop}
    {Q : Except ε β → τ → Prop} (xs : List γ)
    (hf : ∀ pre x post b, xs = pre ++ x :: post →
      I.Triple ok good (R pre (x :: post) b) (f b x) fun r t => match r with
        | .ok b' => R (pre ++ [x]) post b' t
        | .error e => Q (.error e) t)
    (hend : ∀ b t, R xs [] b t → Q (.ok b) t) (b : β) :
    I.Triple ok good (R [] xs b) (Prog.foldl f b xs) Q := by
  suffices hgen : ∀ pre post b, xs = pre ++ post →
      I.Triple ok good (R pre post b) (Prog.foldl f b post) Q from hgen [] xs b rfl
  intro pre post
  induction post generalizing pre with
  | nil =>
    intro b hxs
    rw [List.append_nil] at hxs
    subst hxs
    exact ret fun t ht => hend b t ht
  | cons x post ih =>
    intro b hxs
    apply bind (hf pre x post b hxs)
    intro b'
    exact ih (pre ++ [x]) b' (by rw [hxs, List.append_assoc]; rfl)

/-- The rule for loops that carry no value and always complete. -/
theorem each {f : Unit → γ → Prog σ ι ε Unit} {R : List γ → τ → Prop} (xs : List γ)
    (hf : ∀ pre x post, xs = pre ++ x :: post → I.Triple ok good (R pre) (f () x)
      fun r t => r = .ok () ∧ R (pre ++ [x]) t) :
    I.Triple ok good (R []) (Prog.foldl f () xs) fun r t => r = .ok () ∧ R xs t := by
  apply foldl (R := fun pre _ _ t => R pre t) xs
  · intro pre x post _ hxs t ht hok
    obtain ⟨hgood, heq, hR⟩ := hf pre x post hxs t ht hok
    rw [heq]
    exact ⟨hgood, hR⟩
  · exact fun _ t ht => ⟨rfl, ht⟩

theorem bind_keeps {p : Prog σ ι ε α} {f : α → Prog σ ι ε β}
    (hp : I.Triple ok good P p fun _ => P) (hf : ∀ a, I.Triple ok good P (f a) fun _ => P) :
    I.Triple ok good P (p.bind f) fun _ => P := by
  apply bind (R := fun _ => P) ?_ hf
  intro t ht hok
  obtain ⟨hgood, hP⟩ := hp t ht hok
  refine ⟨hgood, ?_⟩
  cases (I.exec p t).1 with
  | ok a => exact hP
  | error e => exact hP

/-- A loop keeps what its body keeps. -/
theorem loop {f : β → γ → Prog σ ι ε β} (hf : ∀ b x, I.Triple ok good P (f b x) fun _ => P)
    (xs : List γ) (b : β) : I.Triple ok good P (Prog.foldl f b xs) fun _ => P := by
  induction xs generalizing b with
  | nil => exact ret fun t ht => ht
  | cons x xs ih => exact bind_keeps (hf b x) ih

theorem conseq {p : Prog σ ι ε α} {Q Q' : Except ε α → τ → Prop} (h : I.Triple ok good P p Q)
    (hP : ∀ t, P' t → P t) (hQ : ∀ r t, Q r t → Q' r t) : I.Triple ok good P' p Q' := by
  intro t ht hok
  have hp := h t (hP t ht) hok
  exact ⟨hp.1, hQ _ _ hp.2⟩

/-- A triple from each state that meets the precondition. -/
theorem of_states {p : Prog σ ι ε α} {Q : Except ε α → τ → Prop}
    (h : ∀ t, P t → I.Triple ok good (fun u => u = t) p Q) : I.Triple ok good P p Q :=
  fun t ht hok => h t ht t rfl hok

/-- What a triple without a condition on calls says about one run. -/
theorem run {p : Prog σ ι ε α} {Q : Except ε α → τ → Prop} (h : I.Triple always good P p Q)
    {t : τ} (ht : P t) : I.Along good p t ∧ Q (I.exec p t).1 (I.exec p t).2 :=
  h t ht (along_of_forall (fun _ _ => trivial) p t)

/-- Programs that each keep an invariant keep it in any order. -/
theorem session {Inv : τ → Prop} {ps : List (Prog σ ι ε Unit)}
    (h : ∀ p ∈ ps, I.Triple ok good Inv p fun _ => Inv) :
    I.Triple ok good Inv (Prog.session ps) fun _ => Inv := by
  induction ps with
  | nil => exact ret fun t ht => ht
  | cons p ps ih =>
    exact (h p List.mem_cons_self).andThen (ih fun q hq => h q (List.mem_cons_of_mem p hq))

/-- An invariant that every permitted call keeps is kept by every program. -/
theorem invariant {Inv : τ → Prop} (hstep : ∀ t c, Inv t → ok t c → Inv (I.step t c))
    (hgood : ∀ t c, Inv t → ok t c → good t c) (p : Prog σ ι ε α) :
    I.Triple ok good Inv p fun _ => Inv := by
  induction p with
  | ret a => exact ret fun t ht => ht
  | fail e => exact fail fun t ht => ht
  | read k ih => exact read fun s => (ih s).conseq (fun t ht => ht.1) fun _ _ h => h
  | call c k ih =>
    apply call fun t ht hok => hgood t c ht hok
    apply ih.conseq ?_ fun _ _ h => h
    intro t' ht'
    obtain ⟨t, ht, hok, rfl⟩ := ht'
    exact hstep t c ht hok

end Triple

end Interp

end Hero
