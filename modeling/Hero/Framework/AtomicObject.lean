import Hero.Framework.Machine
import Mathlib.Algebra.BigOperators.Group.Finset.Basic
import Mathlib.Tactic.Abel

/-!
# Atomic objects

The automaton of an object whose operations take effect at one instant between call and return.
A concurrent implementation linearises when each of its histories of calls and returns is a history
of this automaton.
-/

namespace Hero.AtomicObject

/-- Where a caller stands in its current operation. -/
inductive Phase (Op Ret : Type*) where
  | idle
  | pending (op : Op)
  | done (op : Op) (r : Ret)

inductive Event (Core Op Ret : Type*) where
  | call (c : Core) (op : Op)
  | ret (c : Core) (op : Op) (r : Ret)
  deriving DecidableEq

inductive Act (Core Op Ret : Type*) where
  | call (c : Core) (op : Op)
  | commit (c : Core)
  | ret (c : Core)

structure State (Core V Op Ret : Type*) where
  value : V
  phase : Core → Phase Op Ret

variable {Core V Op Ret : Type*} [DecidableEq Core]

def State.goto (s : State Core V Op Ret) (c : Core) (p : Phase Op Ret) : State Core V Op Ret :=
  { s with phase := Function.update s.phase c p }

def init (v : V) : State Core V Op Ret := ⟨v, fun _ => .idle⟩

/-- The object applies a pending operation in one step, at any time before its return. -/
def machine (apply : V → Op → V × Ret) :
    Machine (State Core V Op Ret) (Act Core Op Ret) (Event Core Op Ret) := fun s act =>
  match act with
  | .call c op =>
    match s.phase c with
    | .idle => some (s.goto c (.pending op), [.call c op])
    | _ => none
  | .commit c =>
    match s.phase c with
    | .pending op =>
      some ({ s with value := (apply s.value op).1 }.goto c (.done op (apply s.value op).2), [])
    | _ => none
  | .ret c =>
    match s.phase c with
    | .done op r => some (s.goto c .idle, [.ret c op r])
    | _ => none

/-- `h` is a history of the object that started with `v` and leaves it in `s`. -/
def Linearizes (apply : V → Op → V × Ret) (v : V) (h : List (Event Core Op Ret))
    (s : State Core V Op Ret) : Prop :=
  ∃ acts, (machine apply).run (init v) acts = some (s, h)

section Steps

variable {apply : V → Op → V × Ret} {v : V} {h : List (Event Core Op Ret)}
  {s s' : State Core V Op Ret}

theorem linearizes_init : Linearizes apply v [] (init v : State Core V Op Ret) := ⟨[], rfl⟩

theorem Linearizes.step {act : Act Core Op Ret} {es : List (Event Core Op Ret)}
    (hs : Linearizes apply v h s) (hstep : machine apply s act = some (s', es)) :
    Linearizes apply v (h ++ es) s' := by
  obtain ⟨acts, hrun⟩ := hs
  refine ⟨acts ++ [act], Machine.run_append.mpr ⟨s, h, es, hrun, ?_, rfl⟩⟩
  exact Machine.run_cons.mpr ⟨s', es, [], hstep, rfl, List.append_nil _⟩

theorem Linearizes.call {c : Core} (hs : Linearizes apply v h s) (hc : s.phase c = .idle)
    (op : Op) : Linearizes apply v (h ++ [.call c op]) (s.goto c (.pending op)) := by
  have hstep : machine apply s (.call c op) = some (s.goto c (.pending op), [.call c op]) := by
    simp [machine, hc]
  exact hs.step hstep

theorem Linearizes.commit {c : Core} {op : Op} (hs : Linearizes apply v h s)
    (hc : s.phase c = .pending op) :
    Linearizes apply v h
      ({ s with value := (apply s.value op).1 }.goto c (.done op (apply s.value op).2)) := by
  have hstep : machine apply s (.commit c) = some
      ({ s with value := (apply s.value op).1 }.goto c (.done op (apply s.value op).2), []) := by
    simp [machine, hc]
  simpa using hs.step hstep

theorem Linearizes.ret {c : Core} {op : Op} {r : Ret} (hs : Linearizes apply v h s)
    (hc : s.phase c = .done op r) : Linearizes apply v (h ++ [.ret c op r]) (s.goto c .idle) := by
  have hstep : machine apply s (.ret c) = some (s.goto c .idle, [.ret c op r]) := by
    simp [machine, hc]
  exact hs.step hstep

end Steps

section Activity

variable {apply : V → Op → V × Ret} {v : V} {h : List (Event Core Op Ret)}
  {s : State Core V Op Ret}

/-- The operation a caller is in. -/
def Phase.op : Phase Op Ret → Option Op
  | .idle => none
  | .pending op => some op
  | .done op _ => some op

/-- The operation a history leaves a caller in. -/
def openOp (c : Core) (h : List (Event Core Op Ret)) : Option Op :=
  h.foldl (fun o e => match e with
    | .call k op => if k = c then some op else o
    | .ret k _ _ => if k = c then none else o) none

@[simp] theorem openOp_call (c k : Core) (op : Op)
    (h : List (Event Core Op Ret)) :
    openOp c (h ++ [.call k op]) = if k = c then some op else openOp c h := by
  simp [openOp]

@[simp] theorem openOp_ret (c k : Core) (op : Op) (r : Ret)
    (h : List (Event Core Op Ret)) :
    openOp c (h ++ [.ret k op r]) = if k = c then none else openOp c h := by
  simp [openOp]

private theorem op_goto (s : State Core V Op Ret) (c k : Core) (p : Phase Op Ret) :
    ((s.goto k p).phase c).op = if k = c then p.op else (s.phase c).op := by
  by_cases hk : k = c
  · simp [State.goto, hk]
  · simp [State.goto, hk, Function.update_of_ne (Ne.symm hk)]

theorem Linearizes.op_eq (hs : Linearizes apply v h s) (c : Core) :
    (s.phase c).op = openOp c h := by
  obtain ⟨acts, hrun⟩ := hs
  have hstep : ∀ (s : State Core V Op Ret) h act s' es,
      (s.phase c).op = openOp c h → True → machine apply s act = some (s', es) →
      (s'.phase c).op = openOp c (h ++ es) := by
    intro s h act s' es hinv _ hact
    cases act with
    | call k op =>
      simp only [machine] at hact
      split at hact
      · cases hact
        rw [op_goto, openOp_call, ← hinv, Phase.op]
      · cases hact
    | commit k =>
      simp only [machine] at hact
      split at hact
      · next op hk =>
        cases hact
        rw [List.append_nil, op_goto, ← hinv]
        split
        · next heq => rw [← heq, hk, Phase.op, Phase.op]
        · rfl
      · cases hact
    | ret k =>
      simp only [machine] at hact
      split at hact
      · cases hact
        rw [op_goto, openOp_ret, ← hinv, Phase.op]
      · cases hact
  exact Machine.run_history (fun s h => (s.phase c).op = openOp c h) _ hstep (h := []) rfl
    (Machine.along_of_forall fun _ _ _ => trivial) hrun

/-- A history whose calls have all returned leaves every caller idle. -/
theorem Linearizes.idle (hs : Linearizes apply v h s) (hclosed : ∀ c, openOp c h = none)
    (c : Core) : s.phase c = .idle := by
  have hop := (hs.op_eq c).trans (hclosed c)
  cases hc : s.phase c with
  | idle => rfl
  | pending op => simp [hc, Phase.op] at hop
  | done op r => simp [hc, Phase.op] at hop

end Activity

section Accounting

variable {G : Type*} [AddCommGroup G] {apply : V → Op → V × Ret} {v : V}
  {h : List (Event Core Op Ret)} {s s' : State Core V Op Ret}

/-- What returned operations contribute. -/
def returned (gain : Op → Ret → G) : List (Event Core Op Ret) → G
  | [] => 0
  | .call _ _ :: h => returned gain h
  | .ret _ op r :: h => gain op r + returned gain h

/-- What an operation that has taken effect and not returned contributes. -/
def Phase.owed (gain : Op → Ret → G) : Phase Op Ret → G
  | .done op r => gain op r
  | _ => 0

omit [DecidableEq Core] in
theorem returned_append (gain : Op → Ret → G) (h k : List (Event Core Op Ret)) :
    returned gain (h ++ k) = returned gain h + returned gain k := by
  induction h with
  | nil => simp [returned]
  | cons e h ih =>
    cases e with
    | call c op => exact ih
    | ret c op r => simp [returned, ih, add_assoc]

variable [Fintype Core]

theorem sum_goto {P : Type*} (f : P → G) (phase : Core → P) (c : Core) (p : P) :
    ∑ k, f (Function.update phase c p k) = ∑ k, f (phase k) - f (phase c) + f p := by
  have hrest : ∀ k ∈ Finset.univ.erase c, f (Function.update phase c p k) = f (phase k) := by
    intro k hk
    rw [Function.update_of_ne (Finset.ne_of_mem_erase hk)]
  rw [← Finset.add_sum_erase _ _ (Finset.mem_univ c), Finset.sum_congr rfl hrest,
    ← Finset.add_sum_erase _ (fun k => f (phase k)) (Finset.mem_univ c), Function.update_self]
  abel

/-- When each operation changes a measure of the object by its gain, the measure is accounted for
by the operations that have returned and those about to. -/
theorem Linearizes.measure (μ : V → G) (gain : Op → Ret → G)
    (hgain : ∀ v op, μ (apply v op).1 = μ v + gain op (apply v op).2)
    (hs : Linearizes apply v h s) :
    μ s.value = μ v + returned gain h + ∑ c, (s.phase c).owed gain := by
  obtain ⟨acts, hrun⟩ := hs
  have hstep : ∀ (s : State Core V Op Ret) h act s' es,
      μ s.value = μ v + returned gain h + ∑ c, (s.phase c).owed gain → True →
      machine apply s act = some (s', es) →
      μ s'.value = μ v + returned gain (h ++ es) + ∑ c, (s'.phase c).owed gain := by
    intro s h act s' es hinv _ hact
    cases act with
    | call c op =>
      simp only [machine] at hact
      split at hact
      · next hc =>
        cases hact
        rw [returned_append]
        simp only [State.goto, sum_goto, hc]
        simpa [returned, Phase.owed] using hinv
      · cases hact
    | commit c =>
      simp only [machine] at hact
      split at hact
      · next op hc =>
        cases hact
        rw [List.append_nil]
        simp only [State.goto, sum_goto, hc, hgain, hinv]
        simp [Phase.owed, add_assoc]
      · cases hact
    | ret c =>
      simp only [machine] at hact
      split at hact
      · next op r hc =>
        cases hact
        rw [returned_append]
        simp only [State.goto, sum_goto, hc, hinv]
        simp only [returned, Phase.owed]
        abel
      · cases hact
  have hinit : μ (init v : State Core V Op Ret).value
      = μ v + returned gain ([] : List (Event Core Op Ret))
        + ∑ c, ((init v : State Core V Op Ret).phase c).owed gain := by
    simp [init, returned, Phase.owed]
  exact Machine.run_history
    (fun s h => μ s.value = μ v + returned gain h + ∑ c, (s.phase c).owed gain) _ hstep hinit
    (Machine.along_of_forall fun _ _ _ => trivial) hrun

/-- Once every call has returned the measure has changed by exactly the returned gains. -/
theorem Linearizes.measure_closed (μ : V → G) (gain : Op → Ret → G)
    (hgain : ∀ v op, μ (apply v op).1 = μ v + gain op (apply v op).2)
    (hs : Linearizes apply v h s) (hclosed : ∀ c, openOp c h = none) :
    μ s.value = μ v + returned gain h := by
  rw [hs.measure μ gain hgain]
  simp [hs.idle hclosed, Phase.owed]

end Accounting

end Hero.AtomicObject
