import Hero.Framework.Expansion
import Hero.Toolchain.Hero64

/-!
# Running a module

The functions of a module call each other, the support functions and what is linked from outside.
A module whose blocks do the same as those of another, up to the names of the registers, computes
the same results with the same accesses.
-/

namespace Hero.Toolchain

variable {R S : Type}

/-- A call of a function by its name. -/
abbrev Calls := String → List Nat → Heap → Option (Nat × Heap)

/-- Calls go to the support functions first, whose bodies are inline assembly. -/
def Target.invoke (t : Target) (call : Calls) : Calls := fun f args h =>
  t.support f args h <|> call f args h

def Op.eval (t : Target) (call : Calls) (regs : R → Nat) (h : Heap) : Op R → Option (Nat × Heap)
  | .load ty space p => some (t.loadBits space (t.dl.valueBits ty) (p.eval t regs) h)
  | .store ty space v p =>
    some (0, t.storeBits space (t.dl.valueBits ty) (p.eval t regs) (v.eval t regs) h)
  | .atomic name space p args =>
    t.atomic name space (p.eval t regs) (args.map (Operand.eval t regs)) h
  | .mem k dst src args =>
    (t.mem k dst src (args.map (Operand.eval t regs)) h).map fun h' => (0, h')
  | .addrSpaceCast src dst v => some (t.addrSpaceCast src dst (v.eval t regs), h)
  | .ptrToInt bits v => some (v.eval t regs % 2 ^ bits, h)
  | .intToPtr space v => some (v.eval t regs % 2 ^ t.dl.pointerBits space, h)
  | .bitCast _ v => some (v.eval t regs, h)
  | .call f args => t.invoke call f (args.map (Operand.eval t regs)) h
  | .callIndirect p args =>
    t.invoke call (t.functionAt (p.eval t regs)) (args.map (Operand.eval t regs)) h
  | .compute opcode args => some (t.compute opcode (args.map (Operand.eval t regs)), h)

/-- One instruction, whose result goes to its register. -/
def Inst.step [DecidableEq R] (t : Target) (call : Calls) (x : (R → Nat) × Heap) (i : Inst R) :
    Option ((R → Nat) × Heap) :=
  (i.op.eval t call x.1 x.2).map fun r => (Function.update x.1 i.id r.1, r.2)

/-- Sets registers to values. -/
def assign [DecidableEq R] (regs : R → Nat) : List R → List Nat → R → Nat
  | r :: rs, v :: vs => assign (Function.update regs r v) rs vs
  | _, _ => regs

def chosen (v : Nat) (cases : List (Nat × Edge R)) (default : Edge R) : Edge R :=
  ((cases.find? fun c => c.1 = v).map Prod.snd).getD default

/-- Runs a function from one of its blocks; the bound is on the blocks it goes through. -/
def Func.runFrom [DecidableEq R] (t : Target) (call : Calls) (f : Func R) :
    Nat → Nat → List Nat → (R → Nat) → Heap → Option (Nat × Heap)
  | 0, _, _, _, _ => none
  | n + 1, l, args, regs, h => do
    let b ← f.blocks[l]?
    let (regs, h) ← b.body.foldlM (Inst.step t call) (assign regs b.params args, h)
    match b.term with
    | .ret v => some (v.eval t regs, h)
    | .switch v cases default =>
      let e := chosen (v.eval t regs) cases default
      runFrom t call f n e.target (e.args.map (Operand.eval t regs)) regs h
    | .unreachable => none

/-- Calls a function of a module, or one linked from outside.  The bound is on the depth of calls
and on the blocks each of them goes through. -/
def Module.call [DecidableEq R] (t : Target) (M : Module R) : Nat → Calls
  | 0, _, _, _ => none
  | n + 1, f, args, h =>
    match List.find? (fun g => g.name = f) M with
    | some g => g.runFrom t (M.call t n) n 0 [] (assign (fun _ => 0) g.params args) h
    | none => t.external f args h

/-- The outcomes of a call. -/
def Module.Returns [DecidableEq R] (t : Target) (M : Module R) (f : String) (args : List Nat)
    (h : Heap) (r : Nat × Heap) : Prop :=
  ∃ n, M.call t n f args h = some r

section Renaming

/-- Renames the registers and changes the constants. -/
def Operand.map (ρ : R → S) (g : Const → Const) : Operand R → Operand S
  | reg r => reg (ρ r)
  | const c => const (g c)

def Op.map (ρ : R → S) (g : Const → Const) : Op R → Op S
  | .load ty space p => .load ty space (p.map ρ g)
  | .store ty space v p => .store ty space (v.map ρ g) (p.map ρ g)
  | .atomic name space p args => .atomic name space (p.map ρ g) (args.map (Operand.map ρ g))
  | .mem k dst src args => .mem k dst src (args.map (Operand.map ρ g))
  | .addrSpaceCast src dst v => .addrSpaceCast src dst (v.map ρ g)
  | .ptrToInt bits v => .ptrToInt bits (v.map ρ g)
  | .intToPtr space v => .intToPtr space (v.map ρ g)
  | .bitCast ty v => .bitCast ty (v.map ρ g)
  | .call f args => .call f (args.map (Operand.map ρ g))
  | .callIndirect p args => .callIndirect (p.map ρ g) (args.map (Operand.map ρ g))
  | .compute opcode args => .compute opcode (args.map (Operand.map ρ g))

def Inst.map (ρ : R → S) (g : Const → Const) (i : Inst R) : Inst S := ⟨ρ i.id, i.op.map ρ g⟩

def Edge.map (ρ : R → S) (g : Const → Const) (e : Edge R) : Edge S :=
  ⟨e.target, e.args.map (Operand.map ρ g)⟩

def Term.map (ρ : R → S) (g : Const → Const) : Term R → Term S
  | .ret v => .ret (v.map ρ g)
  | .switch v cases default =>
    .switch (v.map ρ g) (cases.map fun c => (c.1, c.2.map ρ g)) (default.map ρ g)
  | .unreachable => .unreachable

variable {t : Target} {ρ : R → S} {g : Const → Const} {regs : S → Nat}

section Twice

variable {T : Type} {σ : S → T} {k : Const → Const}

theorem Operand.map_map (o : Operand R) :
    (o.map ρ g).map σ k = o.map (σ ∘ ρ) (k ∘ g) := by
  cases o <;> rfl

theorem Op.map_map (op : Op R) : (op.map ρ g).map σ k = op.map (σ ∘ ρ) (k ∘ g) := by
  cases op <;> simp [Op.map, Operand.map_map]

theorem Inst.map_map (i : Inst R) : (i.map ρ g).map σ k = i.map (σ ∘ ρ) (k ∘ g) := by
  simp only [Inst.map, Op.map_map, Function.comp_apply]

theorem Term.map_map (b : Term R) : (b.map ρ g).map σ k = b.map (σ ∘ ρ) (k ∘ g) := by
  cases b <;> simp [Term.map, Edge.map, Operand.map_map]

end Twice

theorem Operand.eval_map (hg : ∀ c, (g c).eval t = c.eval t) (o : Operand R) :
    (o.map ρ g).eval t regs = o.eval t (regs ∘ ρ) := by
  cases o with
  | reg r => rfl
  | const c => exact hg c

theorem Operand.map_eval_map (hg : ∀ c, (g c).eval t = c.eval t) (args : List (Operand R)) :
    (args.map (Operand.map ρ g)).map (Operand.eval t regs) =
      args.map (Operand.eval t (regs ∘ ρ)) := by
  rw [List.map_map]
  congr 1
  funext o
  exact o.eval_map hg

theorem Op.eval_map (hg : ∀ c, (g c).eval t = c.eval t) {call : Calls} {h : Heap} (op : Op R) :
    (op.map ρ g).eval t call regs h = op.eval t call (regs ∘ ρ) h := by
  cases op <;> simp only [Op.map, Op.eval, Operand.eval_map hg, Operand.map_eval_map hg]

@[simp] theorem Edge.map_target (e : Edge R) : (e.map ρ g).target = e.target := rfl

@[simp] theorem Edge.map_args (e : Edge R) :
    (e.map ρ g).args = e.args.map (Operand.map ρ g) := rfl

theorem chosen_map (v : Nat) (cases : List (Nat × Edge R)) (default : Edge R) :
    chosen v (cases.map fun c => (c.1, c.2.map ρ g)) (default.map ρ g) =
      (chosen v cases default).map ρ g := by
  simp only [chosen, List.find?_map, Option.map_map]
  cases h : cases.find? ((fun c => decide (c.1 = v)) ∘ fun c => (c.1, c.2.map ρ g)) with
  | none =>
    have hnone : cases.find? (fun c => decide (c.1 = v)) = none := h
    rw [hnone]
    rfl
  | some c =>
    have hsome : cases.find? (fun c => decide (c.1 = v)) = some c := h
    rw [hsome]
    rfl

variable [DecidableEq R] [DecidableEq S]

theorem update_comp (hρ : ρ.Injective) (r : R) (v : Nat) :
    Function.update regs (ρ r) v ∘ ρ = Function.update (regs ∘ ρ) r v :=
  Function.update_comp_eq_of_injective regs hρ r v

theorem assign_comp (hρ : ρ.Injective) (rs : List R) (vs : List Nat) :
    assign regs (rs.map ρ) vs ∘ ρ = assign (regs ∘ ρ) rs vs := by
  induction rs generalizing regs vs with
  | nil => rfl
  | cons r rs ih =>
    cases vs with
    | nil => rfl
    | cons v vs =>
      simp only [List.map_cons, assign]
      rw [ih, update_comp hρ]

/-- What is left of a state when only the old registers are looked at. -/
def forget (ρ : R → S) (x : (S → Nat) × Heap) : (R → Nat) × Heap := (x.1 ∘ ρ, x.2)

theorem Inst.step_map (hρ : ρ.Injective) (hg : ∀ c, (g c).eval t = c.eval t) {call : Calls}
    (i : Inst R) (x : (S → Nat) × Heap) :
    ((i.map ρ g).step t call x).map (forget ρ) = i.step t call (forget ρ x) := by
  simp only [Inst.step, Inst.map, Op.eval_map hg, Option.map_map, forget]
  congr 1
  funext r
  simp only [Function.comp_apply, forget, update_comp hρ]

end Renaming

section Simulation

variable [DecidableEq R] [DecidableEq S]

/-- A block that does the same as another one up to the names of the registers. -/
structure Block.Simulates (t : Target) (ρ : R → S) (b : Block R) (b' : Block S) : Prop where
  params : b'.params = b.params.map ρ
  body : ∀ call x, (b'.body.foldlM (Inst.step t call) x).map (forget ρ) =
    b.body.foldlM (Inst.step t call) (forget ρ x)
  term : ∃ g, (∀ c : Const, (g c).eval t = c.eval t) ∧ b'.term = b.term.map ρ g

structure Func.Simulates (t : Target) (ρ : R → S) (f : Func R) (f' : Func S) : Prop where
  name : f'.name = f.name
  params : f'.params = f.params.map ρ
  blocks : List.Forall₂ (Block.Simulates t ρ) f.blocks f'.blocks

variable {t : Target} {ρ : R → S}

theorem Func.Simulates.runFrom (hρ : ρ.Injective) {call : Calls} {f : Func R} {f' : Func S}
    (hf : f.Simulates t ρ f') {n l : Nat} {args : List Nat} {regs : S → Nat} {h : Heap} :
    f'.runFrom t call n l args regs h = f.runFrom t call n l args (regs ∘ ρ) h := by
  induction n generalizing l args regs h with
  | zero => rfl
  | succ n ih =>
    simp only [Func.runFrom]
    have hblock := List.forall₂_iff_get.mp hf.blocks
    by_cases hl : l < f.blocks.length
    · have hl' : l < f'.blocks.length := hblock.1 ▸ hl
      have hsim : (f.blocks[l]).Simulates t ρ f'.blocks[l] := hblock.2 l hl hl'
      rw [List.getElem?_eq_getElem hl, List.getElem?_eq_getElem hl']
      simp only [Option.bind_eq_bind, Option.bind_some]
      obtain ⟨g, hg, hterm⟩ := hsim.term
      have hbody := hsim.body call (assign regs f'.blocks[l].params args, h)
      rw [hsim.params] at hbody ⊢
      rw [show forget ρ (assign regs (f.blocks[l].params.map ρ) args, h) =
        (assign (regs ∘ ρ) f.blocks[l].params args, h) by
          simp only [forget, assign_comp hρ]] at hbody
      rw [← hbody, Option.bind_map]
      congr 1
      funext x
      rw [hterm]
      cases f.blocks[l].term with
      | ret v => simp only [Term.map, Function.comp_apply, forget, Operand.eval_map hg]
      | switch v cases default =>
        simp only [Term.map, Function.comp_apply, forget, Operand.eval_map hg, chosen_map,
          Edge.map_target, Edge.map_args, Operand.map_eval_map hg]
        exact ih
      | unreachable => rfl
    · have hl' : ¬ l < f'.blocks.length := hblock.1 ▸ hl
      rw [List.getElem?_eq_none (by omega), List.getElem?_eq_none (by omega)]
      rfl

theorem find_simulates {M : Module R} {M' : Module S}
    (hM : List.Forall₂ (Func.Simulates t ρ) M M') (f : String) :
    (List.find? (fun g => g.name = f) M = none ∧ List.find? (fun g => g.name = f) M' = none) ∨
      ∃ g g', List.find? (fun g => g.name = f) M = some g ∧
        List.find? (fun g => g.name = f) M' = some g' ∧ g.Simulates t ρ g' := by
  induction hM with
  | nil => exact Or.inl ⟨rfl, rfl⟩
  | @cons g g' M M' hg _ ih =>
    by_cases hname : g.name = f
    · exact Or.inr ⟨g, g', by simp [hname], by simp [hg.name, hname], hg⟩
    · simpa [hname, hg.name] using ih

/-- Functions that do the same, called from each other, return the same. -/
theorem call_eq_of_simulates (hρ : ρ.Injective) {M : Module R} {M' : Module S}
    (hM : List.Forall₂ (Func.Simulates t ρ) M M') (n : Nat) :
    Module.call t M' n = Module.call t M n := by
  induction n with
  | zero => rfl
  | succ n ih =>
    funext f args h
    simp only [Module.call, ih]
    obtain ⟨hnone, hnone'⟩ | ⟨g, g', hg, hg', hsim⟩ := find_simulates hM f
    · rw [hnone, hnone']
    · rw [hg, hg']
      simp only [hsim.runFrom hρ, hsim.params, assign_comp hρ]
      rfl

end Simulation

end Hero.Toolchain
