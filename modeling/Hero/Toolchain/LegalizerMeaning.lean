import Hero.Toolchain.HostPointerLegalizer

/-!
# What the pass on host pointers keeps

Where the values moved through host pointers have a width there are support functions for and a
type that integers can be cast to, the sequences that replace an instruction do what it does, and
the module after the pass does what it did after its memory intrinsics had been expanded.
-/

namespace Hero.Toolchain

variable {R : Type}

section Types

/-- The types the pass can cast integers to and from. -/
def Ty.Castable (ty : Ty) : Prop :=
  ty.isAggregateType = false ∧ (ty.isPtrOrPtrVectorTy = true → ty.isPointerTy = true)

instance (ty : Ty) : Decidable ty.Castable := inferInstanceAs (Decidable (_ ∧ _))

/-- Accesses through host pointers are made outside the support functions, with a width they have
and a castable type.  The loads of the support functions are their own. -/
def Op.Supported (dl : DataLayout) (func : String) : Op R → Prop
  | .load ty space _ => space = dl.hostAS → isSupport func = false →
    dl.valueBits ty ∈ supportWidths ∧ ty.Castable
  | .store ty space _ _ => space = dl.hostAS →
    isSupport func = false ∧ dl.valueBits ty ∈ supportWidths ∧ ty.Castable
  | _ => True

def Module.Supported (dl : DataLayout) (M : Module R) : Prop :=
  ∀ f ∈ M, ∀ i ∈ f.insts, i.op.Supported dl f.name

/-- A cast between the two address spaces keeps the bits of an address. -/
def Target.FlatCasts (t : Target) : Prop :=
  ∀ src dst a, isHostDevice t.dl src dst = true →
    t.addrSpaceCast src dst a = a % 2 ^ t.dl.pointerBits dst

theorem castFromInt_isSome {ty : Ty} (hty : ty.Castable) (v : Operand (Temp R)) :
    (castFromInt ty v).isSome := by
  obtain ⟨haggregate, hpointer⟩ := hty
  cases ty <;> simp_all [castFromInt, Ty.isPointerTy]

theorem castToInt_isSome {ty : Ty} (hty : ty.Castable) (bits : Nat) (v : Operand (Temp R)) :
    (castToInt bits ty v).isSome := by
  obtain ⟨haggregate, hpointer⟩ := hty
  cases ty <;> simp_all [castToInt, Ty.isPointerTy]

end Types

section Values

variable {t : Target} {call : Calls} {regs : Temp R → Nat} {h : Heap}

/-- A value of a type is read back from the integer it was loaded as. -/
theorem castFromInt_eval {ty : Ty} {v : Operand (Temp R)} {op : Op (Temp R)}
    (hop : castFromInt ty v = some op) (hv : v.eval t regs < 2 ^ t.dl.valueBits ty) :
    op.eval t call regs h = some (v.eval t regs, h) := by
  cases ty with
  | ptr space =>
    cases hop
    have hmod : v.eval t regs % 2 ^ t.dl.pointerBits space = v.eval t regs :=
      Nat.mod_eq_of_lt hv
    simp only [Op.eval, hmod]
  | _ =>
    simp only [castFromInt, Option.ite_none_left_eq_some, Option.some.injEq] at hop
    obtain ⟨-, rfl⟩ := hop
    rfl

theorem castToInt_eval {ty : Ty} {bits : Nat} {v : Operand (Temp R)} {op : Op (Temp R)}
    (hop : castToInt bits ty v = some op) :
    ∃ w, op.eval t call regs h = some (w, h) ∧ w % 2 ^ bits = v.eval t regs % 2 ^ bits := by
  cases ty with
  | ptr space =>
    cases hop
    exact ⟨_, rfl, Nat.mod_mod _ _⟩
  | _ =>
    simp only [castToInt, Option.ite_none_left_eq_some, Option.some.injEq] at hop
    obtain ⟨-, rfl⟩ := hop
    exact ⟨_, rfl, rfl⟩

/-- An access sees its address and its value up to their widths. -/
theorem loadBits_mod {space : AddrSpace} {bits a : Nat} :
    t.loadBits space bits (a % 2 ^ t.dl.pointerBits space) h = t.loadBits space bits a h := by
  simp only [Target.loadBits, Target.load_congr (Nat.mod_mod a _)]

theorem storeBits_mod {space : AddrSpace} {bits a v : Nat} :
    t.storeBits space bits (a % 2 ^ t.dl.pointerBits space) v h = t.storeBits space bits a v h := by
  simp only [Target.storeBits, Target.store_congr (Nat.mod_mod a _)]

theorem invoke_load (hhost : t.dl.pointerBits t.dl.hostAS = 64) {bits addr : Nat}
    (hbits : bits ∈ supportWidths) :
    t.invoke call (loadName bits) [addr] h = some (t.loadBits t.dl.hostAS bits addr h) := by
  rw [Target.invoke, Target.support_load hbits, Target.heroLoadUint_eq hhost hbits]
  rfl

theorem invoke_store (hhost : t.dl.pointerBits t.dl.hostAS = 64) {bits addr val : Nat}
    (hbits : bits ∈ supportWidths) :
    t.invoke call (storeName bits) [addr, val] h =
      some (0, t.storeBits t.dl.hostAS bits addr val h) := by
  rw [Target.invoke, Target.support_store hbits, Target.heroStoreUint_eq hhost hbits]
  rfl

theorem isHostDevice_iff {dl : DataLayout} {src dst : AddrSpace} :
    isHostDevice dl src dst = true ↔
      src = dl.hostAS ∧ dst = dl.deviceAS ∨ src = dl.deviceAS ∧ dst = dl.hostAS := by
  have hne := dl.hostAS_ne_deviceAS
  simp only [isHostDevice, decide_eq_true_eq]
  unfold AddrSpace at *
  omega

/-- Rewriting a constant expression keeps its value. -/
theorem handleConstExpr_eval (hflat : t.FlatCasts) (c : Const) :
    (handleConstExpr t.dl c).eval t = c.eval t := by
  induction c with
  | addrSpaceCast src dst c ih =>
    simp only [handleConstExpr]
    split
    · rename_i hcast
      simp only [Const.eval, ih, Nat.mod_mod, hflat src dst _ hcast]
    · rfl
  | ptrToInt bits c ih => simp only [handleConstExpr, Const.eval, ih]
  | intToPtr space c ih => simp only [handleConstExpr, Const.eval, ih]
  | expr opcode a b iha ihb => simp only [handleConstExpr, Const.eval, iha, ihb]
  | value v => rfl
  | global name => rfl

end Values

section Instructions

variable [DecidableEq R] {t : Target} {call : Calls}

theorem forget_update_addr (regs : Temp R → Nat) (r : R) (v : Nat) :
    Function.update regs (.addr r) v ∘ Temp.old = regs ∘ Temp.old := by
  funext q
  simp

theorem forget_update_data (regs : Temp R → Nat) (r : R) (v : Nat) :
    Function.update regs (.data r) v ∘ Temp.old = regs ∘ Temp.old := by
  funext q
  simp

/-- An instruction that is only renamed. -/
theorem renamed_expands (i : Inst R) :
    Expands (Inst.step t call) (Inst.step t call) (forget Temp.old) i [i.map .old id] := by
  apply expands_singleton
  intro x
  exact i.step_map Temp.old_injective (fun _ => rfl) x

theorem step_eq {x : (R → Nat) × Heap} {op : Op R} {v : Nat} {h' : Heap} (r : R)
    (hop : op.eval t call x.1 x.2 = some (v, h')) :
    Inst.step t call x ⟨r, op⟩ = some (Function.update x.1 r v, h') := by
  simp only [Inst.step, hop, Option.map_some]

theorem step_ptrToInt {regs : Temp R → Nat} {h : Heap} (r : R) (bits : Nat) (p : Operand R) :
    Inst.step t call (regs, h) ⟨.addr r, .ptrToInt bits (p.map .old id)⟩ =
      some (Function.update regs (.addr r) (p.eval t (regs ∘ .old) % 2 ^ bits), h) := by
  apply step_eq
  rw [Op.eval, Operand.eval_map (g := id) (fun _ => rfl)]

/-- A call of a support function with an address that was a host pointer. -/
theorem step_loadCall (hhost : t.dl.pointerBits t.dl.hostAS = 64) {bits a : Nat}
    (hbits : bits ∈ supportWidths) {regs : Temp R → Nat} {h : Heap} {r : R} (q : Temp R)
    (haddr : regs (.addr r) = a % 2 ^ t.dl.pointerBits t.dl.hostAS) :
    Inst.step t call (regs, h) ⟨q, .call (loadName bits) [.reg (.addr r)]⟩ =
      some (Function.update regs q (t.loadBits t.dl.hostAS bits a h).1,
        (t.loadBits t.dl.hostAS bits a h).2) := by
  apply step_eq
  simp only [Op.eval, List.map_cons, List.map_nil, Operand.eval, haddr]
  rw [invoke_load hhost hbits, loadBits_mod]

theorem step_storeCall (hhost : t.dl.pointerBits t.dl.hostAS = 64) {bits a w : Nat}
    (hbits : bits ∈ supportWidths) {regs : Temp R → Nat} {h : Heap} {r : R} {v : Operand (Temp R)}
    (q : Temp R) (haddr : regs (.addr r) = a % 2 ^ t.dl.pointerBits t.dl.hostAS)
    (hv : v.eval t regs % 2 ^ bits = w % 2 ^ bits) :
    Inst.step t call (regs, h) ⟨q, .call (storeName bits) [.reg (.addr r), v]⟩ =
      some (Function.update regs q 0, t.storeBits t.dl.hostAS bits a w h) := by
  apply step_eq
  simp only [Op.eval, List.map_cons, List.map_nil]
  rw [Operand.eval, haddr, invoke_store hhost hbits, storeBits_mod]
  simp only [Target.storeBits, hv]

theorem visitLoadInst_expands (hhost : t.dl.pointerBits t.dl.hostAS = 64) {func : String} {r : R}
    {ty : Ty} {space : AddrSpace} {p : Operand R} {is' : List (Inst (Temp R))}
    (hsup : (Op.load ty space p).Supported t.dl func)
    (hvisit : visitLoadInst t.dl func r ty space p = some is') :
    Expands (Inst.step t call) (Inst.step t call) (forget Temp.old) ⟨r, .load ty space p⟩ is' := by
  unfold visitLoadInst at hvisit
  split at hvisit
  · cases hvisit
    exact renamed_expands ⟨r, .load ty space p⟩
  · rename_i hguard
    obtain ⟨hfunc, hspace⟩ : isSupport func = false ∧ space = t.dl.hostAS := by simpa using hguard
    subst hspace
    obtain ⟨hbits, -⟩ := hsup rfl hfunc
    intro x
    obtain ⟨regs, h⟩ := x
    have haddr := Function.update_self (Temp.addr r)
      (p.eval t (regs ∘ .old) % 2 ^ t.dl.pointerBits t.dl.hostAS) regs
    dsimp only at hvisit
    split at hvisit
    · cases hvisit
      simp only [List.foldlM_cons, List.foldlM_nil, step_ptrToInt, Option.bind_eq_bind,
        Option.bind_some, step_loadCall hhost hbits (.old r) haddr]
      simp [Inst.step, Op.eval, forget, update_comp Temp.old_injective, forget_update_addr]
    · simp only [Option.bind_eq_bind, Option.bind_eq_some_iff, Option.pure_def,
        Option.some.injEq] at hvisit
      obtain ⟨cti, hcti, rfl⟩ := hvisit
      simp only [List.foldlM_cons, List.foldlM_nil, step_ptrToInt, Option.bind_eq_bind,
        Option.bind_some, step_loadCall hhost hbits (.data r) haddr]
      rw [step_eq (.old r) (castFromInt_eval hcti _)]
      · simp [Inst.step, Op.eval, Operand.eval, forget, update_comp Temp.old_injective,
          forget_update_addr, forget_update_data]
      · simp only [Operand.eval, Function.update_self]
        exact Nat.mod_lt _ (Nat.two_pow_pos _)

theorem visitStoreInst_expands (hhost : t.dl.pointerBits t.dl.hostAS = 64) {func : String} {r : R}
    {ty : Ty} {space : AddrSpace} {v p : Operand R} {is' : List (Inst (Temp R))}
    (hsup : (Op.store ty space v p).Supported t.dl func)
    (hvisit : visitStoreInst t.dl r ty space v p = some is') :
    Expands (Inst.step t call) (Inst.step t call) (forget Temp.old) ⟨r, .store ty space v p⟩
      is' := by
  unfold visitStoreInst at hvisit
  split at hvisit
  · cases hvisit
    exact renamed_expands ⟨r, .store ty space v p⟩
  · rename_i hguard
    have hspace : space = t.dl.hostAS := not_not.mp hguard
    subst hspace
    obtain ⟨-, hbits, -⟩ := hsup rfl
    intro x
    obtain ⟨regs, h⟩ := x
    have haddr := Function.update_self (Temp.addr r)
      (p.eval t (regs ∘ .old) % 2 ^ t.dl.pointerBits t.dl.hostAS) regs
    have hkept : (v.map Temp.old id).eval t (Function.update regs (.addr r)
        (p.eval t (regs ∘ .old) % 2 ^ t.dl.pointerBits t.dl.hostAS)) =
          v.eval t (regs ∘ .old) := by
      rw [Operand.eval_map (g := id) (fun _ => rfl), forget_update_addr]
    dsimp only at hvisit
    split at hvisit
    · cases hvisit
      simp only [List.foldlM_cons, List.foldlM_nil, step_ptrToInt, Option.bind_eq_bind,
        Option.bind_some, step_storeCall hhost hbits (.old r) haddr (congrArg (· % _) hkept)]
      simp [Inst.step, Op.eval, forget, update_comp Temp.old_injective, forget_update_addr]
    · simp only [Option.bind_eq_bind, Option.bind_eq_some_iff, Option.pure_def,
        Option.some.injEq] at hvisit
      obtain ⟨svi, hsvi, rfl⟩ := hvisit
      obtain ⟨w, hw, hmod⟩ : ∃ w, svi.eval t call (Function.update regs (.addr r)
          (p.eval t (regs ∘ .old) % 2 ^ t.dl.pointerBits t.dl.hostAS)) h = some (w, h) ∧ _ :=
        castToInt_eval hsvi
      rw [hkept] at hmod
      have hsviStep := step_eq (x := (Function.update regs (.addr r)
        (p.eval t (regs ∘ .old) % 2 ^ t.dl.pointerBits t.dl.hostAS), h)) (.data r) hw
      have hdata : (Operand.reg (Temp.data r)).eval t (Function.update (Function.update regs
          (.addr r) (p.eval t (regs ∘ .old) % 2 ^ t.dl.pointerBits t.dl.hostAS)) (.data r) w) %
            2 ^ t.dl.valueBits ty = v.eval t (regs ∘ .old) % 2 ^ t.dl.valueBits ty := by
        rw [Operand.eval, Function.update_self, hmod]
      have haddr' : Function.update (Function.update regs (.addr r)
          (p.eval t (regs ∘ .old) % 2 ^ t.dl.pointerBits t.dl.hostAS)) (.data r) w (.addr r) =
            p.eval t (regs ∘ .old) % 2 ^ t.dl.pointerBits t.dl.hostAS := by
        rw [Function.update_of_ne (by simp), haddr]
      simp only [List.foldlM_cons, List.foldlM_nil, step_ptrToInt, Option.bind_eq_bind,
        Option.bind_some, hsviStep, step_storeCall hhost hbits (.old r) haddr' hdata]
      simp [Inst.step, Op.eval, forget, update_comp Temp.old_injective, forget_update_addr,
        forget_update_data]

theorem visitAddrSpaceCastInst_expands (hflat : t.FlatCasts) {r : R} {src dst : AddrSpace}
    {v : Operand R} :
    Expands (Inst.step t call) (Inst.step t call) (forget Temp.old) ⟨r, .addrSpaceCast src dst v⟩
      (visitAddrSpaceCastInst t.dl r src dst v) := by
  unfold visitAddrSpaceCastInst
  split
  · rename_i hcast
    intro x
    obtain ⟨regs, h⟩ := x
    simp only [List.foldlM_cons, List.foldlM_nil, step_ptrToInt, Option.bind_eq_bind,
      Option.bind_some]
    simp [Inst.step, Op.eval, Operand.eval, forget, update_comp Temp.old_injective,
      forget_update_addr, hflat src dst _ hcast]
  · exact renamed_expands ⟨r, .addrSpaceCast src dst v⟩

/-- What an instruction is replaced by does what it does. -/
theorem visit_expands (hhost : t.dl.pointerBits t.dl.hostAS = 64) (hflat : t.FlatCasts)
    {func : String} {i : Inst R} {is' : List (Inst (Temp R))}
    (hsup : i.op.Supported t.dl func) (hvisit : visit t.dl func i = some is') :
    Expands (Inst.step t call) (Inst.step t call) (forget Temp.old) i is' := by
  obtain ⟨r, op⟩ := i
  cases op with
  | load ty space p => exact visitLoadInst_expands hhost hsup hvisit
  | store ty space v p => exact visitStoreInst_expands hhost hsup hvisit
  | addrSpaceCast src dst v =>
    cases hvisit
    exact visitAddrSpaceCastInst_expands hflat
  | _ =>
    cases hvisit
    exact renamed_expands _

end Instructions

section Modules

variable [DecidableEq R] {t : Target}

theorem visitBlock_simulates (hhost : t.dl.pointerBits t.dl.hostAS = 64) (hflat : t.FlatCasts)
    {func : String} {b : Block R} {b' : Block (Temp R)}
    (hsup : ∀ i ∈ b.body, i.op.Supported t.dl func) (hvisit : visitBlock t.dl func b = some b') :
    b.Simulates t Temp.old b' := by
  simp only [visitBlock, Option.bind_eq_bind, Option.bind_eq_some_iff, Option.pure_def,
    Option.some.injEq, mapM_eq_some] at hvisit
  obtain ⟨body, hbody, rfl⟩ := hvisit
  refine ⟨rfl, ?_, id, fun _ => rfl, rfl⟩
  intro call x
  apply foldlM_flatten
  have hmem := (List.forall₂_and_left _ _).mpr ⟨hsup, hbody⟩
  exact hmem.imp fun i is' hi => visit_expands hhost hflat hi.1 hi.2

theorem visitFunc_simulates (hhost : t.dl.pointerBits t.dl.hostAS = 64) (hflat : t.FlatCasts)
    {f : Func R} {f' : Func (Temp R)} (hsup : ∀ i ∈ f.insts, i.op.Supported t.dl f.name)
    (hvisit : visitFunc t.dl f = some f') : f.Simulates t Temp.old f' := by
  simp only [visitFunc, Option.bind_eq_bind, Option.bind_eq_some_iff, Option.pure_def,
    Option.some.injEq, mapM_eq_some] at hvisit
  obtain ⟨blocks, hblocks, rfl⟩ := hvisit
  refine ⟨rfl, rfl, ?_⟩
  have hmem : ∀ b ∈ f.blocks, ∀ i ∈ b.body, i.op.Supported t.dl f.name := by
    intro b hb i hi
    exact hsup i (List.mem_flatMap.mpr ⟨b, hb, hi⟩)
  exact ((List.forall₂_and_left _ _).mpr ⟨hmem, hblocks⟩).imp
    fun b b' hb => visitBlock_simulates hhost hflat hb.1 hb.2

theorem mapConst_simulates {g : Const → Const} (hg : ∀ c : Const, (g c).eval t = c.eval t)
    (f : Func R) : f.Simulates t id (f.mapConst g) := by
  refine ⟨rfl, (List.map_id _).symm, ?_⟩
  apply List.forall₂_map_right_iff.mpr
  apply List.forall₂_same.mpr
  intro b _
  refine ⟨(List.map_id _).symm, ?_, g, hg, rfl⟩
  intro call x
  apply foldlM_map
  intro i _ y
  exact i.step_map Function.injective_id hg y

/-- The module after the pass computes, with the same accesses, what it computed after the
expansion of its memory intrinsics. -/
theorem runOnModule_call (hhost : t.dl.pointerBits t.dl.hostAS = 64) (hflat : t.FlatCasts)
    {lib : LowerMemIntrinsics R} {M : Module R} {M' : Module (Temp R)}
    (hsup : (expanded lib t.dl M).Supported t.dl)
    (hrun : runOnModule lib t.dl M = some M') (n : Nat) :
    Module.call t M' n = Module.call t (expanded lib t.dl M) n := by
  simp only [runOnModule, Option.bind_eq_bind, Option.bind_eq_some_iff, Option.pure_def,
    Option.some.injEq, mapM_eq_some] at hrun
  obtain ⟨M₂, hvisit, rfl⟩ := hrun
  have hconst : List.Forall₂ (Func.Simulates t id) M₂
      (M₂.map (Func.mapConst (handleConstExpr t.dl))) := by
    apply List.forall₂_map_right_iff.mpr
    apply List.forall₂_same.mpr
    intro f _
    exact mapConst_simulates (handleConstExpr_eval hflat) f
  rw [call_eq_of_simulates Function.injective_id hconst]
  apply call_eq_of_simulates Temp.old_injective
  exact ((List.forall₂_and_left _ _).mpr ⟨hsup, hvisit⟩).imp
    fun f f' hf => visitFunc_simulates hhost hflat hf.1 hf.2

end Modules

end Hero.Toolchain
