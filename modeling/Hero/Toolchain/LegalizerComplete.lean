import Hero.Toolchain.LegalizerMeaning
import Hero.Toolchain.LoopExpansion

/-!
# Completeness of the pass on host pointers

After the pass no load, no store and no copying or setting of memory outside the support functions
goes through a host pointer.  What it replaces keeps its meaning, where there is a support function
of the width, and the rest is not changed.
-/

namespace Hero.Toolchain

variable {R : Type}

section Accesses

/-- The instruction reads or writes memory through a host pointer. -/
def Op.AccessesHost (dl : DataLayout) : Op R → Prop
  | .load _ space _ => space = dl.hostAS
  | .store _ space _ _ => space = dl.hostAS
  | .atomic _ space _ _ => space = dl.hostAS
  | .mem .memset dst _ _ => dst = dl.hostAS
  | .mem _ dst src _ => dst = dl.hostAS ∨ src = dl.hostAS
  | _ => False

/-- The kinds of accesses the pass does not look at. -/
def Op.PassedOver : Op R → Prop
  | .atomic _ _ _ _ => True
  | .mem (.other _) _ _ _ => True
  | _ => False

/-- An access through a host pointer has a castable type, if it is converted. -/
def Op.CastableAccess (dl : DataLayout) (func : String) : Op R → Prop
  | .load ty space _ => space = dl.hostAS → isSupport func = false → ty.Castable
  | .store ty space _ _ => space = dl.hostAS → ty.Castable
  | _ => True

def Module.CastableAccesses (dl : DataLayout) (M : Module R) : Prop :=
  ∀ f ∈ M, ∀ i ∈ f.insts, i.op.CastableAccess dl f.name

/-- No access through a host pointer and no cast between the two address spaces, or a load of a
support function. -/
def Op.Untouched (dl : DataLayout) (func : String) : Op R → Prop
  | .load _ space _ => space = dl.hostAS → isSupport func = true
  | .store _ space _ _ => space ≠ dl.hostAS
  | .addrSpaceCast src dst _ => isHostDevice dl src dst = false
  | _ => True

variable {S : Type} {dl : DataLayout} {func : String} {ρ : R → S} {g : Const → Const} {op : Op R}
  {i : Inst R} {is' : List (Inst (Temp R))}

theorem Op.accessesHost_map : (op.map ρ g).AccessesHost dl ↔ op.AccessesHost dl := by
  cases op with
  | mem k dst src args => cases k <;> exact Iff.rfl
  | _ => exact Iff.rfl

theorem Op.passedOver_map : (op.map ρ g).PassedOver ↔ op.PassedOver := by
  cases op with
  | mem k dst src args => cases k <;> exact Iff.rfl
  | _ => exact Iff.rfl

theorem visit_untouched (hi : i.op.Untouched dl func) :
    visit dl func i = some [i.map .old id] := by
  obtain ⟨r, op⟩ := i
  cases op with
  | load ty space p =>
    have hguard : isSupport func = true ∨ space ≠ dl.hostAS := by
      by_cases hspace : space = dl.hostAS
      · exact Or.inl (hi hspace)
      · exact Or.inr hspace
    simp only [visit, visitLoadInst, if_pos hguard]
    rfl
  | store ty space v p =>
    have hguard : space ≠ dl.hostAS := hi
    simp only [visit, visitStoreInst, if_pos hguard]
    rfl
  | addrSpaceCast src dst v =>
    have hguard : isHostDevice dl src dst = false := hi
    simp only [visit, visitAddrSpaceCastInst, hguard]
    rfl
  | _ => rfl

theorem visit_isSome (hi : i.op.CastableAccess dl func) : (visit dl func i).isSome := by
  obtain ⟨r, op⟩ := i
  cases op with
  | load ty space p =>
    simp only [visit, visitLoadInst]
    split
    · rfl
    · rename_i hguard
      obtain ⟨hfunc, hspace⟩ : isSupport func = false ∧ space = dl.hostAS := by simpa using hguard
      split
      · rfl
      · obtain ⟨cti, hcti⟩ := Option.isSome_iff_exists.mp
          (castFromInt_isSome (hi hspace hfunc) (.reg (Temp.data r)))
        simp [hcti]
  | store ty space v p =>
    simp only [visit, visitStoreInst]
    split
    · rfl
    · rename_i hguard
      split
      · rfl
      · obtain ⟨svi, hsvi⟩ := Option.isSome_iff_exists.mp
          (castToInt_isSome (hi (not_not.mp hguard)) (dl.valueBits ty) (v.map Temp.old id))
        simp [hsvi]
  | _ => rfl

theorem castFromInt_not_accessesHost {ty : Ty} {v : Operand (Temp R)} {op : Op (Temp R)}
    (h : castFromInt ty v = some op) : ¬ op.AccessesHost dl := by
  cases ty with
  | ptr space => cases h; exact not_false
  | _ =>
    simp only [castFromInt, Option.ite_none_left_eq_some, Option.some.injEq] at h
    obtain ⟨-, rfl⟩ := h
    exact not_false

theorem castToInt_not_accessesHost {ty : Ty} {bits : Nat} {v : Operand (Temp R)} {op : Op (Temp R)}
    (h : castToInt bits ty v = some op) : ¬ op.AccessesHost dl := by
  cases ty with
  | ptr space => cases h; exact not_false
  | _ =>
    simp only [castToInt, Option.ite_none_left_eq_some, Option.some.injEq] at h
    obtain ⟨-, rfl⟩ := h
    exact not_false

/-- What a load outside the support functions becomes does not access host memory. -/
theorem visitLoadInst_not_accessesHost (hfunc : isSupport func = false) {r : R} {ty : Ty}
    {space : AddrSpace} {p : Operand R} (h : visitLoadInst dl func r ty space p = some is') :
    ∀ j ∈ is', ¬ j.op.AccessesHost dl := by
  unfold visitLoadInst at h
  split at h
  · rename_i hguard
    cases h
    have hspace : space ≠ dl.hostAS := hguard.resolve_left (by simp [hfunc])
    simpa [Op.AccessesHost] using hspace
  · dsimp only at h
    split at h
    · cases h
      simp [Op.AccessesHost]
    · simp only [Option.bind_eq_bind, Option.bind_eq_some_iff, Option.pure_def,
        Option.some.injEq] at h
      obtain ⟨cti, hcti, rfl⟩ := h
      have hcast : ¬ cti.AccessesHost dl := castFromInt_not_accessesHost hcti
      simpa [Op.AccessesHost] using hcast

theorem visitStoreInst_not_accessesHost {r : R} {ty : Ty} {space : AddrSpace} {v p : Operand R}
    (h : visitStoreInst dl r ty space v p = some is') : ∀ j ∈ is', ¬ j.op.AccessesHost dl := by
  unfold visitStoreInst at h
  split at h
  · rename_i hspace
    cases h
    simpa [Op.AccessesHost] using hspace
  · dsimp only at h
    split at h
    · cases h
      simp [Op.AccessesHost]
    · simp only [Option.bind_eq_bind, Option.bind_eq_some_iff, Option.pure_def,
        Option.some.injEq] at h
      obtain ⟨svi, hsvi, rfl⟩ := h
      have hcast : ¬ svi.AccessesHost dl := castToInt_not_accessesHost hsvi
      simpa [Op.AccessesHost] using hcast

theorem visitAddrSpaceCastInst_not_accessesHost {r : R} {src dst : AddrSpace} {v : Operand R} :
    ∀ j ∈ visitAddrSpaceCastInst dl r src dst v, ¬ j.op.AccessesHost dl := by
  unfold visitAddrSpaceCastInst
  split <;> simp [Op.AccessesHost]

/-- The only accesses through host pointers that are left were never looked at. -/
theorem visit_passedOver (hfunc : isSupport func = false) (hi : ¬ i.op.Expanded dl)
    (h : visit dl func i = some is') : ∀ j ∈ is', j.op.AccessesHost dl → j.op.PassedOver := by
  obtain ⟨r, op⟩ := i
  intro j hj haccess
  have hne := dl.hostAS_ne_deviceAS
  cases op with
  | load ty space p => exact absurd haccess (visitLoadInst_not_accessesHost hfunc h j hj)
  | store ty space v p => exact absurd haccess (visitStoreInst_not_accessesHost h j hj)
  | addrSpaceCast src dst v =>
    cases h
    exact absurd haccess (visitAddrSpaceCastInst_not_accessesHost j hj)
  | mem k dst src args =>
    cases h
    obtain rfl := List.mem_singleton.mp hj
    cases k with
    | memcpy | memmove =>
      obtain ⟨hsrc, hdst⟩ := not_not.mp hi
      obtain hhost | hhost := haccess
      · exact absurd (hhost.symm.trans hdst) hne
      · exact absurd (hhost.symm.trans hsrc) hne
    | memset => exact absurd (haccess.symm.trans (not_not.mp hi)) hne
    | other name => exact trivial
  | atomic name space p args =>
    cases h
    obtain rfl := List.mem_singleton.mp hj
    exact trivial
  | _ =>
    cases h
    obtain rfl := List.mem_singleton.mp hj
    exact absurd haccess not_false

/-- What is in a function after the pass comes from an instruction that was there. -/
theorem mem_visitFunc {f : Func R} {f' : Func (Temp R)} {j : Inst (Temp R)}
    (hvisit : visitFunc dl f = some f') (hj : j ∈ f'.insts) :
    ∃ i ∈ f.insts, ∃ is', visit dl f.name i = some is' ∧ j ∈ is' := by
  simp only [visitFunc, Option.bind_eq_bind, Option.bind_eq_some_iff, Option.pure_def,
    Option.some.injEq, mapM_eq_some] at hvisit
  obtain ⟨blocks, hblocks, rfl⟩ := hvisit
  obtain ⟨b', hb', hjb⟩ := List.mem_flatMap.mp hj
  obtain ⟨b, hb, hblock⟩ := exists_of_forall₂_mem hblocks hb'
  simp only [visitBlock, Option.bind_eq_bind, Option.bind_eq_some_iff, Option.pure_def,
    Option.some.injEq, mapM_eq_some] at hblock
  obtain ⟨iss', hbody, rfl⟩ := hblock
  obtain ⟨is', his', hjis⟩ := List.mem_flatten.mp hjb
  obtain ⟨i, hi, hvisit⟩ := exists_of_forall₂_mem hbody his'
  exact ⟨i, List.mem_flatMap.mpr ⟨b, hb, hi⟩, is', hvisit, hjis⟩

theorem visitFunc_isSome {f : Func R}
    (hf : ∀ i ∈ f.insts, i.op.CastableAccess dl f.name) : (visitFunc dl f).isSome := by
  have hblocks : ∀ b ∈ f.blocks, (visitBlock dl f.name b).isSome := by
    intro b hb
    have hinsts : ∀ i ∈ b.body, (visit dl f.name i).isSome := by
      intro i hi
      exact visit_isSome (hf i (List.mem_flatMap.mpr ⟨b, hb, hi⟩))
    obtain ⟨body, hbody⟩ := mapM_isSome hinsts
    simp [visitBlock, hbody]
  obtain ⟨blocks, h⟩ := mapM_isSome hblocks
  simp [visitFunc, h]

/-- Loops over bytes are castable. -/
theorem Func.ExpandedTo.castableAccess {f g : Func R} (h : f.ExpandedTo dl g)
    (hf : ∀ i ∈ f.insts, i.op.CastableAccess dl f.name) :
    ∀ i ∈ g.insts, i.op.CastableAccess dl g.name := by
  intro j hj
  rw [h.name]
  obtain ⟨hjf, -⟩ | ⟨i, -, -, k, dst, src, args, -, hmoves⟩ := h.origin j hj
  · exact hf j hjf
  · obtain ⟨r, op⟩ := j
    have hbyte : (Ty.int 8).Castable := by decide
    cases op with
    | load ty space p =>
      obtain ⟨-, rfl, -⟩ := hmoves
      exact fun _ _ => hbyte
    | store ty space v p =>
      obtain ⟨rfl, -⟩ := hmoves
      exact fun _ => hbyte
    | _ => exact trivial

end Accesses

section Modules

variable [DecidableEq R] {t : Target}

/-- What an instruction is after the pass: it does the same, and is the same if there was nothing
to do about it. -/
structure Inst.LegalizedTo (t : Target) (func : String) (i : Inst R) (is' : List (Inst (Temp R))) :
    Prop where
  expands : i.op.Supported t.dl func →
    ∀ call, Expands (Inst.step t call) (Inst.step t call) (forget Temp.old) i is'
  untouched : i.op.Untouched t.dl func → is' = [i.map .old (handleConstExpr t.dl)]

structure Block.LegalizedTo (t : Target) (func : String) (b : Block R) (b' : Block (Temp R)) :
    Prop where
  params : b'.params = b.params.map .old
  body : ∃ iss', List.Forall₂ (Inst.LegalizedTo t func) b.body iss' ∧ b'.body = iss'.flatten
  term : b'.term = b.term.map .old (handleConstExpr t.dl)

structure Func.LegalizedTo (t : Target) (f : Func R) (f' : Func (Temp R)) : Prop where
  name : f'.name = f.name
  params : f'.params = f.params.map .old
  blocks : List.Forall₂ (Block.LegalizedTo t f.name) f.blocks f'.blocks

/-- Outside the support functions, host memory is accessed by nothing else than what the pass does
not look at. -/
def Module.HostFree (dl : DataLayout) (M : Module R) : Prop :=
  ∀ f ∈ M, isSupport f.name = false → ∀ i ∈ f.insts, i.op.AccessesHost dl → i.op.PassedOver

/-- What the pass gives for a module. -/
structure Module.Legalizes (lib : LowerMemIntrinsics R) (t : Target) (M : Module R) : Prop where
  expanded : List.Forall₂ (Func.ExpandedTo t.dl) M (expanded lib t.dl M)
  returns : M.CastableAccesses t.dl → (runOnModule lib t.dl M).isSome
  hostFree : ∀ M', runOnModule lib t.dl M = some M' → M'.HostFree t.dl
  legalized : ∀ M', runOnModule lib t.dl M = some M' →
    List.Forall₂ (Func.LegalizedTo t) (Toolchain.expanded lib t.dl M) M'

/-- Rewriting constants in what an instruction expands to. -/
theorem expands_mapConst {g : Const → Const} (hg : ∀ c : Const, (g c).eval t = c.eval t)
    {call : Calls} {i : Inst R} {is' : List (Inst (Temp R))}
    (h : Expands (Inst.step t call) (Inst.step t call) (forget Temp.old) i is') :
    Expands (Inst.step t call) (Inst.step t call) (forget Temp.old) i
      (is'.map (Inst.map id g)) := by
  intro x
  have hmap : ((is'.map (Inst.map id g)).foldlM (Inst.step t call) x).map (forget id) =
      is'.foldlM (Inst.step t call) (forget id x) :=
    foldlM_map (fun j _ y => j.step_map Function.injective_id hg y) x
  rw [show forget (id : Temp R → Temp R) = id from rfl, Option.map_id] at hmap
  rw [← h x]
  exact congrArg (Option.map (forget Temp.old)) hmap

theorem visit_legalizedTo (hhost : t.dl.pointerBits t.dl.hostAS = 64) (hflat : t.FlatCasts)
    {func : String} {i : Inst R} {is' : List (Inst (Temp R))}
    (hvisit : visit t.dl func i = some is') :
    i.LegalizedTo t func (is'.map (Inst.map id (handleConstExpr t.dl))) where
  expands := by
    intro hsup call
    exact expands_mapConst (handleConstExpr_eval hflat) (visit_expands hhost hflat hsup hvisit)
  untouched := by
    intro hi
    obtain rfl := Option.some.inj ((visit_untouched hi).symm.trans hvisit)
    rw [List.map_singleton, Inst.map_map]
    rfl

theorem visitBlock_legalizedTo (hhost : t.dl.pointerBits t.dl.hostAS = 64) (hflat : t.FlatCasts)
    {func : String} {b : Block R} {b' : Block (Temp R)} (hvisit : visitBlock t.dl func b = some b') :
    b.LegalizedTo t func (b'.mapConst (handleConstExpr t.dl)) := by
  simp only [visitBlock, Option.bind_eq_bind, Option.bind_eq_some_iff, Option.pure_def,
    Option.some.injEq, mapM_eq_some] at hvisit
  obtain ⟨iss', hbody, rfl⟩ := hvisit
  refine ⟨rfl, ⟨iss'.map (List.map (Inst.map id (handleConstExpr t.dl))), ?_, ?_⟩, ?_⟩
  · apply List.forall₂_map_right_iff.mpr
    exact hbody.imp fun i is' hi => visit_legalizedTo hhost hflat hi
  · exact List.map_flatten
  · exact Term.map_map _

theorem visitFunc_legalizedTo (hhost : t.dl.pointerBits t.dl.hostAS = 64) (hflat : t.FlatCasts)
    {f : Func R} {f' : Func (Temp R)} (hvisit : visitFunc t.dl f = some f') :
    f.LegalizedTo t (f'.mapConst (handleConstExpr t.dl)) := by
  simp only [visitFunc, Option.bind_eq_bind, Option.bind_eq_some_iff, Option.pure_def,
    Option.some.injEq, mapM_eq_some] at hvisit
  obtain ⟨blocks, hblocks, rfl⟩ := hvisit
  refine ⟨rfl, rfl, ?_⟩
  apply List.forall₂_map_right_iff.mpr
  exact hblocks.imp fun b b' hb => visitBlock_legalizedTo hhost hflat hb

theorem runOnModule_isSome {lib : LowerMemIntrinsics R} {dl : DataLayout} {M : Module R}
    (hexpanded : ∀ f ∈ M, f.ExpandedTo dl (expandMemIntrinsicUses lib dl f))
    (hM : M.CastableAccesses dl) : (runOnModule lib dl M).isSome := by
  have hfuncs : ∀ g ∈ expanded lib dl M, (visitFunc dl g).isSome := by
    intro g hg
    obtain ⟨f, hf, rfl⟩ := List.mem_map.mp hg
    exact visitFunc_isSome ((hexpanded f hf).castableAccess (hM f hf))
  obtain ⟨M', hM'⟩ := mapM_isSome hfuncs
  simp [runOnModule, hM']

theorem runOnModule_hostFree {lib : LowerMemIntrinsics R} {dl : DataLayout} {M : Module R}
    {M' : Module (Temp R)}
    (hexpanded : ∀ f ∈ M, f.ExpandedTo dl (expandMemIntrinsicUses lib dl f))
    (hrun : runOnModule lib dl M = some M') : M'.HostFree dl := by
  simp only [runOnModule, Option.bind_eq_bind, Option.bind_eq_some_iff, Option.pure_def,
    Option.some.injEq, mapM_eq_some] at hrun
  obtain ⟨M₂, hvisit, rfl⟩ := hrun
  intro f' hf' hfunc j hj haccess
  obtain ⟨f₂, hf₂, rfl⟩ := List.mem_map.mp hf'
  rw [Func.mapConst_insts] at hj
  obtain ⟨j₂, hj₂, rfl⟩ := List.mem_map.mp hj
  obtain ⟨g, hg, hvisitFunc⟩ := exists_of_forall₂_mem hvisit hf₂
  obtain ⟨f, hf, rfl⟩ := List.mem_map.mp hg
  have hname : f₂.name = (expandMemIntrinsicUses lib dl f).name := visitFunc_name hvisitFunc
  obtain ⟨i, hi, is', hvisitInst, hjis⟩ := mem_visitFunc hvisitFunc hj₂
  have hnot := (hexpanded f hf).not_expanded hi
  rw [Func.mapConst_name, hname] at hfunc
  exact Op.passedOver_map.mpr
    (visit_passedOver hfunc hnot hvisitInst j₂ hjis (Op.accessesHost_map.mp haccess))

/-- The layout of the 32-bit device, whose host pointers have 64 bits. -/
def pulpLayout : DataLayout where
  getProgramAddressSpace := 0
  getTypeAllocSizeInBits
    | .int bits => (bits + 7) / 8 * 8
    | .ptr 0 => 32
    | .ptr _ => 64
    | .aggregate fields => fields.sum
    | ty => ty.getPrimitiveSizeInBits

def pulpTarget : Target where
  dl := pulpLayout
  physical _ a := a
  address _ := 0
  functionAt _ := ""
  expr _ a b := a + b
  compute _ args := args.sum
  addrSpaceCast _ dst a := a % 2 ^ pulpLayout.pointerBits dst
  atomic _ _ _ _ _ := none
  mem _ _ _ _ _ := none
  external _ _ _ := none

/-- The expansions where there is nothing to move. -/
def emptyLoops : LowerMemIntrinsics Nat where
  expandMemCpyAsLoop f _ := f
  expandMemMoveAsLoop f _ := f
  expandMemSetAsLoop f _ := f

/-- Copies nothing to the host, reads a float from there and writes a host pointer back. -/
def swapModule : Module Nat :=
  [⟨"swap", [0, 1], [⟨[], [⟨2, .mem .memcpy 1 0 [.reg 0, .reg 1, .const (.value 0)]⟩,
    ⟨3, .load (.float 32) 1 (.reg 0)⟩, ⟨4, .addrSpaceCast 0 1 (.reg 1)⟩,
    ⟨5, .store (.ptr 1) 1 (.reg 4) (.reg 0)⟩], .ret (.reg 3)⟩]⟩]

/-- Counts the calls that find a flag set in host memory. -/
def countModule : Module Nat :=
  [⟨"count", [0, 1], [⟨[], [⟨2, .load (.int 1) 1 (.reg 0)⟩,
    ⟨3, .atomic "atomicrmw add" 1 (.reg 1) [.reg 2]⟩], .ret (.reg 3)⟩]⟩]

/-- Reads a record of two words. -/
def recordModule : Module Nat :=
  [⟨"record", [0], [⟨[], [⟨1, .load (.aggregate [32, 32]) 1 (.reg 0)⟩], .ret (.reg 1)⟩]⟩]

end Modules

end Hero.Toolchain
