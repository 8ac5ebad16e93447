import Hero.Toolchain.Execution

/-!
# The pass that legalises host pointers

Memory intrinsics that reach host memory are expanded into loops, loads and stores through host
pointers become calls of support functions, and casts between the host's and the device's address
space go through integers.
-/

namespace Hero.Toolchain

variable {R : Type}

/-- The values of a module after the pass: the ones there were, and up to two new ones in front of
each. -/
inductive Temp (R : Type)
  | old (r : R)
  | addr (r : R)
  | data (r : R)
  deriving DecidableEq

theorem Temp.old_injective : (Temp.old : R → Temp R).Injective := fun _ _ => Temp.old.inj

def isSupport (func : String) : Bool :=
  ompLoadPrefix.toList.isPrefixOf func.toList || ompStorePrefix.toList.isPrefixOf func.toList

/-- The cast of an integer to a type of the same size; `none` is a failed assertion, of the pass or
of the constructor of bit casts. -/
def castFromInt (ty : Ty) (v : Operand (Temp R)) : Option (Op (Temp R)) :=
  match ty with
  | .ptr space => some (.intToPtr space v)
  | ty =>
    if ty.isAggregateType || ty.isPtrOrPtrVectorTy then none
    else some (.bitCast ty v)

def castToInt (bits : Nat) (ty : Ty) (v : Operand (Temp R)) : Option (Op (Temp R)) :=
  match ty with
  | .ptr _ => some (.ptrToInt bits v)
  | ty =>
    if ty.isAggregateType || ty.isPtrOrPtrVectorTy then none
    else some (.bitCast (.int bits) v)

section Visitor

variable (dl : DataLayout)

def visitLoadInst (func : String) (r : R) (ty : Ty) (space : AddrSpace) (p : Operand R) :
    Option (List (Inst (Temp R))) :=
  if isSupport func ∨ space ≠ dl.hostAS then some [⟨.old r, .load ty space (p.map .old id)⟩]
  else
    let bits := dl.valueBits ty
    let pii : Inst (Temp R) := ⟨.addr r, .ptrToInt (dl.pointerBits space) (p.map .old id)⟩
    let call : Op (Temp R) := .call (loadName bits) [.reg (.addr r)]
    if ty = .int bits then some [pii, ⟨.old r, call⟩]
    else do
      let cti ← castFromInt ty (.reg (.data r))
      return [pii, ⟨.data r, call⟩, ⟨.old r, cti⟩]

/-- Stores are converted in support functions too. -/
def visitStoreInst (r : R) (ty : Ty) (space : AddrSpace) (v p : Operand R) :
    Option (List (Inst (Temp R))) :=
  if space ≠ dl.hostAS then some [⟨.old r, .store ty space (v.map .old id) (p.map .old id)⟩]
  else
    let bits := dl.valueBits ty
    let pii : Inst (Temp R) := ⟨.addr r, .ptrToInt (dl.pointerBits space) (p.map .old id)⟩
    if ty = .int bits then
      some [pii, ⟨.old r, .call (storeName bits) [.reg (.addr r), v.map .old id]⟩]
    else do
      let svi ← castToInt bits ty (v.map .old id)
      return [pii, ⟨.data r, svi⟩, ⟨.old r, .call (storeName bits) [.reg (.addr r), .reg (.data r)]⟩]

def isHostDevice (src dst : AddrSpace) : Bool :=
  min src dst = min dl.hostAS dl.deviceAS ∧ max src dst = max dl.hostAS dl.deviceAS

def visitAddrSpaceCastInst (r : R) (src dst : AddrSpace) (v : Operand R) : List (Inst (Temp R)) :=
  if isHostDevice dl src dst then
    [⟨.addr r, .ptrToInt (dl.pointerBits dst) (v.map .old id)⟩,
      ⟨.old r, .intToPtr dst (.reg (.addr r))⟩]
  else [⟨.old r, .addrSpaceCast src dst (v.map .old id)⟩]

def visit (func : String) (i : Inst R) : Option (List (Inst (Temp R))) :=
  match i.op with
  | .load ty space p => visitLoadInst dl func i.id ty space p
  | .store ty space v p => visitStoreInst dl i.id ty space v p
  | .addrSpaceCast src dst v => some (visitAddrSpaceCastInst dl i.id src dst v)
  | _ => some [i.map .old id]

def visitBlock (func : String) (b : Block R) : Option (Block (Temp R)) := do
  let body ← b.body.mapM (visit dl func)
  return ⟨b.params.map .old, body.flatten, b.term.map .old id⟩

def visitFunc (f : Func R) : Option (Func (Temp R)) := do
  let blocks ← f.blocks.mapM (visitBlock dl f.name)
  return ⟨f.name, f.params.map .old, blocks⟩

theorem visitFunc_name {dl : DataLayout} {f : Func R} {f' : Func (Temp R)}
    (h : visitFunc dl f = some f') : f'.name = f.name := by
  simp only [visitFunc, Option.bind_eq_bind, Option.bind_eq_some_iff, Option.pure_def,
    Option.some.injEq] at h
  obtain ⟨blocks, -, rfl⟩ := h
  rfl

end Visitor

section Constants

variable (dl : DataLayout)

def handleConstExpr : Const → Const
  | .addrSpaceCast src dst c =>
    if isHostDevice dl src dst then
      .intToPtr dst (.ptrToInt (dl.pointerBits dst) (handleConstExpr c))
    else .addrSpaceCast src dst c
  | .ptrToInt bits c => .ptrToInt bits (handleConstExpr c)
  | .intToPtr space c => .intToPtr space (handleConstExpr c)
  | .expr opcode a b => .expr opcode (handleConstExpr a) (handleConstExpr b)
  | .value v => .value v
  | .global name => .global name

def Block.mapConst (g : Const → Const) (b : Block R) : Block R :=
  ⟨b.params, b.body.map (Inst.map id g), b.term.map id g⟩

def Func.mapConst (g : Const → Const) (f : Func R) : Func R :=
  ⟨f.name, f.params, f.blocks.map (Block.mapConst g)⟩

@[simp] theorem Func.mapConst_name (g : Const → Const) (f : Func R) :
    (f.mapConst g).name = f.name := rfl

theorem Func.mapConst_insts (g : Const → Const) (f : Func R) :
    (f.mapConst g).insts = f.insts.map (Inst.map id g) := by
  simp only [Func.insts, Func.mapConst, List.flatMap_map, List.map_flatMap]
  rfl

end Constants

section MemIntrinsics

/-- LLVM's expansion of a memory intrinsic of a function into a loop in front of it. -/
structure LowerMemIntrinsics (R : Type) where
  expandMemCpyAsLoop : Func R → Inst R → Func R
  expandMemMoveAsLoop : Func R → Inst R → Func R
  expandMemSetAsLoop : Func R → Inst R → Func R

def Func.eraseFromParent [DecidableEq R] (f : Func R) (i : Inst R) : Func R :=
  { f with blocks := f.blocks.map fun b =>
      { b with body := b.body.filter fun j => j.id ≠ i.id } }

/-- One use of a memory intrinsic, looked at in the function its parent has become. -/
def expandMemIntrinsicUse [DecidableEq R] (lib : LowerMemIntrinsics R) (dl : DataLayout)
    (f : Func R) (i : Inst R) : Func R :=
  match i.op with
  | .mem .memcpy dst src _ =>
    if src = dl.deviceAS ∧ dst = dl.deviceAS then f
    else (lib.expandMemCpyAsLoop f i).eraseFromParent i
  | .mem .memmove dst src _ =>
    if src = dl.deviceAS ∧ dst = dl.deviceAS then f
    else (lib.expandMemMoveAsLoop f i).eraseFromParent i
  | .mem .memset dst _ _ =>
    if dst = dl.deviceAS then f
    else (lib.expandMemSetAsLoop f i).eraseFromParent i
  | _ => f

def expandMemIntrinsicUses [DecidableEq R] (lib : LowerMemIntrinsics R) (dl : DataLayout)
    (f : Func R) : Func R :=
  f.insts.foldl (expandMemIntrinsicUse lib dl) f

end MemIntrinsics

/-- The module as it is when the instructions are visited. -/
def expanded [DecidableEq R] (lib : LowerMemIntrinsics R) (dl : DataLayout) (M : Module R) :
    Module R :=
  M.map (expandMemIntrinsicUses lib dl)

def runOnModule [DecidableEq R] (lib : LowerMemIntrinsics R) (dl : DataLayout) (M : Module R) :
    Option (Module (Temp R)) := do
  let M' ← (expanded lib dl M).mapM (visitFunc dl)
  return M'.map (Func.mapConst (handleConstExpr dl))

end Hero.Toolchain
