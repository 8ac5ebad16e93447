import Mathlib.Data.List.Basic
import Mathlib.Data.Int.ModEq
import Mathlib.Logic.Function.Basic
import Mathlib.Tactic.Ring

/-!
# LLVM modules and what running them does

The part of LLVM's intermediate representation that the passes on memory accesses work on.  An
instruction is named by the value it defines and the phi nodes of a block are its parameters.  A
run reads and writes registers and memory and logs every byte it touches.
-/

namespace Hero.Toolchain

abbrev AddrSpace := Nat

inductive Ty
  | int (bits : Nat)
  | float (bits : Nat)
  | ptr (space : AddrSpace)
  | vector (count : Nat) (elem : Ty)
  | aggregate (fields : List Nat)
  deriving DecidableEq

namespace Ty

/-- Pointers, aggregates and vectors of pointers have no primitive size. -/
def getPrimitiveSizeInBits : Ty → Nat
  | int bits => bits
  | float bits => bits
  | vector count elem => count * elem.getPrimitiveSizeInBits
  | ptr _ => 0
  | aggregate _ => 0

def isPointerTy : Ty → Bool
  | ptr _ => true
  | _ => false

def isAggregateType : Ty → Bool
  | aggregate _ => true
  | _ => false

/-- Pointers and vectors of pointers, which no bit cast from an integer gives. -/
def isPtrOrPtrVectorTy : Ty → Bool
  | ptr _ => true
  | vector _ elem => elem.isPtrOrPtrVectorTy
  | _ => false

end Ty

structure DataLayout where
  getProgramAddressSpace : AddrSpace
  getTypeAllocSizeInBits : Ty → Nat

namespace DataLayout

variable (dl : DataLayout)

def pointerBits (space : AddrSpace) : Nat := dl.getTypeAllocSizeInBits (.ptr space)

/-- The device's own address space. -/
def deviceAS : AddrSpace := dl.getProgramAddressSpace

def hostAS : AddrSpace := if dl.deviceAS = 0 then 1 else 0

theorem hostAS_ne_deviceAS : dl.hostAS ≠ dl.deviceAS := by
  unfold hostAS
  split
  · rename_i hzero
    rw [hzero]
    decide
  · rename_i hzero
    exact Ne.symm hzero

/-- The bits of a value of the type. -/
def valueBits (ty : Ty) : Nat :=
  if ty.getPrimitiveSizeInBits = 0 then dl.getTypeAllocSizeInBits ty
  else ty.getPrimitiveSizeInBits

end DataLayout

inductive Const
  | value (v : Nat)
  | global (name : String)
  | addrSpaceCast (src dst : AddrSpace) (c : Const)
  | ptrToInt (bits : Nat) (c : Const)
  | intToPtr (space : AddrSpace) (c : Const)
  | expr (opcode : String) (a b : Const)

inductive Operand (R : Type)
  | reg (r : R)
  | const (c : Const)

inductive MemIntrinsic
  | memcpy
  | memmove
  | memset
  | other (name : String)
  deriving DecidableEq

inductive Op (R : Type)
  | load (ty : Ty) (space : AddrSpace) (p : Operand R)
  | store (ty : Ty) (space : AddrSpace) (v p : Operand R)
  /-- `cmpxchg` and `atomicrmw`. -/
  | atomic (name : String) (space : AddrSpace) (p : Operand R) (args : List (Operand R))
  | mem (k : MemIntrinsic) (dst src : AddrSpace) (args : List (Operand R))
  | addrSpaceCast (src dst : AddrSpace) (v : Operand R)
  | ptrToInt (bits : Nat) (v : Operand R)
  | intToPtr (space : AddrSpace) (v : Operand R)
  | bitCast (ty : Ty) (v : Operand R)
  | call (f : String) (args : List (Operand R))
  | callIndirect (p : Operand R) (args : List (Operand R))
  /-- Arithmetic, comparisons, address computations. -/
  | compute (opcode : String) (args : List (Operand R))

structure Inst (R : Type) where
  id : R
  op : Op R

structure Edge (R : Type) where
  target : Nat
  args : List (Operand R)

inductive Term (R : Type)
  | ret (v : Operand R)
  | switch (v : Operand R) (cases : List (Nat × Edge R)) (default : Edge R)
  | unreachable

structure Block (R : Type) where
  params : List R
  body : List (Inst R)
  term : Term R

structure Func (R : Type) where
  name : String
  params : List R
  blocks : List (Block R)

abbrev Module (R : Type) := List (Func R)

/-- The instructions of a function, its terminators apart. -/
def Func.insts {R : Type} (f : Func R) : List (Inst R) := f.blocks.flatMap Block.body

/-- One byte of memory read or written through an address. -/
structure Touch where
  write : Bool
  space : AddrSpace
  addr : Nat
  byte : UInt8
  deriving DecidableEq

structure Heap where
  mem : Nat → UInt8
  /-- Everything touched so far, the oldest first. -/
  trace : List Touch

/-- What a program runs on: its data layout, where the addresses of each address space lie in
memory, and what the constructs mean that are not accounted for here. -/
structure Target where
  dl : DataLayout
  physical : AddrSpace → Nat → Nat
  address : String → Nat
  functionAt : Nat → String
  expr : String → Nat → Nat → Nat
  compute : String → List Nat → Nat
  addrSpaceCast : AddrSpace → AddrSpace → Nat → Nat
  atomic : String → AddrSpace → Nat → List Nat → Heap → Option (Nat × Heap)
  mem : MemIntrinsic → AddrSpace → AddrSpace → List Nat → Heap → Option Heap
  external : String → List Nat → Heap → Option (Nat × Heap)

namespace Target

variable (t : Target)

/-- Reads `n` bytes, the least significant first. -/
def load (space : AddrSpace) : Nat → Nat → Heap → Nat × Heap
  | 0, _, h => (0, h)
  | n + 1, a, h =>
    let addr := a % 2 ^ t.dl.pointerBits space
    let b := h.mem (t.physical space addr)
    let (v, h') := load space n (a + 1) { h with trace := h.trace ++ [⟨false, space, addr, b⟩] }
    (b.toNat + 256 * v, h')

/-- Writes the `n` least significant bytes of a value. -/
def store (space : AddrSpace) : Nat → Nat → Nat → Heap → Heap
  | 0, _, _, h => h
  | n + 1, a, v, h =>
    let addr := a % 2 ^ t.dl.pointerBits space
    store space n (a + 1) (v / 256) {
      mem := Function.update h.mem (t.physical space addr) (UInt8.ofNat v)
      trace := h.trace ++ [⟨true, space, addr, UInt8.ofNat v⟩] }

/-- A value is kept in as many bytes as its bits need. -/
def loadBits (space : AddrSpace) (bits a : Nat) (h : Heap) : Nat × Heap :=
  let (v, h') := t.load space ((bits + 7) / 8) a h
  (v % 2 ^ bits, h')

def storeBits (space : AddrSpace) (bits a v : Nat) (h : Heap) : Heap :=
  t.store space ((bits + 7) / 8) a (v % 2 ^ bits) h

end Target

variable {R : Type}

def Const.eval (t : Target) : Const → Nat
  | value v => v
  | global name => t.address name
  | addrSpaceCast src dst c => t.addrSpaceCast src dst (c.eval t)
  | ptrToInt bits c => c.eval t % 2 ^ bits
  | intToPtr space c => c.eval t % 2 ^ t.dl.pointerBits space
  | expr opcode a b => t.expr opcode (a.eval t) (b.eval t)

def Operand.eval (t : Target) (regs : R → Nat) : Operand R → Nat
  | reg r => regs r
  | const c => c.eval t

namespace Target

variable {t : Target} {space : AddrSpace}

/-- Addresses count up to the width of a pointer. -/
theorem load_congr {n a b : Nat} {h : Heap}
    (hab : a % 2 ^ t.dl.pointerBits space = b % 2 ^ t.dl.pointerBits space) :
    t.load space n a h = t.load space n b h := by
  induction n generalizing a b h with
  | zero => rfl
  | succ n ih =>
    have hnext : (a + 1) % 2 ^ t.dl.pointerBits space = (b + 1) % 2 ^ t.dl.pointerBits space := by
      exact Nat.ModEq.add_right 1 hab
    simp only [load, hab, ih hnext]

theorem store_congr {n a b v : Nat} {h : Heap}
    (hab : a % 2 ^ t.dl.pointerBits space = b % 2 ^ t.dl.pointerBits space) :
    t.store space n a v h = t.store space n b v h := by
  induction n generalizing a b v h with
  | zero => rfl
  | succ n ih =>
    have hnext : (a + 1) % 2 ^ t.dl.pointerBits space = (b + 1) % 2 ^ t.dl.pointerBits space := by
      exact Nat.ModEq.add_right 1 hab
    simp only [store, hab, ih hnext]

theorem load_lt {n a : Nat} {h : Heap} : (t.load space n a h).1 < 256 ^ n := by
  induction n generalizing a h with
  | zero => simp [load]
  | succ n ih =>
    simp only [load]
    have hbyte := (h.mem (t.physical space (a % 2 ^ t.dl.pointerBits space))).toNat_lt
    have hrest := @ih (a + 1) { h with
      trace := h.trace ++ [⟨false, space, a % 2 ^ t.dl.pointerBits space,
        h.mem (t.physical space (a % 2 ^ t.dl.pointerBits space))⟩] }
    rw [Nat.pow_succ]
    omega

/-- A read of some bytes is one of the lower ones followed by one of the upper ones. -/
theorem load_add {m n a : Nat} {h : Heap} : t.load space (m + n) a h =
    ((t.load space m a h).1 + 256 ^ m * (t.load space n (a + m) (t.load space m a h).2).1,
      (t.load space n (a + m) (t.load space m a h).2).2) := by
  induction m generalizing a h with
  | zero => simp [load]
  | succ m ih =>
    rw [Nat.succ_add]
    simp only [load, ih, Nat.add_assoc, Nat.add_comm 1 m, Prod.mk.injEq, and_true]
    rw [Nat.pow_succ]
    ring

theorem store_add {m n a v : Nat} {h : Heap} : t.store space (m + n) a v h =
    t.store space n (a + m) (v / 256 ^ m) (t.store space m a v h) := by
  induction m generalizing a v h with
  | zero => simp [store]
  | succ m ih =>
    rw [Nat.succ_add]
    simp only [store, ih, Nat.add_assoc, Nat.add_comm 1 m, Nat.div_div_eq_div_mul, Nat.pow_succ,
      Nat.mul_comm 256]

/-- A write of bytes does not see the bits above them. -/
theorem store_mod {n a v k : Nat} {h : Heap} (hk : 8 * n ≤ k) :
    t.store space n a (v % 2 ^ k) h = t.store space n a v h := by
  induction n generalizing a v k h with
  | zero => rfl
  | succ n ih =>
    obtain ⟨j, rfl⟩ : ∃ j, k = j + 8 := ⟨k - 8, by omega⟩
    have hbyte : UInt8.ofNat (v % 2 ^ (j + 8)) = UInt8.ofNat v := by
      apply UInt8.toNat_inj.mp
      rw [UInt8.toNat_ofNat', UInt8.toNat_ofNat', Nat.pow_add]
      exact Nat.mod_mod_of_dvd v (Dvd.intro_left _ rfl)
    have hrest : v % 2 ^ (j + 8) / 256 = v / 256 % 2 ^ j := by
      rw [Nat.pow_add, Nat.mul_comm, Nat.mod_mul_right_div_self]
    simp only [store, hbyte, hrest]
    exact ih (by omega)

end Target

end Hero.Toolchain
