import Mathlib.Data.BitVec

/-!
# Sv39 translation

The three-level page-table walk of RISC-V, for data reads from user mode.  Reserved bits of an entry
are ignored and accessed bits are left to the host.
-/

namespace Hero.Sv39

/-- Physical memory, by the 64-bit words at each address. -/
abbrev Memory := BitVec 64 → BitVec 64

def valid (pte : BitVec 64) : Bool := pte.getLsbD 0
def readable (pte : BitVec 64) : Bool := pte.getLsbD 1
def writable (pte : BitVec 64) : Bool := pte.getLsbD 2
def executable (pte : BitVec 64) : Bool := pte.getLsbD 3
def user (pte : BitVec 64) : Bool := pte.getLsbD 4

/-- The physical page number in an entry. -/
def ppn (pte : BitVec 64) : BitVec 44 := pte.extractLsb' 10 44

/-- The part of a virtual address that indexes tables of level `i`. -/
def vpn (va : BitVec 39) (i : Nat) : BitVec 9 := va.extractLsb' (12 + 9 * i) 9

def pageAddr (p : BitVec 44) : BitVec 64 := (p ++ 0#12).setWidth 64

def entryAddr (table : BitVec 44) (va : BitVec 39) (i : Nat) : BitVec 64 :=
  pageAddr table + (vpn va i ++ 0#3).setWidth 64

/-- The page number of an address under a leaf of level `i`. -/
def leafPpn (pte : BitVec 64) (va : BitVec 39) : Nat → BitVec 44
  | 0 => ppn pte
  | 1 => pte.extractLsb' 19 35 ++ va.extractLsb' 12 9
  | _ => pte.extractLsb' 28 26 ++ va.extractLsb' 12 18

/-- A superpage at level `i` starts at a multiple of its size. -/
def aligned (pte : BitVec 64) : Nat → Bool
  | 0 => true
  | 1 => pte.extractLsb' 10 9 = 0#9
  | _ => pte.extractLsb' 10 18 = 0#18

/-- A page and whether it is read-only. -/
structure Page where
  addr : BitVec 64
  rdonly : Bool
  deriving DecidableEq, Repr

def leaf (pte : BitVec 64) (va : BitVec 39) (i : Nat) : Option Page :=
  if aligned pte i && readable pte && user pte then
    some ⟨pageAddr (leafPpn pte va i), !writable pte⟩
  else none

def walkFrom (mem : Memory) (va : BitVec 39) (table : BitVec 44) (i : Nat) : Option Page :=
  let pte := mem (entryAddr table va i)
  if !valid pte || !readable pte && writable pte then none
  else if readable pte || executable pte then leaf pte va i
  else match i with
    | 0 => none
    | i + 1 => walkFrom mem va (ppn pte) i

/-- The walk from the table that `satp` names. -/
def walk (mem : Memory) (root : BitVec 44) (va : BitVec 39) : Option Page := walkFrom mem va root 2

section

variable {pte : BitVec 64} {va : BitVec 39} {i : Nat}

theorem ppn_toNat : (ppn pte).toNat = pte.toNat / 2 ^ 10 % 2 ^ 44 := by
  rw [ppn, BitVec.extractLsb'_toNat, Nat.shiftRight_eq_div_pow]

theorem vpn_toNat : (vpn va i).toNat = va.toNat / 2 ^ (12 + 9 * i) % 2 ^ 9 := by
  rw [vpn, BitVec.extractLsb'_toNat, Nat.shiftRight_eq_div_pow]

theorem pageAddr_toNat (p : BitVec 44) : (pageAddr p).toNat = p.toNat * 2 ^ 12 := by
  have hp := p.isLt
  rw [pageAddr, BitVec.toNat_setWidth, BitVec.toNat_append, Nat.shiftLeft_eq]
  simp
  omega

theorem levels_cases (hi : i ≤ 2) : i = 0 ∨ i = 1 ∨ i = 2 := by omega

theorem aligned_iff (hi : i ≤ 2) :
    aligned pte i = true ↔ pte.toNat / 2 ^ 10 % 2 ^ (9 * i) = 0 := by
  rcases levels_cases hi with rfl | rfl | rfl
  · simp [aligned, Nat.mod_one]
  · simp [aligned, ← BitVec.toNat_inj, Nat.shiftRight_eq_div_pow]
  · simp [aligned, ← BitVec.toNat_inj, Nat.shiftRight_eq_div_pow]

/-- In a superpage the low page-number bits of the address follow the page number of the entry. -/
theorem leafPpn_toNat (hi : i ≤ 2) (hal : aligned pte i = true) :
    (leafPpn pte va i).toNat =
      pte.toNat / 2 ^ 10 % 2 ^ 44 + va.toNat / 2 ^ 12 % 2 ^ (9 * i) := by
  rw [aligned_iff hi] at hal
  rcases levels_cases hi with rfl | rfl | rfl
  · simp [leafPpn, ppn_toNat, Nat.mod_one]
  · rw [leafPpn, BitVec.toNat_append, ← Nat.shiftLeft_add_eq_or_of_lt (BitVec.isLt _)]
    simp only [BitVec.extractLsb'_toNat, Nat.shiftRight_eq_div_pow, Nat.shiftLeft_eq]
    omega
  · rw [leafPpn.eq_3 _ _ _ (by decide) (by decide), BitVec.toNat_append,
      ← Nat.shiftLeft_add_eq_or_of_lt (BitVec.isLt _)]
    simp only [BitVec.extractLsb'_toNat, Nat.shiftRight_eq_div_pow, Nat.shiftLeft_eq]
    omega

end

end Hero.Sv39
