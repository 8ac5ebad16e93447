import Mathlib.Data.BitVec
import Mathlib.Tactic.Common

/-!
# Physical memory in user space

`PhysMem` maps a window of `/dev/mem` and gives access to the physical bytes of the window.  An
access is the list of the virtual bytes it touches, in order; the values play no part in where it
goes.
-/

namespace Hero.Apps

/-- What the constructor and the methods throw. -/
inductive Exn (w : Nat) where
  | baseAddrNotAligned (baseAddr : BitVec w)
  | openFailed
  | mmapFailed
  | addrNotMapped (physAddr : BitVec w)
  | addrRangeNotMapped (physAddr nBytes : BitVec w)
  | undefinedForMock
  deriving DecidableEq, Repr

/-- What `mmap` set up: `length` bytes of `/dev/mem` from `offset` on are at `ptr`. -/
structure Mapping (w : Nat) where
  ptr : BitVec w
  length : BitVec w
  offset : BitVec w
  deriving DecidableEq, Repr

/-- The operating system; `mmap` takes a length and an offset. -/
structure Os (w : Nat) where
  pageShift : Nat
  openDevMem : Bool
  mmap : BitVec w → BitVec w → Option (BitVec w)

namespace Os

variable {w : Nat} (os : Os w)

def pageSize : Nat := 2 ^ os.pageShift

/-- `n` bytes in whole pages. -/
def pages (n : Nat) : Nat := (n + os.pageSize - 1) / os.pageSize * os.pageSize

/-- The physical byte behind a virtual one; a mapping spans whole pages. -/
def physical (m : Mapping w) (va : BitVec w) : Option Nat :=
  let i := (va - m.ptr).toNat
  if i < os.pages m.length.toNat then some (m.offset.toNat + i) else none

end Os

/-- `map_ptr` is `mapping.ptr`, and `fd` is not used after the constructor. -/
structure PhysMem (w : Nat) where
  baseAddr : BitVec w
  nBytes : BitVec w
  mapMask : BitVec w
  mapping : Mapping w
  mockOnly : Bool
  deriving DecidableEq, Repr

namespace PhysMem

variable {w : Nat}

/-- The protected constructor. -/
def init (os : Os w) (baseAddr nBytes : BitVec w) (mockOnly : Bool) : Except (Exn w) (PhysMem w) :=
  let mapMask := nBytes - 1
  if baseAddr.toNat % os.pageSize ≠ 0 then throw (.baseAddrNotAligned baseAddr)
  else if mockOnly then return ⟨baseAddr, nBytes, mapMask, ⟨0, 0, 0⟩, true⟩
  else if os.openDevMem then
    let offset := baseAddr &&& ~~~mapMask
    match os.mmap nBytes offset with
    | some ptr => return ⟨baseAddr, nBytes, mapMask, ⟨ptr, nBytes, offset⟩, false⟩
    | none => throw .mmapFailed
  else throw .openFailed

variable (m : PhysMem w)

def mapsAddr (physAddr : BitVec w) : Bool :=
  m.baseAddr ≤ physAddr && physAddr < m.baseAddr + m.nBytes

def mapsAddrRange (physAddr nBytes : BitVec w) : Bool :=
  m.mapsAddr physAddr && m.mapsAddr (physAddr + nBytes - 1)

def relPtr (physAddr : BitVec w) : Except (Exn w) (BitVec w) :=
  if m.mockOnly then throw .undefinedForMock
  else return m.mapping.ptr + (physAddr &&& m.mapMask)

def validateAddr (physAddr : BitVec w) : Except (Exn w) Unit :=
  if m.mapsAddr physAddr then return () else throw (.addrNotMapped physAddr)

def validateAddrRange (physAddr nBytes : BitVec w) : Except (Exn w) Unit :=
  if m.mapsAddrRange physAddr nBytes then return () else throw (.addrRangeNotMapped physAddr nBytes)

end PhysMem

section Loops

variable {w : Nat}

/-- The `n` bytes from a pointer on. -/
def bytesFrom (ptr : BitVec w) : Nat → List (BitVec w)
  | 0 => []
  | n + 1 => ptr :: bytesFrom (ptr + 1) n

/-- Where a loop leaves the pointer and the number of bytes, and what it touches. -/
structure Touched (w : Nat) where
  bytes : List (BitVec w)
  ptr : BitVec w
  nBytes : Nat

/-- Byte accesses until the pointer is 64-bit aligned. -/
def alignLoop (ptr : BitVec w) : Nat → Touched w
  | 0 => ⟨[], ptr, 0⟩
  | n + 1 =>
    if ptr.toNat % 8 ≠ 0 then
      let rest := alignLoop (ptr + 1) n
      { rest with bytes := ptr :: rest.bytes }
    else ⟨[], ptr, n + 1⟩

/-- As many 64-bit accesses as possible. -/
def wordLoop (ptr : BitVec w) (n : Nat) : Touched w :=
  if 7 < n then
    let rest := wordLoop (ptr + 8) (n - 8)
    { rest with bytes := bytesFrom ptr 8 ++ rest.bytes }
  else ⟨[], ptr, n⟩

/-- The three loops of `set`, `copy_to` and `copy_from`; the last one goes on with byte accesses. -/
def blockAccess (ptr : BitVec w) (n : Nat) : List (BitVec w) :=
  let aligned := alignLoop ptr n
  let words := wordLoop aligned.ptr aligned.nBytes
  aligned.bytes ++ words.bytes ++ bytesFrom words.ptr words.nBytes

end Loops

namespace PhysMem

variable {w : Nat} (m : PhysMem w)

/-- One access to a value of `sizeOf` bytes. -/
def accessValue (physAddr : BitVec w) (sizeOf : Nat) : Except (Exn w) (List (BitVec w)) := do
  m.validateAddr physAddr
  if m.mockOnly then return []
  let ptr ← m.relPtr physAddr
  return bytesFrom ptr sizeOf

def accessRange (physAddr nBytes : BitVec w) : Except (Exn w) (List (BitVec w)) := do
  m.validateAddrRange physAddr nBytes
  if m.mockOnly then return []
  let ptr ← m.relPtr physAddr
  return blockAccess ptr nBytes.toNat

def read (physAddr : BitVec w) (sizeOf : Nat) := m.accessValue physAddr sizeOf

def write (physAddr : BitVec w) (sizeOf : Nat) := m.accessValue physAddr sizeOf

def set (physAddr nBytes : BitVec w) := m.accessRange physAddr nBytes

def copyTo (physAddr nBytes : BitVec w) := m.accessRange physAddr nBytes

def copyFrom (physAddr nBytes : BitVec w) := m.accessRange physAddr nBytes

end PhysMem

/-- A call of one of the methods; values of any size can be read and written. -/
inductive Access (w : Nat) where
  | read (physAddr : BitVec w) (sizeOf : Nat)
  | write (physAddr : BitVec w) (sizeOf : Nat)
  | set (physAddr nBytes : BitVec w)
  | copyTo (physAddr nBytes : BitVec w)
  | copyFrom (physAddr nBytes : BitVec w)
  deriving DecidableEq, Repr

namespace Access

variable {w : Nat}

def physAddr : Access w → BitVec w
  | .read physAddr _ | .write physAddr _ | .set physAddr _ | .copyTo physAddr _
  | .copyFrom physAddr _ => physAddr

def size : Access w → Nat
  | .read _ sizeOf | .write _ sizeOf => sizeOf
  | .set _ nBytes | .copyTo _ nBytes | .copyFrom _ nBytes => nBytes.toNat

def run (m : PhysMem w) : Access w → Except (Exn w) (List (BitVec w))
  | .read physAddr sizeOf => m.read physAddr sizeOf
  | .write physAddr sizeOf => m.write physAddr sizeOf
  | .set physAddr nBytes => m.set physAddr nBytes
  | .copyTo physAddr nBytes => m.copyTo physAddr nBytes
  | .copyFrom physAddr nBytes => m.copyFrom physAddr nBytes

/-- The check a method makes. -/
def accepted (m : PhysMem w) : Access w → Bool
  | .read physAddr _ | .write physAddr _ => m.mapsAddr physAddr
  | .set physAddr nBytes | .copyTo physAddr nBytes | .copyFrom physAddr nBytes =>
    m.mapsAddrRange physAddr nBytes

/-- The virtual bytes touched are the physical bytes addressed, and those are in the window. -/
def Confined (os : Os w) (m : PhysMem w) (a : Access w) (touched : List (BitVec w)) : Prop :=
  touched.map (os.physical m.mapping) =
      (List.range a.size).map (fun i => some (a.physAddr.toNat + i)) ∧
    ∀ i < a.size, m.baseAddr.toNat ≤ a.physAddr.toNat + i ∧
      a.physAddr.toNat + i < m.baseAddr.toNat + m.nBytes.toNat

/-- The access ends in the window of `nBytes` bytes from `baseAddr` on and in the mapping, and its
address and the base differ only in bits of the mask. -/
def InWindow (os : Os w) (baseAddr nBytes : BitVec w) (a : Access w) : Prop :=
  a.physAddr &&& ~~~(nBytes - 1) = baseAddr &&& ~~~(nBytes - 1) ∧
    a.physAddr.toNat + a.size ≤ baseAddr.toNat + nBytes.toNat ∧
    a.physAddr.toNat + a.size ≤ (baseAddr &&& ~~~(nBytes - 1)).toNat + os.pages nBytes.toNat

end Access

section Loops

variable {w : Nat} (ptr : BitVec w)

theorem bytesFrom_eq_map (n : Nat) :
    bytesFrom ptr n = (List.range n).map fun i => ptr + BitVec.ofNat w i := by
  induction n generalizing ptr with
  | zero => rfl
  | succ n ih =>
    rw [bytesFrom, ih, List.range_succ_eq_map, List.map_cons, List.map_map]
    congr 1
    · simp
    · apply List.map_congr_left
      intro i _
      rw [Function.comp_apply, Nat.succ_eq_add_one, Nat.add_comm i 1, BitVec.ofNat_add,
        ← BitVec.add_assoc]
      rfl

theorem bytesFrom_add (k n : Nat) :
    bytesFrom ptr (k + n) = bytesFrom ptr k ++ bytesFrom (ptr + BitVec.ofNat w k) n := by
  simp only [bytesFrom_eq_map, List.range_add, List.map_append, List.map_map]
  congr 1
  apply List.map_congr_left
  intro i _
  simp only [Function.comp_apply, BitVec.ofNat_add, BitVec.add_assoc]

theorem alignLoop_spec (n : Nat) : (alignLoop ptr n).bytes ++
    bytesFrom (alignLoop ptr n).ptr (alignLoop ptr n).nBytes = bytesFrom ptr n := by
  induction n generalizing ptr with
  | zero => rfl
  | succ n ih =>
    rw [alignLoop]
    split
    · simp only [List.cons_append, ih, bytesFrom]
    · rfl

theorem wordLoop_spec (n : Nat) : (wordLoop ptr n).bytes ++
    bytesFrom (wordLoop ptr n).ptr (wordLoop ptr n).nBytes = bytesFrom ptr n := by
  fun_induction wordLoop ptr n with
  | case1 ptr n hlt rest ih =>
    have hsplit : bytesFrom ptr n = bytesFrom ptr 8 ++ bytesFrom (ptr + 8) (n - 8) := by
      have hn : n = 8 + (n - 8) := by omega
      rw [hn, bytesFrom_add, Nat.add_sub_cancel_left]
      rfl
    rw [hsplit, List.append_assoc, ih]
  | case2 ptr n hge => rfl

/-- The three loops touch each byte once, in order. -/
theorem blockAccess_eq (n : Nat) : blockAccess ptr n = bytesFrom ptr n := by
  rw [blockAccess, List.append_assoc, wordLoop_spec, alignLoop_spec]

end Loops

namespace PhysMem

variable {w : Nat} {os : Os w} {baseAddr nBytes physAddr : BitVec w} {m : PhysMem w}

theorem init_eq_ok (h : init os baseAddr nBytes false = .ok m) : m.baseAddr = baseAddr ∧
    m.nBytes = nBytes ∧ m.mapMask = nBytes - 1 ∧ m.mockOnly = false ∧
    m.mapping.length = nBytes ∧ m.mapping.offset = baseAddr &&& ~~~(nBytes - 1) := by
  simp only [init, Bool.false_eq_true, if_false] at h
  split at h
  · cases h
  split at h
  · split at h
    · cases h
      exact ⟨rfl, rfl, rfl, rfl, rfl, rfl⟩
    · cases h
  · cases h

/-- A window that reaches beyond the last address maps nothing. -/
theorem mapsAddr_iff (h : m.mapsAddr physAddr = true) : m.baseAddr.toNat ≤ physAddr.toNat ∧
    physAddr.toNat < m.baseAddr.toNat + m.nBytes.toNat ∧
    m.baseAddr.toNat + m.nBytes.toNat < 2 ^ w := by
  simp only [mapsAddr, Bool.and_eq_true, decide_eq_true_eq, BitVec.le_def, BitVec.lt_def,
    BitVec.toNat_add] at h
  obtain ⟨hle, hlt⟩ := h
  have hbase := m.baseAddr.isLt
  have hn := m.nBytes.isLt
  by_cases hwrap : m.baseAddr.toNat + m.nBytes.toNat < 2 ^ w
  · rw [Nat.mod_eq_of_lt hwrap] at hlt
    exact ⟨hle, hlt, hwrap⟩
  · have hmod : (m.baseAddr.toNat + m.nBytes.toNat) % 2 ^ w =
        m.baseAddr.toNat + m.nBytes.toNat - 2 ^ w := by
      rw [Nat.mod_eq_sub_mod (by omega), Nat.mod_eq_of_lt (by omega)]
    omega

theorem accessValue_eq (hmock : m.mockOnly = false) (sizeOf : Nat) :
    m.accessValue physAddr sizeOf = if m.mapsAddr physAddr then
      .ok (bytesFrom (m.mapping.ptr + (physAddr &&& m.mapMask)) sizeOf)
    else .error (.addrNotMapped physAddr) := by
  simp only [accessValue, validateAddr, relPtr, hmock, Bool.false_eq_true, if_false]
  split <;> rfl

theorem accessRange_eq (hmock : m.mockOnly = false) (nBytes : BitVec w) :
    m.accessRange physAddr nBytes = if m.mapsAddrRange physAddr nBytes then
      .ok (bytesFrom (m.mapping.ptr + (physAddr &&& m.mapMask)) nBytes.toNat)
    else .error (.addrRangeNotMapped physAddr nBytes) := by
  simp only [accessRange, validateAddrRange, relPtr, hmock, Bool.false_eq_true, if_false,
    blockAccess_eq]
  split <;> rfl

end PhysMem

namespace Access

variable {w : Nat} {os : Os w} {m : PhysMem w} {a : Access w}

private theorem ite_eq_ok {ε α : Type} {b : Bool} {e : ε} {x y : α} :
    (if b then Except.ok x else Except.error e) = .ok y ↔ b = true ∧ y = x := by
  cases b <;> simp [eq_comm]

theorem run_eq_ok (hmock : m.mockOnly = false) {touched : List (BitVec w)} :
    a.run m = .ok touched ↔ a.accepted m = true ∧
      touched = bytesFrom (m.mapping.ptr + (a.physAddr &&& m.mapMask)) a.size := by
  cases a with
  | read physAddr sizeOf | write physAddr sizeOf =>
    change m.accessValue physAddr sizeOf = _ ↔ m.mapsAddr physAddr = true ∧ _
    rw [PhysMem.accessValue_eq hmock]
    exact ite_eq_ok
  | set physAddr nBytes | copyTo physAddr nBytes | copyFrom physAddr nBytes =>
    change m.accessRange physAddr nBytes = _ ↔ m.mapsAddrRange physAddr nBytes = true ∧ _
    rw [PhysMem.accessRange_eq hmock]
    exact ite_eq_ok

theorem mapsAddr_of_accepted (h : a.accepted m = true) : m.mapsAddr a.physAddr = true := by
  cases a with
  | read | write => exact h
  | set | copyTo | copyFrom => exact (Bool.and_eq_true_iff.mp h).1

/-- The bits of an address inside and outside of a mask add up to it. -/
theorem toNat_mask_add (addr mask : BitVec w) :
    (addr &&& ~~~mask).toNat + (addr &&& mask).toNat = addr.toNat := by
  have hdisjoint : (addr &&& ~~~mask) &&& (addr &&& mask) = 0#w := by
    ext i hi
    simp only [BitVec.getElem_and, BitVec.getElem_not, BitVec.getElem_zero]
    cases mask[i] <;> simp
  rw [← BitVec.toNat_add_of_and_eq_zero hdisjoint, BitVec.add_eq_or_of_and_eq_zero _ _ hdisjoint]
  congr 1
  ext i hi
  simp only [BitVec.getElem_or, BitVec.getElem_and, BitVec.getElem_not]
  cases mask[i] <;> simp

theorem pages_ge (os : Os w) (n : Nat) : n ≤ os.pages n := by
  have hpos : 0 < os.pageSize := Nat.two_pow_pos _
  have hdiv := Nat.div_add_mod (n + os.pageSize - 1) os.pageSize
  have hmod := Nat.mod_lt (n + os.pageSize - 1) hpos
  rw [Os.pages, Nat.mul_comm]
  omega

/-- What is behind a byte that an access touches. -/
theorem physical_touched {baseAddr nBytes : BitVec w}
    (h : PhysMem.init os baseAddr nBytes false = .ok m) (a : Access w) (i : Nat) :
    os.physical m.mapping (m.mapping.ptr + (a.physAddr &&& m.mapMask) + BitVec.ofNat w i) =
      let j := ((a.physAddr &&& (nBytes - 1)).toNat + i) % 2 ^ w
      if j < os.pages nBytes.toNat then some ((baseAddr &&& ~~~(nBytes - 1)).toNat + j)
      else none := by
  obtain ⟨-, -, hmask, -, hlength, hoffset⟩ := PhysMem.init_eq_ok h
  have hindex : m.mapping.ptr + (a.physAddr &&& m.mapMask) + BitVec.ofNat w i - m.mapping.ptr =
      (a.physAddr &&& (nBytes - 1)) + BitVec.ofNat w i := by
    rw [hmask, BitVec.add_assoc, BitVec.add_comm, BitVec.add_sub_cancel]
  simp only [Os.physical, hindex, hlength, hoffset, BitVec.toNat_add, BitVec.toNat_ofNat,
    Nat.add_mod_mod]

theorem confined_iff_forall {touched : List (BitVec w)} {ptr : BitVec w}
    (htouched : touched = bytesFrom ptr a.size) : a.Confined os m touched ↔
      ∀ i < a.size,
        os.physical m.mapping (ptr + BitVec.ofNat w i) = some (a.physAddr.toNat + i) ∧
        m.baseAddr.toNat ≤ a.physAddr.toNat + i ∧
        a.physAddr.toNat + i < m.baseAddr.toNat + m.nBytes.toNat := by
  rw [Confined, htouched, bytesFrom_eq_map, List.map_map, List.map_inj_left]
  simp only [List.mem_range, Function.comp_apply]
  constructor
  · intro h i hi
    exact ⟨h.1 i hi, h.2 i hi⟩
  · intro h
    exact ⟨fun i hi => (h i hi).1, fun i hi => (h i hi).2⟩

theorem confined_of_inWindow {baseAddr nBytes : BitVec w}
    (h : PhysMem.init os baseAddr nBytes false = .ok m) (haccepted : a.accepted m = true)
    (hin : a.InWindow os baseAddr nBytes) {i : Nat} (hi : i < a.size) :
    os.physical m.mapping (m.mapping.ptr + (a.physAddr &&& m.mapMask) + BitVec.ofNat w i) =
      some (a.physAddr.toNat + i) := by
  obtain ⟨hbase, hn, -⟩ := PhysMem.init_eq_ok h
  obtain ⟨hle, -, hfits⟩ := PhysMem.mapsAddr_iff (mapsAddr_of_accepted haccepted)
  obtain ⟨hbits, hwindow, hmapping⟩ := hin
  have hsum := toNat_mask_add a.physAddr (nBytes - 1)
  rw [hbase, hn] at hfits
  rw [hbits] at hsum
  rw [physical_touched h, Nat.mod_eq_of_lt (by omega)]
  simp only
  rw [if_pos (by omega), ← Nat.add_assoc, hsum]

theorem inWindow_of_confined {baseAddr nBytes : BitVec w}
    (h : PhysMem.init os baseAddr nBytes false = .ok m) (hpos : 0 < a.size)
    (hconfined : ∀ i < a.size,
      os.physical m.mapping (m.mapping.ptr + (a.physAddr &&& m.mapMask) + BitVec.ofNat w i) =
          some (a.physAddr.toNat + i) ∧
        m.baseAddr.toNat ≤ a.physAddr.toNat + i ∧
        a.physAddr.toNat + i < m.baseAddr.toNat + m.nBytes.toNat) :
    a.InWindow os baseAddr nBytes := by
  obtain ⟨hbase, hn, -⟩ := PhysMem.init_eq_ok h
  rw [hbase, hn] at hconfined
  have hbyte : ∀ i < a.size, ((a.physAddr &&& (nBytes - 1)).toNat + i) % 2 ^ w <
        os.pages nBytes.toNat ∧ (baseAddr &&& ~~~(nBytes - 1)).toNat +
          ((a.physAddr &&& (nBytes - 1)).toNat + i) % 2 ^ w = a.physAddr.toNat + i := by
    intro i hi
    have hphysical := (hconfined i hi).1
    rw [physical_touched h] at hphysical
    simpa using hphysical
  have hfirst := (hbyte 0 hpos).2
  have hlast := hbyte (a.size - 1) (by omega)
  have hend := (hconfined (a.size - 1) (by omega)).2.2
  have hsum := toNat_mask_add a.physAddr (nBytes - 1)
  rw [Nat.add_zero, Nat.add_zero, Nat.mod_eq_of_lt (BitVec.isLt _)] at hfirst
  refine ⟨?_, by omega, by omega⟩
  apply BitVec.eq_of_toNat_eq
  omega

/-- In a window of a power of two bytes at a multiple of its size, the check for the end is all that
an access needs. -/
theorem inWindow_of_natural {baseAddr nBytes : BitVec w} {k : Nat} (hn : nBytes.toNat = 2 ^ k)
    (hbase : baseAddr.toNat % 2 ^ k = 0) (hle : baseAddr.toNat ≤ a.physAddr.toNat)
    (hlt : a.physAddr.toNat < baseAddr.toNat + 2 ^ k)
    (hend : a.physAddr.toNat + a.size ≤ baseAddr.toNat + 2 ^ k) :
    a.InWindow os baseAddr nBytes := by
  have hpow := Nat.two_pow_pos k
  have hmask : (nBytes - 1).toNat = 2 ^ k - 1 := by
    have hfits := nBytes.isLt
    rw [hn] at hfits
    have hone : (1 : BitVec w).toNat = 1 := Nat.mod_eq_of_lt (show 1 < 2 ^ w by omega)
    have hsub : 1 ≤ nBytes := by
      rw [BitVec.le_def, hone, hn]
      exact hpow
    rw [BitVec.toNat_sub_of_le hsub, hone, hn]
  have hlow : ∀ addr : BitVec w, (addr &&& (nBytes - 1)).toNat = addr.toNat % 2 ^ k := by
    intro addr
    rw [BitVec.toNat_and, hmask, Nat.and_two_pow_sub_one_eq_mod]
  have hsum := toNat_mask_add a.physAddr (nBytes - 1)
  have hsumBase := toNat_mask_add baseAddr (nBytes - 1)
  have hmod : a.physAddr.toNat % 2 ^ k = a.physAddr.toNat - baseAddr.toNat := by
    obtain ⟨q, hq⟩ := Nat.dvd_of_mod_eq_zero hbase
    have hoff : a.physAddr.toNat = 2 ^ k * q + (a.physAddr.toNat - baseAddr.toNat) := by omega
    rw [hoff, Nat.mul_add_mod_self_left, ← hoff]
    exact Nat.mod_eq_of_lt (by omega)
  have hpages := pages_ge os nBytes.toNat
  rw [hlow] at hsum hsumBase
  refine ⟨BitVec.eq_of_toNat_eq (by omega), by omega, by omega⟩

end Access

section

open Access

variable {w : Nat} {os : Os w} {m : PhysMem w}

end

/-- Pages of 4 kB, and every mapping at one place. -/
private def linux : Os 64 := ⟨12, true, fun _ _ => some 0x7f0000000000⟩

/-- The page at `0x1000`. -/
private def onePage : PhysMem 64 :=
  ⟨0x1000, 0x1000, 0xfff, ⟨0x7f0000000000, 0x1000, 0x1000⟩, false⟩

end Hero.Apps
