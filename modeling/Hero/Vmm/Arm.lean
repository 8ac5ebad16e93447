import Hero.Framework.BitField
import Hero.Framework.Machine
import Hero.Vmm.Basic
import Mathlib.Tactic.SplitIfs

/-!
# Page-table walk for 32-bit ARM hosts

`virt_addr_to_page_phys_addr` of the VMM library on a 32-bit ARM host.  The checks on entries get
pointers to the variables that the entries have been copied to.
-/

namespace Hero.Vmm.Arm

/-- `phys_addr_t` -/
abbrev PhysAddr := BitVec 32

/-- The memory of the host, by the 32-bit words at each address. -/
abbrev Memory := PhysAddr → BitVec 32

/-- A page and whether it is read-only. -/
structure Page where
  addr : PhysAddr
  rdonly : Bool
  deriving DecidableEq, Repr

/-- A pointer to a variable of type `phys_addr_t`. -/
structure WordPtr where
  addr : VirtAddr
  aligned : addr.toNat % 4 = 0
  nonnull : addr ≠ 0#32

/-- The argument of a check: a pointer, and the value of the variable. -/
structure ValPtr where
  ptr : WordPtr
  val : PhysAddr

/-- `PGD_MASK` -/
def pgdMask : VirtAddr := 0xFFE00000#32

/-- `val & PAGE_MASK` -/
def maskPage (val : PhysAddr) : PhysAddr := val &&& 0xFFFFF000#32

/-- `val == 0`, for the pointer -/
def ptValIsEmpty (val : ValPtr) : Bool := val.ptr.addr = 0#32

/-- `(unsigned int)val & PGD_VALID_TYPE_TABLE`, for the pointer -/
def pgdValIsTypeTable (val : ValPtr) : Bool := val.ptr.addr &&& 2#32 = 0#32

def pgdValIsPteAddr (val : ValPtr) : Except Errno Unit :=
  if ptValIsEmpty val then .error .enxio
  else if !pgdValIsTypeTable val then .error .einval
  else .ok ()

def pteValIsTypePage (val : ValPtr) : Bool := val.val &&& 3#32 = 3#32

def pteValHasUserPerm (val : ValPtr) : Bool := val.val &&& 0x100#32 = 0x100#32

def pteValIsValidPageAddr (val : ValPtr) : Except Errno Unit :=
  if ptValIsEmpty val then .error .enxio
  else if !pteValIsTypePage val then .error .einval
  else if !pteValHasUserPerm val then .error .eperm
  else .ok ()

def pteValIsRdonlyPage (val : ValPtr) : Bool := val.val &&& 0x80#32 = 0x80#32

/-- The index of the lower half of a 64-bit entry. -/
def pgdIndex (virtAddr : VirtAddr) : VirtAddr := ((virtAddr >>> 21) &&& 2047#32) <<< 1

def pteIndex (virtAddr : VirtAddr) : VirtAddr := (virtAddr >>> 12) &&& 511#32

/-- `VMM_PGD_BPTR` -/
def pgdBptr : VirtAddr := 0x20000000#32

/-- `PTE_BPTR` and `PGD_EPTR`, 4096 words later -/
def pteBptr : VirtAddr := 0x20004000#32

/-- `PTE_EPTR` -/
def pteEptr : VirtAddr := 0x20004800#32

/-- A RAB slice that maps a table. -/
structure Slice where
  vaStart : VirtAddr
  vaEnd : VirtAddr
  offset : PhysAddr

def Slice.contains (sl : Slice) (addr : VirtAddr) : Bool := sl.vaStart ≤ addr && addr ≤ sl.vaEnd

def Slice.translate (sl : Slice) (addr : VirtAddr) : PhysAddr := sl.offset + (addr - sl.vaStart)

/-- The slice with which the host maps the first-level table. -/
def pgdSlice (root : PhysAddr) : Slice := ⟨pgdBptr, pteBptr - 1#32, root⟩

def pteSlice (table : PhysAddr) : Slice := ⟨pteBptr, pteEptr - 1#32, table⟩

structure WalkState where
  pgd : Slice
  /-- `RAB_CFG_PTE_PTR` -/
  pte : Option Slice
  curMappedPteAddr : VirtAddr

/-- A load by the accelerator; without a slice for its address it does not complete. -/
def WalkState.load (s : WalkState) (mem : Memory) (addr : VirtAddr) : Option (BitVec 32) :=
  ((s.pgd :: s.pte.toList).find? fun sl => sl.contains addr).map fun sl => mem (sl.translate addr)

/-- A call of `virt_addr_to_page_phys_addr`: the address of its variable `pte_phys_addr` and the
arguments. -/
structure WalkCall where
  ptePhysAddr : WordPtr
  virtAddr : VirtAddr
  pagePhysAddr : WordPtr

def pageOf (val : ValPtr) : Except Errno Page :=
  (pteValIsValidPageAddr val).map fun _ => ⟨maskPage val.val, pteValIsRdonlyPage val⟩

section

variable (mem : Memory) (s : WalkState)

/-- `get_pte_phys_addr` -/
def getPtePhysAddr (ptr : WordPtr) (index : VirtAddr) : Option (Except Errno PhysAddr) :=
  (s.load mem (pgdBptr + 4#32 * index)).map fun val =>
    (pgdValIsPteAddr ⟨ptr, val⟩).map fun _ => maskPage val

/-- `get_page_phys_addr` -/
def getPagePhysAddr (ptr : WordPtr) (index : VirtAddr) : Option (Except Errno Page) :=
  (s.load mem (pteBptr + 4#32 * index)).map fun val => pageOf ⟨ptr, val⟩

/-- `config_pte_rab_slice`, and the address remembered -/
def WalkState.configPte (table : PhysAddr) (pteAddr : VirtAddr) : WalkState :=
  { s with pte := some (pteSlice table), curMappedPteAddr := pteAddr }

def readPage (call : WalkCall) : Option (Except Errno Page × WalkState) :=
  (getPagePhysAddr mem s call.pagePhysAddr (pteIndex call.virtAddr)).map fun r => (r, s)

/-- `virt_addr_to_page_phys_addr` -/
def virtAddrToPagePhysAddr (call : WalkCall) : Option (Except Errno Page × WalkState) :=
  if call.virtAddr &&& pgdMask ≠ s.curMappedPteAddr then
    match getPtePhysAddr mem s call.ptePhysAddr (pgdIndex call.virtAddr) with
    | some (.ok table) => readPage mem (s.configPte table (call.virtAddr &&& pgdMask)) call
    | some (.error e) => some (.error e, s)
    | none => none
  else readPage mem s call

end

/-- The accelerator starts, with `cur_mapped_pte_addr` as initialised. -/
def WalkState.start (root : PhysAddr) : WalkState := ⟨pgdSlice root, none, 0xFFFFFFFF#32⟩

def walkMachine (mem : Memory) : Machine WalkState WalkCall (Except Errno Page) :=
  fun s call => (virtAddrToPagePhysAddr mem s call).map fun (r, s) => (s, [r])

/-! ### The entries of an address -/

/-- The first-level entry. -/
def pgdVal (mem : Memory) (root : PhysAddr) (va : VirtAddr) : PhysAddr :=
  mem (root + 8#32 * (va >>> 21))

/-- The second-level entry, in the table that the first-level entry is the address of. -/
def pteVal (mem : Memory) (root : PhysAddr) (va : VirtAddr) : PhysAddr :=
  mem (maskPage (pgdVal mem root va) + 4#32 * ((va >>> 12) &&& 511#32))

/-- The entry is not empty, and bit 1 does not mark it as bad. -/
def IsTable (val : PhysAddr) : Prop := val ≠ 0#32 ∧ val.getLsbD 1 = false

/-- The entry is valid and young, and the page accessible from user space. -/
def IsUserPage (val : PhysAddr) : Prop :=
  val.getLsbD 0 = true ∧ val.getLsbD 1 = true ∧ val.getLsbD 8 = true

/-- The page of a second-level entry. -/
def pageAt (val : PhysAddr) : Page := ⟨val &&& 0xFFFFF000#32, val.getLsbD 7⟩

/-- A walk returns the page of the entries, and an error if there is none. -/
structure ReturnsPage (mem : Memory) (root : PhysAddr) (s : WalkState) (call : WalkCall) : Prop where
  page : ∀ page, (virtAddrToPagePhysAddr mem s call).map Prod.fst = some (.ok page) ↔
    (IsTable (pgdVal mem root call.virtAddr) ∧ IsUserPage (pteVal mem root call.virtAddr)) ∧
      page = pageAt (pteVal mem root call.virtAddr)
  error : ¬ (IsTable (pgdVal mem root call.virtAddr) ∧ IsUserPage (pteVal mem root call.virtAddr)) →
    ∃ e, (virtAddrToPagePhysAddr mem s call).map Prod.fst = some (.error e)

section

variable {mem : Memory} {s : WalkState} {root table : PhysAddr} {va va' idx : VirtAddr}

/-! ### What the checks come to -/

private theorem ptValIsEmpty_eq (val : ValPtr) : ptValIsEmpty val = false :=
  decide_eq_false val.ptr.nonnull

/-- Bit 1 of a pointer to a word is not set. -/
private theorem pgdValIsTypeTable_eq (val : ValPtr) : pgdValIsTypeTable val = true := by
  have haligned := val.ptr.aligned
  apply decide_eq_true
  rw [show (2#32 : BitVec 32) = BitVec.twoPow 32 1 from rfl, BitVec.and_twoPow, if_neg]
  rw [Bool.not_eq_true, ← BitVec.testBit_toNat, Nat.testBit_eq_decide_div_mod_eq]
  apply decide_eq_false
  omega

/-- Whatever a first-level entry holds, it is taken for the address of a table. -/
theorem pgdValIsPteAddr_ok (val : ValPtr) : pgdValIsPteAddr val = .ok () := by
  rw [pgdValIsPteAddr, ptValIsEmpty_eq, pgdValIsTypeTable_eq]
  rfl

private theorem getLsbD_iff {val : PhysAddr} (i : Nat) :
    val.getLsbD i = true ↔ val.toNat / 2 ^ i % 2 = 1 := by
  rw [← BitVec.testBit_toNat, Nat.testBit_eq_decide_div_mod_eq, decide_eq_true_eq]

private theorem pteValIsTypePage_iff (val : ValPtr) : pteValIsTypePage val = true ↔
    val.val.getLsbD 0 = true ∧ val.val.getLsbD 1 = true := by
  have hmask : (val.val &&& 3#32).toNat = val.val.toNat % 4 := by
    rw [BitVec.toNat_and]
    exact Nat.and_two_pow_sub_one_eq_mod val.val.toNat 2
  have hthree : (3#32 : PhysAddr).toNat = 3 := rfl
  rw [pteValIsTypePage, decide_eq_true_eq, ← BitVec.toNat_inj, hmask, hthree, getLsbD_iff,
    getLsbD_iff]
  omega

/-- A second-level entry leads to its page if it is one of a user page, to an error otherwise. -/
theorem pageOf_spec (val : ValPtr) : IsUserPage val.val ∧ pageOf val = .ok (pageAt val.val) ∨
    ¬ IsUserPage val.val ∧ ∃ e, pageOf val = .error e := by
  have huser : pteValHasUserPerm val = val.val.getLsbD 8 :=
    BitField.decide_and_twoPow val.val 8 (by decide)
  have hrdonly : pteValIsRdonlyPage val = val.val.getLsbD 7 :=
    BitField.decide_and_twoPow val.val 7 (by decide)
  rw [pageOf, pteValIsValidPageAddr, ptValIsEmpty_eq, if_neg Bool.false_ne_true, huser, hrdonly]
  by_cases htype : pteValIsTypePage val = true
  · have hbits := (pteValIsTypePage_iff val).mp htype
    rw [htype]
    cases hperm : val.val.getLsbD 8 with
    | true => exact Or.inl ⟨⟨hbits.1, hbits.2, hperm⟩, rfl⟩
    | false =>
      refine Or.inr ⟨?_, .eperm, rfl⟩
      intro hpage
      exact Bool.false_ne_true (hperm.symm.trans hpage.2.2)
  · refine Or.inr ⟨?_, .einval, ?_⟩
    · intro hpage
      exact htype ((pteValIsTypePage_iff val).mpr ⟨hpage.1, hpage.2.1⟩)
    · rw [Bool.not_eq_true] at htype
      rw [htype]
      rfl

/-! ### Reads through the slices -/

private theorem load_pgd (hs : s.pgd = pgdSlice root) (hidx : idx.toNat < 4096) :
    s.load mem (pgdBptr + 4#32 * idx) = some (mem (root + 4#32 * idx)) := by
  have hin : (pgdSlice root).contains (pgdBptr + 4#32 * idx) = true := by
    simp [pgdSlice, Slice.contains, pgdBptr, pteBptr, BitVec.le_def]
    omega
  have haddr : (pgdSlice root).translate (pgdBptr + 4#32 * idx) = root + 4#32 * idx := by
    simp only [pgdSlice, Slice.translate]
    rw [BitVec.add_comm pgdBptr, BitVec.add_sub_cancel]
  have hfind : (pgdSlice root :: s.pte.toList).find?
      (fun sl => sl.contains (pgdBptr + 4#32 * idx)) = some (pgdSlice root) :=
    List.find?_cons_of_pos hin
  rw [WalkState.load, hs, hfind, Option.map_some, haddr]

private theorem load_pte (hs : s.pgd = pgdSlice root) (hpte : s.pte = some (pteSlice table))
    (hidx : idx.toNat < 512) :
    s.load mem (pteBptr + 4#32 * idx) = some (mem (table + 4#32 * idx)) := by
  have hout : ¬ (pgdSlice root).contains (pteBptr + 4#32 * idx) = true := by
    simp [pgdSlice, Slice.contains, pgdBptr, pteBptr, BitVec.le_def]
    omega
  have hin : (pteSlice table).contains (pteBptr + 4#32 * idx) = true := by
    simp [pteSlice, Slice.contains, pteBptr, pteEptr, BitVec.le_def]
    omega
  have haddr : (pteSlice table).translate (pteBptr + 4#32 * idx) = table + 4#32 * idx := by
    simp only [pteSlice, Slice.translate]
    rw [BitVec.add_comm pteBptr, BitVec.add_sub_cancel]
  have hfind : (pgdSlice root :: (some (pteSlice table)).toList).find?
      (fun sl => sl.contains (pteBptr + 4#32 * idx)) = some (pteSlice table) := by
    rw [List.find?_cons_of_neg (by exact hout), Option.toList_some,
      List.find?_cons_of_pos (by exact hin)]
  rw [WalkState.load, hs, hpte, hfind, Option.map_some, haddr]

private theorem pgdIndex_toNat : (pgdIndex va).toNat = 2 * (va.toNat / 2 ^ 21) := by
  have hva := va.isLt
  have hmask : ((va >>> 21) &&& 2047#32).toNat = va.toNat / 2 ^ 21 % 2 ^ 11 := by
    rw [BitVec.toNat_and, BitVec.toNat_ushiftRight, Nat.shiftRight_eq_div_pow]
    exact Nat.and_two_pow_sub_one_eq_mod _ 11
  rw [pgdIndex, BitVec.toNat_shiftLeft, hmask, Nat.shiftLeft_eq]
  omega

private theorem pgdIndex_eq : 4#32 * pgdIndex va = 8#32 * (va >>> 21) := by
  have hva := va.isLt
  have hfour : (4#32 : VirtAddr).toNat = 4 := rfl
  have height : (8#32 : VirtAddr).toNat = 8 := rfl
  apply BitVec.eq_of_toNat_eq
  rw [BitVec.toNat_mul, BitVec.toNat_mul, pgdIndex_toNat, BitVec.toNat_ushiftRight,
    Nat.shiftRight_eq_div_pow, hfour, height]
  omega

private theorem pteIndex_lt : (pteIndex va).toNat < 512 := by
  rw [pteIndex, BitVec.toNat_and]
  exact Nat.lt_of_le_of_lt Nat.and_le_right (by decide)

/-- Addresses of one region have the same first-level entry. -/
private theorem pgdVal_congr (h : va &&& pgdMask = va' &&& pgdMask) :
    pgdVal mem root va = pgdVal mem root va' := by
  have hshift : ∀ x : VirtAddr, (x &&& pgdMask) >>> 21 = x >>> 21 := by
    intro x
    rw [BitVec.ushiftRight_and_distrib]
    have hx := x.isLt
    apply BitVec.eq_of_toNat_eq
    rw [BitVec.toNat_and, BitVec.toNat_ushiftRight, Nat.shiftRight_eq_div_pow]
    exact (Nat.and_two_pow_sub_one_eq_mod _ 11).trans (Nat.mod_eq_of_lt (by omega))
  rw [pgdVal, pgdVal, ← hshift va, ← hshift va', h]

/-- The region remembered is the one whose table is mapped. -/
structure WalkState.Caches (s : WalkState) (mem : Memory) (root : PhysAddr) : Prop where
  pgd : s.pgd = pgdSlice root
  pte : ∀ va, va &&& pgdMask = s.curMappedPteAddr → s.pte = some (pteSlice (maskPage (pgdVal mem root va)))

private theorem readPage_eq (hs : s.Caches mem root) {call : WalkCall}
    (hcur : call.virtAddr &&& pgdMask = s.curMappedPteAddr) :
    readPage mem s call = some (pageOf ⟨call.pagePhysAddr, pteVal mem root call.virtAddr⟩, s) := by
  rw [readPage, getPagePhysAddr, load_pte hs.pgd (hs.pte call.virtAddr hcur) pteIndex_lt]
  rfl

/-- A walk reads the second-level entry at the address in the first-level entry, whatever that is. -/
theorem walk_spec (hs : s.Caches mem root) (call : WalkCall) :
    ∃ s', virtAddrToPagePhysAddr mem s call =
      some (pageOf ⟨call.pagePhysAddr, pteVal mem root call.virtAddr⟩, s') ∧ s'.Caches mem root := by
  by_cases hcur : call.virtAddr &&& pgdMask = s.curMappedPteAddr
  · refine ⟨s, ?_, hs⟩
    rw [virtAddrToPagePhysAddr, if_neg (not_not.mpr hcur), readPage_eq hs hcur]
  · have hidx : (pgdIndex call.virtAddr).toNat < 4096 := by
      have hva := call.virtAddr.isLt
      rw [pgdIndex_toNat]
      omega
    have htable : getPtePhysAddr mem s call.ptePhysAddr (pgdIndex call.virtAddr) =
        some (.ok (maskPage (pgdVal mem root call.virtAddr))) := by
      rw [getPtePhysAddr, load_pgd hs.pgd hidx, Option.map_some, pgdValIsPteAddr_ok, pgdIndex_eq]
      rfl
    have hnext : (s.configPte (maskPage (pgdVal mem root call.virtAddr))
        (call.virtAddr &&& pgdMask)).Caches mem root := by
      refine ⟨hs.pgd, ?_⟩
      intro va hva
      rw [pgdVal_congr hva]
      rfl
    refine ⟨_, ?_, hnext⟩
    rw [virtAddrToPagePhysAddr, if_pos hcur, htable]
    exact readPage_eq hnext rfl

theorem caches_start : (WalkState.start root).Caches mem root := by
  refine ⟨rfl, ?_⟩
  intro va hva
  have hbit := congrArg (fun x => x.getLsbD 0) hva
  simp [pgdMask, WalkState.start] at hbit

/-- A walk goes wrong where the address in something else than a table entry leads to what looks like
the entry of a user page. -/
theorem returnsPage_iff (hs : s.Caches mem root) (call : WalkCall) :
    ReturnsPage mem root s call ↔
      (IsUserPage (pteVal mem root call.virtAddr) → IsTable (pgdVal mem root call.virtAddr)) := by
  obtain ⟨s', hwalk, -⟩ := walk_spec hs call
  have hresult : (virtAddrToPagePhysAddr mem s call).map Prod.fst =
      some (pageOf ⟨call.pagePhysAddr, pteVal mem root call.virtAddr⟩) := by
    rw [hwalk]
    rfl
  rcases pageOf_spec ⟨call.pagePhysAddr, pteVal mem root call.virtAddr⟩ with
    ⟨huser, hpage⟩ | ⟨hnone, e, herror⟩
  · rw [hpage] at hresult
    constructor
    · intro h _
      exact ((h.page _).mp hresult).1.1
    · intro h
      constructor
      · intro page
        rw [hresult]
        constructor
        · intro heq
          cases heq
          exact ⟨⟨h huser, huser⟩, rfl⟩
        · intro heq
          rw [heq.2]
      · intro hneither
        exact absurd ⟨h huser, huser⟩ hneither
  · rw [herror] at hresult
    constructor
    · intro _ huser
      exact absurd huser hnone
    · intro _
      constructor
      · intro page
        rw [hresult]
        constructor
        · intro heq
          cases heq
        · intro hboth
          exact absurd hboth.1.2 hnone
      · intro _
        exact ⟨e, hresult⟩

end

/-- For any tables all walks return what their entries say exactly if no first-level entry other than
one of a table leads to what looks like a user page. -/
theorem walks_checked_iff (mem : Memory) (root : PhysAddr) (calls : List WalkCall) :
    Machine.Along (walkMachine mem) (ReturnsPage mem root) (WalkState.start root) calls ↔
      ∀ call ∈ calls,
        IsUserPage (pteVal mem root call.virtAddr) → IsTable (pgdVal mem root call.virtAddr) := by
  have hgood : ∀ s call, WalkState.Caches s mem root → (ReturnsPage mem root s call ↔
      (IsUserPage (pteVal mem root call.virtAddr) → IsTable (pgdVal mem root call.virtAddr))) :=
    fun _ call hs => returnsPage_iff hs call
  apply Machine.along_iff_forall hgood ?_ caches_start
  intro s call hs
  obtain ⟨s', hwalk, hs'⟩ := walk_spec hs call
  refine ⟨s', [pageOf ⟨call.pagePhysAddr, pteVal mem root call.virtAddr⟩], ?_, hs'⟩
  rw [walkMachine, hwalk]
  rfl

/-- The first word of the memory looks like the entry of a user page, the other words are empty. -/
def emptyTable : Memory := fun a => if a = 0#32 then 0x1103#32 else 0#32

def stackVar : WordPtr := ⟨0x10000000#32, by decide, by decide⟩

/-- An empty first-level entry is followed to the start of the memory. -/
theorem empty_entry_followed :
    ¬ ReturnsPage emptyTable 0x4000#32 (WalkState.start 0x4000#32) ⟨stackVar, 0#32, stackVar⟩ := by
  rw [returnsPage_iff caches_start]
  intro h
  have huser : IsUserPage (pteVal emptyTable 0x4000#32 0#32) := by
    refine ⟨?_, ?_, ?_⟩
    · decide
    · decide
    · decide
  exact (h huser).1 (by decide)

end Hero.Vmm.Arm
