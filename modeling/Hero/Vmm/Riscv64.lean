import Hero.Framework.BitField
import Hero.Framework.Sv39
import Hero.Vmm.Basic
import Mathlib.Tactic.SplitIfs

/-!
# Page-table walk for RISC-V hosts

`virt_addr_to_page_phys_addr` of the VMM library on a 64-bit RISC-V host.  Tables are read through
two RAB slices: the host maps the first-level table, the walk maps the others one at a time.
-/

namespace Hero.Vmm

namespace Riscv64

open Sv39 (Memory Page)

abbrev PhysAddr := BitVec 64

/-- `LEVELS` -/
def levels : Nat := 3

/-- `PPN_SHIFT` -/
def ppnShift : Nat := 10

/-- `PPN_SIZE` -/
def ppnSize : Nat := 9

/-- `PAGE_SHIFT` -/
def pageShift : Nat := 12

/-- `VPN_SHIFT` -/
def vpnShift : Nat := pageShift

/-- `VPN_SIZE` -/
def vpnSize : Nat := 9

/-- `VMM_PGD_BPTR` -/
def pgdBptr : VirtAddr := 0x20000000#32

/-- `PTE_BPTR`, 4096 entries later -/
def pteBptr : VirtAddr := 0x20008000#32

/-- `PTE_EPTR` -/
def pteEptr : VirtAddr := 0x20010000#32

def pteValIsValid (val : PhysAddr) : Bool :=
  val &&& 1#64 = 1#64 && !(val &&& 2#64 = 0#64 && val &&& 4#64 = 4#64)

def pteValIsLeaf (val : PhysAddr) : Bool := val &&& 2#64 ≠ 0#64 || val &&& 8#64 ≠ 0#64

def pteLeafIsReadable (val : PhysAddr) : Bool := val &&& 2#64 = 2#64

def pteLeafIsWritable (val : PhysAddr) : Bool := val &&& 4#64 = 4#64

def pteLeafHasUserPerm (val : PhysAddr) : Bool := val &&& 16#64 = 16#64

/-- `(1ull << n) - 1` -/
def lowMask (n : Nat) : PhysAddr := (1#64 <<< n) - 1#64

/-- `get_page_phys_addr` -/
def getPagePhysAddr (pte : PhysAddr) (virtAddr : VirtAddr) (level : Nat) : Except Errno Page :=
  -- check valid superpage
  if (pte >>> ppnShift) &&& lowMask (ppnSize * level) ≠ 0#64 then .error .efault
  -- check accessible from user space
  else if !pteLeafIsReadable pte || !pteLeafHasUserPerm pte then .error .efault
  else .ok {
    addr := ((pte >>> ppnShift) &&& lowMask (ppnSize * levels) |||
      (virtAddr.setWidth 64 >>> vpnShift) &&& lowMask (vpnSize * level)) <<< pageShift
    rdonly := !pteLeafIsWritable pte }

/-- `get_pt_addr` -/
def getPtAddr (pte : PhysAddr) : PhysAddr := (pte >>> ppnShift) <<< pageShift

/-- A RAB slice that maps page tables. -/
structure Slice where
  vaStart : VirtAddr
  vaEnd : VirtAddr
  offset : PhysAddr

/-- The slices for the first-level table and for the table at hand. -/
structure Slices where
  pgd : Slice
  pte : Slice

def Slice.contains (sl : Slice) (addr : VirtAddr) : Bool := sl.vaStart ≤ addr && addr ≤ sl.vaEnd

def Slice.translate (sl : Slice) (addr : VirtAddr) : PhysAddr :=
  sl.offset + (addr - sl.vaStart).setWidth 64

/-- A load by the accelerator; without a slice for its address it does not complete. -/
def Slices.load (ss : Slices) (mem : Memory) (addr : VirtAddr) : Option (BitVec 64) :=
  if ss.pgd.contains addr then some (mem (ss.pgd.translate addr))
  else if ss.pte.contains addr then some (mem (ss.pte.translate addr))
  else none

/-- `config_pt_rab_slice` -/
def Slices.configPt (ss : Slices) (ptAddr : PhysAddr) : Slices :=
  { ss with pte := ⟨pteBptr, pteEptr - 1#32, ptAddr⟩ }

/-- The slices when the host has mapped the first-level table at `root`. -/
def Slices.fromHost (root : BitVec 44) (pte : Slice) : Slices :=
  ⟨⟨pgdBptr, pgdBptr + 4095#32, Sv39.pageAddr root⟩, pte⟩

/-- The index of an entry in a table of `level`, as `get_pte` computes it. -/
def pteOffset (virtAddr : VirtAddr) (level : Nat) : VirtAddr :=
  if vpnSize * (level + 1) + vpnShift ≤ 32 then
    (virtAddr >>> (vpnSize * level + vpnShift)) &&& ((1#32 <<< vpnSize) - 1#32)
  else 0#32

/-- `get_pte`: the entry and whether it is a leaf. -/
def getPte (ss : Slices) (mem : Memory) (ptPtr virtAddr : VirtAddr) (level : Nat) :
    Option (Except Errno (PhysAddr × Bool)) := do
  let pte ← ss.load mem (ptPtr + 8#32 * pteOffset virtAddr level)
  return if !pteValIsValid pte then .error .efault else .ok (pte, pteValIsLeaf pte)

/-- The loop of `virt_addr_to_page_phys_addr`, for at most `n` iterations. -/
def walkLoop (mem : Memory) (virtAddr : VirtAddr) :
    Nat → Slices → VirtAddr → Nat → Option (Except Errno Page × Slices)
  | 0, _, _, _ => none
  | n + 1, ss, ptPtr, level =>
    match getPte ss mem ptPtr virtAddr level with
    | none => none
    | some (.error e) => some (.error e, ss)
    | some (.ok (pte, leaf)) =>
      if leaf then some (getPagePhysAddr pte virtAddr level, ss)
      else match level with
        | 0 => some (.error .efault, ss)
        | level + 1 => walkLoop mem virtAddr n (ss.configPt (getPtAddr pte)) pteBptr level

/-- `virt_addr_to_page_phys_addr` -/
def virtAddrToPagePhysAddr (mem : Memory) (n : Nat) (ss : Slices) (virtAddr : VirtAddr) :
    Option (Except Errno Page × Slices) :=
  walkLoop mem virtAddr n ss pgdBptr (levels - 1)

section

variable {mem : Memory} {pte : PhysAddr} {va : VirtAddr} {level n : Nat}

theorem pteLeafIsReadable_eq : pteLeafIsReadable pte = Sv39.readable pte :=
  BitField.decide_and_twoPow pte 1 (by decide)

theorem pteLeafIsWritable_eq : pteLeafIsWritable pte = Sv39.writable pte :=
  BitField.decide_and_twoPow pte 2 (by decide)

theorem pteLeafHasUserPerm_eq : pteLeafHasUserPerm pte = Sv39.user pte :=
  BitField.decide_and_twoPow pte 4 (by decide)

theorem pteValIsValid_eq :
    pteValIsValid pte = (Sv39.valid pte && !(!Sv39.readable pte && Sv39.writable pte)) := by
  have hv : decide (pte &&& 1#64 = 1#64) = Sv39.valid pte :=
    BitField.decide_and_twoPow pte 0 (by decide)
  have hr : decide (pte &&& 2#64 = 0#64) = !Sv39.readable pte :=
    BitField.decide_and_twoPow_zero pte 1 (by decide)
  have hw : decide (pte &&& 4#64 = 4#64) = Sv39.writable pte :=
    BitField.decide_and_twoPow pte 2 (by decide)
  rw [pteValIsValid, hv, hr, hw]

theorem pteValIsLeaf_eq : pteValIsLeaf pte = (Sv39.readable pte || Sv39.executable pte) := by
  have hr : decide (pte &&& 2#64 = 0#64) = !Sv39.readable pte :=
    BitField.decide_and_twoPow_zero pte 1 (by decide)
  have hx : decide (pte &&& 8#64 = 0#64) = !Sv39.executable pte :=
    BitField.decide_and_twoPow_zero pte 3 (by decide)
  simp [pteValIsLeaf, decide_not, hr, hx]

private theorem lowMask_toNat (hn : n < 64) : (lowMask n).toNat = 2 ^ n - 1 := by
  have hlt : 2 ^ n < 2 ^ 64 := Nat.pow_lt_pow_right (by decide) hn
  have hpos : 0 < 2 ^ n := Nat.two_pow_pos n
  have hone : (1#64 <<< n).toNat = 2 ^ n := by
    rw [BitVec.toNat_shiftLeft, Nat.shiftLeft_eq]
    simpa using Nat.mod_eq_of_lt hlt
  rw [lowMask, BitVec.toNat_sub_of_le (by rw [BitVec.le_def, hone]; exact hpos), hone]
  rfl

private theorem field_toNat (x : PhysAddr) (s : Nat) (hn : n < 64) :
    ((x >>> s) &&& lowMask n).toNat = x.toNat / 2 ^ s % 2 ^ n := by
  rw [BitVec.toNat_and, lowMask_toNat hn, Nat.and_two_pow_sub_one_eq_mod,
    BitVec.toNat_ushiftRight, Nat.shiftRight_eq_div_pow]

private theorem or_eq_add {a b m : Nat} (ha : a % 2 ^ m = 0) (hb : b < 2 ^ m) : a ||| b = a + b := by
  have hdiv : 2 ^ m * (a / 2 ^ m) = a := Nat.mul_div_cancel' (Nat.dvd_of_mod_eq_zero ha)
  rw [← hdiv, Nat.two_pow_add_eq_or_of_lt hb]

/-- The address of a page under an aligned leaf is cut to 27 bits of its page number. -/
private theorem addr_toNat (hl : level ≤ 2) (hal : Sv39.aligned pte level = true) :
    (((pte >>> ppnShift) &&& lowMask (ppnSize * levels) |||
      (va.setWidth 64 >>> vpnShift) &&& lowMask (vpnSize * level)) <<< pageShift).toNat =
      (pte.toNat / 2 ^ 10 % 2 ^ 27 + va.toNat / 2 ^ 12 % 2 ^ (9 * level)) * 2 ^ 12 := by
  rw [Sv39.aligned_iff hl] at hal
  have hva := va.isLt
  have hva64 : (va.setWidth 64).toNat = va.toNat := by
    rw [BitVec.toNat_setWidth, Nat.mod_eq_of_lt (by omega)]
  have hppn : ((pte >>> ppnShift) &&& lowMask (ppnSize * levels)).toNat = pte.toNat / 2 ^ 10 % 2 ^ 27 :=
    field_toNat pte 10 (by decide)
  have hvpn : ((va.setWidth 64 >>> vpnShift) &&& lowMask (vpnSize * level)).toNat =
      va.toNat / 2 ^ 12 % 2 ^ (9 * level) := by
    rw [field_toNat _ _ (by simp only [vpnSize]; omega), hva64]
    rfl
  have hlow : pte.toNat / 2 ^ 10 % 2 ^ 27 % 2 ^ (9 * level) = 0 := by
    rw [Nat.mod_mod_of_dvd _ (Nat.pow_dvd_pow 2 (by omega))]
    exact hal
  have hsmall : va.toNat / 2 ^ 12 % 2 ^ (9 * level) < 2 ^ (9 * level) :=
    Nat.mod_lt _ (Nat.two_pow_pos _)
  have hle : 2 ^ (9 * level) ≤ 2 ^ 18 := Nat.pow_le_pow_right (by decide) (by omega)
  rw [BitVec.toNat_shiftLeft, BitVec.toNat_or, hppn, hvpn, or_eq_add hlow hsmall,
    Nat.shiftLeft_eq, pageShift, Nat.mod_eq_of_lt (by omega)]

private theorem va39_toNat : (va.setWidth 39).toNat = va.toNat := by
  have hva := va.isLt
  rw [BitVec.toNat_setWidth, Nat.mod_eq_of_lt (by omega)]

/-- What the library returns for the outcome of the walk that the architecture defines. -/
def ofSv39 : Option Page → Except Errno Page
  | some page => .ok page
  | none => .error .efault

private theorem superpage_check (hl : level ≤ 2) :
    (pte >>> ppnShift) &&& lowMask (ppnSize * level) = 0#64 ↔ Sv39.aligned pte level = true := by
  rw [← BitVec.toNat_inj, field_toNat _ _ (by simp only [ppnSize]; omega), Sv39.aligned_iff hl]
  rfl

theorem getPagePhysAddr_eq (hl : level ≤ 2)
    (hsmall : ∀ page, Sv39.leaf pte (va.setWidth 39) level = some page →
      (Sv39.ppn pte).toNat < 2 ^ 27) :
    getPagePhysAddr pte va level = ofSv39 (Sv39.leaf pte (va.setWidth 39) level) := by
  rw [getPagePhysAddr, pteLeafIsReadable_eq, pteLeafHasUserPerm_eq, pteLeafIsWritable_eq]
  by_cases hal : Sv39.aligned pte level = true
  · rw [if_neg (not_not.mpr ((superpage_check hl).mpr hal))]
    by_cases hperm : (Sv39.readable pte && Sv39.user pte) = true
    · have hleaf : Sv39.leaf pte (va.setWidth 39) level =
          some ⟨Sv39.pageAddr (Sv39.leafPpn pte (va.setWidth 39) level), !Sv39.writable pte⟩ := by
        rw [Sv39.leaf, hal, Bool.true_and, if_pos hperm]
      have hppn := hsmall _ hleaf
      have haddr : ((pte >>> ppnShift) &&& lowMask (ppnSize * levels) |||
          (va.setWidth 64 >>> vpnShift) &&& lowMask (vpnSize * level)) <<< pageShift =
          Sv39.pageAddr (Sv39.leafPpn pte (va.setWidth 39) level) := by
        apply BitVec.eq_of_toNat_eq
        rw [addr_toNat hl hal, Sv39.pageAddr_toNat, Sv39.leafPpn_toNat hl hal, va39_toNat]
        rw [Sv39.ppn_toNat] at hppn
        omega
      rw [Bool.and_eq_true] at hperm
      rw [hleaf, ofSv39, if_neg (by simp [hperm]), haddr]
    · rw [Bool.and_eq_true] at hperm
      have hno : (!Sv39.readable pte || !Sv39.user pte) = true := by
        cases hr : Sv39.readable pte <;> cases hu : Sv39.user pte <;> simp_all
      rw [if_pos hno, Sv39.leaf, Bool.and_assoc, if_neg]
      · rfl
      · simp [hperm]
  · rw [if_pos ((superpage_check hl).not.mpr hal), Sv39.leaf, if_neg]
    · rfl
    · simp [hal]

private theorem pteOffset_toNat (hva : va.toNat < 2 ^ 30) (hl : level ≤ 2) :
    (pteOffset va level).toNat = (Sv39.vpn (va.setWidth 39) level).toNat := by
  rw [Sv39.vpn_toNat, va39_toNat]
  by_cases hguard : vpnSize * (level + 1) + vpnShift ≤ 32
  · rw [pteOffset, if_pos hguard, BitVec.toNat_and, BitVec.toNat_ushiftRight,
      Nat.shiftRight_eq_div_pow, Nat.add_comm 12]
    exact Nat.and_two_pow_sub_one_eq_mod _ 9
  · have htop : level = 2 := by
      simp only [vpnSize, vpnShift, pageShift] at hguard
      omega
    subst htop
    rw [pteOffset, if_neg hguard, Nat.div_eq_of_lt hva]
    rfl

private theorem entry_toNat (v : BitVec 9) : (v ++ 0#3).toNat = 8 * v.toNat := by
  rw [BitVec.toNat_append]
  simp [Nat.shiftLeft_eq, Nat.mul_comm]

/-- Reads through the pointer `ptPtr` reach the entries of `table`. -/
def Slices.Reaches (ss : Slices) (mem : Memory) (ptPtr : VirtAddr) (table : BitVec 44) : Prop :=
  ∀ (off : VirtAddr) (v : BitVec 9), off.toNat = v.toNat →
    ss.load mem (ptPtr + 8#32 * off) =
      some (mem (Sv39.pageAddr table + (v ++ 0#3).setWidth 64))

theorem reaches_pgd (mem : Memory) (root : BitVec 44) (sl : Slice) :
    (Slices.fromHost root sl).Reaches mem pgdBptr root := by
  intro off v hoff
  have hv := v.isLt
  have hin : (Slices.fromHost root sl).pgd.contains (pgdBptr + 8#32 * off) = true := by
    simp [Slices.fromHost, Slice.contains, pgdBptr, BitVec.le_def]
    omega
  have haddr : (Slices.fromHost root sl).pgd.translate (pgdBptr + 8#32 * off) =
      Sv39.pageAddr root + (v ++ 0#3).setWidth 64 := by
    simp only [Slices.fromHost, Slice.translate]
    congr 1
    apply BitVec.eq_of_toNat_eq
    simp [entry_toNat]
    omega
  rw [Slices.load, if_pos hin, haddr]

theorem reaches_pte (mem : Memory) (root table : BitVec 44) (sl : Slice) :
    ((Slices.fromHost root sl).configPt (Sv39.pageAddr table)).Reaches mem pteBptr table := by
  intro off v hoff
  have hv := v.isLt
  have hout : (Slices.fromHost root sl).pgd.contains (pteBptr + 8#32 * off) = false := by
    simp [Slices.fromHost, Slice.contains, pgdBptr, pteBptr, BitVec.le_def]
    omega
  have hin : ((Slices.fromHost root sl).configPt (Sv39.pageAddr table)).pte.contains
      (pteBptr + 8#32 * off) = true := by
    simp [Slices.configPt, Slice.contains, pteEptr, pteBptr, BitVec.le_def]
    omega
  have haddr : ((Slices.fromHost root sl).configPt (Sv39.pageAddr table)).pte.translate
      (pteBptr + 8#32 * off) = Sv39.pageAddr table + (v ++ 0#3).setWidth 64 := by
    simp only [Slices.configPt, Slice.translate]
    congr 1
    apply BitVec.eq_of_toNat_eq
    simp [entry_toNat]
    omega
  rw [Slices.load, if_neg (by simp [Slices.configPt, hout]), if_pos hin, haddr]

theorem getPtAddr_eq (hpte : pte.toNat < 2 ^ 54) : getPtAddr pte = Sv39.pageAddr (Sv39.ppn pte) := by
  apply BitVec.eq_of_toNat_eq
  rw [Sv39.pageAddr_toNat, Sv39.ppn_toNat, getPtAddr, BitVec.toNat_shiftLeft,
    BitVec.toNat_ushiftRight, Nat.shiftRight_eq_div_pow, Nat.shiftLeft_eq, ppnShift, pageShift]
  omega

end

/-- The entries that the walk meets: pointers have their reserved bits clear, pages are among the
first 2^27. -/
def Served (mem : Memory) (va : BitVec 39) (table : BitVec 44) (i : Nat) : Prop :=
  let pte := mem (Sv39.entryAddr table va i)
  if !Sv39.valid pte || !Sv39.readable pte && Sv39.writable pte then True
  else if Sv39.readable pte || Sv39.executable pte then
    ∀ page, Sv39.leaf pte va i = some page → (Sv39.ppn pte).toNat < 2 ^ 27
  else match i with
    | 0 => True
    | i + 1 => pte.toNat < 2 ^ 54 ∧ Served mem va (Sv39.ppn pte) i

section

variable {mem : Memory} {va : VirtAddr} {table : BitVec 44} {ss : Slices} {ptPtr : VirtAddr}
  {i n : Nat}

private theorem getPte_eq (hva : va.toNat < 2 ^ 30) (hi : i ≤ 2) (hreach : ss.Reaches mem ptPtr table) :
    let pte := mem (Sv39.entryAddr table (va.setWidth 39) i)
    getPte ss mem ptPtr va i =
      some (if !Sv39.valid pte || !Sv39.readable pte && Sv39.writable pte then .error .efault
        else .ok (pte, Sv39.readable pte || Sv39.executable pte)) := by
  intro pte
  have hload := hreach _ _ (pteOffset_toNat hva hi)
  have hvalid : (!pteValIsValid pte) = (!Sv39.valid pte || !Sv39.readable pte && Sv39.writable pte) := by
    rw [pteValIsValid_eq, Bool.not_and, Bool.not_not]
  rw [getPte, hload]
  change some (if (!pteValIsValid pte) = true then _ else Except.ok (pte, pteValIsLeaf pte)) = _
  rw [hvalid, pteValIsLeaf_eq]

/-- An iteration whose entry is invalid or a leaf ends the loop. -/
private theorem walkLoop_stop (hva : va.toNat < 2 ^ 30) (hi : i ≤ 2)
    (hreach : ss.Reaches mem ptPtr table) (hserved : Served mem (va.setWidth 39) table i)
    (hstop : let pte := mem (Sv39.entryAddr table (va.setWidth 39) i)
      (!Sv39.valid pte || !Sv39.readable pte && Sv39.writable pte) = true ∨
        (Sv39.readable pte || Sv39.executable pte) = true) :
    walkLoop mem va (n + 1) ss ptPtr i =
      some (ofSv39 (Sv39.walkFrom mem (va.setWidth 39) table i), ss) := by
  rw [walkLoop, getPte_eq hva hi hreach, Sv39.walkFrom.eq_def]
  rw [Served.eq_def] at hserved
  generalize hpte : mem (Sv39.entryAddr table (va.setWidth 39) i) = pte at hserved hstop ⊢
  by_cases hinvalid : (!Sv39.valid pte || !Sv39.readable pte && Sv39.writable pte) = true
  · simp only [if_pos hinvalid]
    rfl
  · have hleaf := hstop.resolve_left hinvalid
    simp only [if_neg hinvalid, if_pos hleaf] at hserved ⊢
    rw [getPagePhysAddr_eq hi hserved]

/-- An iteration whose entry points to a table goes on with that table. -/
private theorem walkLoop_next (hva : va.toNat < 2 ^ 30) (hi : i + 1 ≤ 2)
    (hreach : ss.Reaches mem ptPtr table) {pte : PhysAddr}
    (hpte : mem (Sv39.entryAddr table (va.setWidth 39) (i + 1)) = pte)
    (hvalid : ¬ (!Sv39.valid pte || !Sv39.readable pte && Sv39.writable pte) = true)
    (hnext : ¬ (Sv39.readable pte || Sv39.executable pte) = true) :
    walkLoop mem va (n + 1) ss ptPtr (i + 1) =
      walkLoop mem va n (ss.configPt (getPtAddr pte)) pteBptr i := by
  rw [walkLoop, getPte_eq hva hi hreach, hpte, if_neg hvalid]
  simp only [if_neg hnext]

/-- Below the last level there are no tables. -/
private theorem walkLoop_bottom (hva : va.toNat < 2 ^ 30)
    (hreach : ss.Reaches mem ptPtr table) {pte : PhysAddr}
    (hpte : mem (Sv39.entryAddr table (va.setWidth 39) 0) = pte)
    (hvalid : ¬ (!Sv39.valid pte || !Sv39.readable pte && Sv39.writable pte) = true)
    (hnext : ¬ (Sv39.readable pte || Sv39.executable pte) = true) :
    walkLoop mem va (n + 1) ss ptPtr 0 = some (.error .efault, ss) := by
  rw [walkLoop, getPte_eq hva (by decide) hreach, hpte, if_neg hvalid]
  simp only [if_neg hnext]

/-- The loop from a table of level `i` computes the walk from there. -/
private theorem walkLoop_eq (hva : va.toNat < 2 ^ 30) (root : BitVec 44) (sl : Slice)
    (hpgd : ss = Slices.fromHost root sl) (hi : i ≤ 2) (hn : i < n)
    (hreach : ss.Reaches mem ptPtr table) (hserved : Served mem (va.setWidth 39) table i) :
    ∃ ss', walkLoop mem va n ss ptPtr i =
      some (ofSv39 (Sv39.walkFrom mem (va.setWidth 39) table i), ss') := by
  obtain ⟨n, rfl⟩ : ∃ k, n = k + 1 := ⟨n - 1, by omega⟩
  induction i generalizing table ss sl ptPtr n with
  | zero =>
    generalize hpte : mem (Sv39.entryAddr table (va.setWidth 39) 0) = pte
    by_cases hstop : (!Sv39.valid pte || !Sv39.readable pte && Sv39.writable pte) = true ∨
        (Sv39.readable pte || Sv39.executable pte) = true
    · exact ⟨ss, walkLoop_stop hva hi hreach hserved (by rw [hpte]; exact hstop)⟩
    · rw [not_or] at hstop
      refine ⟨ss, ?_⟩
      rw [walkLoop_bottom hva hreach hpte hstop.1 hstop.2, Sv39.walkFrom, hpte]
      simp only [if_neg hstop.1, if_neg hstop.2]
      rfl
  | succ i ih =>
    generalize hpte : mem (Sv39.entryAddr table (va.setWidth 39) (i + 1)) = pte
    by_cases hstop : (!Sv39.valid pte || !Sv39.readable pte && Sv39.writable pte) = true ∨
        (Sv39.readable pte || Sv39.executable pte) = true
    · exact ⟨ss, walkLoop_stop hva hi hreach hserved (by rw [hpte]; exact hstop)⟩
    · rw [not_or] at hstop
      rw [Served, hpte] at hserved
      simp only [if_neg hstop.1, if_neg hstop.2] at hserved
      rw [walkLoop_next hva hi hreach hpte hstop.1 hstop.2, Sv39.walkFrom, hpte]
      simp only [if_neg hstop.1, if_neg hstop.2, getPtAddr_eq hserved.1]
      obtain ⟨n, rfl⟩ : ∃ k, n = k + 1 := ⟨n - 1, by omega⟩
      subst hpgd
      exact ih ⟨pteBptr, pteEptr - 1#32, Sv39.pageAddr (Sv39.ppn pte)⟩ rfl (by omega)
        (reaches_pte mem root (Sv39.ppn pte) sl) hserved.2 n (by omega)

end

/-- The loop ends within three iterations, with the outcome of the walk that the architecture
defines. -/
def ImplementsSv39 (mem : Memory) (root : BitVec 44) (va : VirtAddr) : Prop :=
  ∀ sl n, 3 ≤ n → ∃ ss', virtAddrToPagePhysAddr mem n (Slices.fromHost root sl) va =
    some (ofSv39 (Sv39.walk mem root (va.setWidth 39)), ss')

theorem implementsSv39_of_served {mem : Memory} {root : BitVec 44} {va : VirtAddr}
    (hva : va.toNat < 2 ^ 30) (hserved : Served mem (va.setWidth 39) root 2) :
    ImplementsSv39 mem root va := by
  intro sl n hn
  exact walkLoop_eq hva root sl rfl (by decide)
    (by simp only [levels]; omega) (reaches_pgd mem root sl) hserved

/-- No entry has a bit set from bit `k` of its page number on. -/
def EntriesBelow (k : Nat) (mem : Memory) : Prop := ∀ a, (mem a).toNat / 2 ^ 10 < 2 ^ k

private theorem served_of_entriesBelow {mem : Memory} {va : BitVec 39} (hmem : EntriesBelow 27 mem)
    (table : BitVec 44) (i : Nat) : Served mem va table i := by
  have hpage : ∀ a, (Sv39.ppn (mem a)).toNat < 2 ^ 27 := by
    intro a
    have ha := hmem a
    rw [Sv39.ppn_toNat]
    omega
  induction i generalizing table with
  | zero =>
    rw [Served]
    split_ifs
    intro page _
    exact hpage _
  | succ i ih =>
    rw [Served]
    split_ifs
    · intro page _
      exact hpage _
    · refine ⟨?_, ih _⟩
      have ha := hmem (Sv39.entryAddr table va i.succ)
      omega

/-- Memory with a single entry. -/
def oneEntry (addr pte : BitVec 64) : Memory := fun a => if a = addr then pte else 0#64

/-- The index into the first-level table names the first gigabyte only. -/
private theorem not_implements_above {va : VirtAddr} (hva : ¬ va.toNat < 2 ^ 30) :
    ∃ mem, EntriesBelow 0 mem ∧ ¬ ImplementsSv39 mem 0#44 va := by
  have hlt := va.isLt
  have hvpn : (Sv39.vpn (va.setWidth 39) 2).toNat = va.toNat / 2 ^ 30 := by
    rw [Sv39.vpn_toNat, va39_toNat]
    omega
  have hentry : (Sv39.entryAddr 0#44 (va.setWidth 39) 2).toNat = 8 * (va.toNat / 2 ^ 30) := by
    rw [Sv39.entryAddr, BitVec.toNat_add, Sv39.pageAddr_toNat, BitVec.toNat_setWidth, entry_toNat,
      hvpn]
    simp
    omega
  generalize hwalk : Sv39.entryAddr 0#44 (va.setWidth 39) 2 = entry at hentry
  have hne : 0#64 ≠ entry := by
    intro heq
    rw [← heq] at hentry
    simp at hentry
    omega
  refine ⟨oneEntry entry 19#64, ?_, ?_⟩
  · intro a
    rw [oneEntry]
    split_ifs <;> simp
  · intro himpl
    obtain ⟨ss', hrun⟩ := himpl ⟨0#32, 0#32, 0#64⟩ 3 (by decide)
    have hload : (Slices.fromHost 0#44 ⟨0#32, 0#32, 0#64⟩).load (oneEntry entry 19#64)
        (pgdBptr + 8#32 * pteOffset va (levels - 1)) = some 0#64 := by
      have hreach := reaches_pgd (oneEntry entry 19#64) 0#44 ⟨0#32, 0#32, 0#64⟩ 0#32 0#9 rfl
      have hzero : Sv39.pageAddr 0#44 + (0#9 ++ 0#3).setWidth 64 = 0#64 := by decide
      rw [hzero, oneEntry, if_neg hne] at hreach
      exact hreach
    have hcode : virtAddrToPagePhysAddr (oneEntry entry 19#64) 3
        (Slices.fromHost 0#44 ⟨0#32, 0#32, 0#64⟩) va =
        some (.error .efault, Slices.fromHost 0#44 ⟨0#32, 0#32, 0#64⟩) := by
      rw [virtAddrToPagePhysAddr, walkLoop, getPte, hload]
      rfl
    have hspec : ∃ page, Sv39.walk (oneEntry entry 19#64) 0#44 (va.setWidth 39) = some page := by
      rw [Sv39.walk, Sv39.walkFrom, hwalk, oneEntry, if_pos rfl]
      exact ⟨_, rfl⟩
    obtain ⟨page, hpage⟩ := hspec
    rw [hcode, hpage, ofSv39] at hrun
    cases hrun

/-- A leaf whose page number has bit 27 set loses it. -/
private theorem not_implements_wide {va : VirtAddr} (hva : va.toNat < 2 ^ 30) :
    ¬ ImplementsSv39 (fun _ => BitVec.ofNat 64 (2 ^ 37 + 19)) 0#44 va := by
  intro himpl
  obtain ⟨ss', hrun⟩ := himpl ⟨0#32, 0#32, 0#64⟩ 3 (by decide)
  have hreach := reaches_pgd (fun _ => BitVec.ofNat 64 (2 ^ 37 + 19)) 0#44 ⟨0#32, 0#32, 0#64⟩
  have hal : Sv39.aligned (BitVec.ofNat 64 (2 ^ 37 + 19)) 2 = true := by decide
  have hcode : virtAddrToPagePhysAddr (fun _ => BitVec.ofNat 64 (2 ^ 37 + 19)) 3
      (Slices.fromHost 0#44 ⟨0#32, 0#32, 0#64⟩) va =
      some (getPagePhysAddr (BitVec.ofNat 64 (2 ^ 37 + 19)) va 2,
        Slices.fromHost 0#44 ⟨0#32, 0#32, 0#64⟩) := by
    rw [virtAddrToPagePhysAddr, levels, walkLoop, getPte_eq hva (by decide) hreach]
    rfl
  have hspec : Sv39.walk (fun _ => BitVec.ofNat 64 (2 ^ 37 + 19)) 0#44 (va.setWidth 39) =
      some ⟨Sv39.pageAddr (Sv39.leafPpn (BitVec.ofNat 64 (2 ^ 37 + 19)) (va.setWidth 39) 2), true⟩ := by
    rw [Sv39.walk, Sv39.walkFrom, if_neg (by decide), if_pos (by decide), Sv39.leaf,
      if_pos (by decide)]
    rfl
  rw [hcode, hspec] at hrun
  have hpage := congrArg (fun r => r.map fun p => p.1.toOption.map Page.addr) hrun
  have haddr : getPagePhysAddr (BitVec.ofNat 64 (2 ^ 37 + 19)) va 2 = .ok
      ⟨((BitVec.ofNat 64 (2 ^ 37 + 19) >>> ppnShift) &&& lowMask (ppnSize * levels) |||
        (va.setWidth 64 >>> vpnShift) &&& lowMask (vpnSize * 2)) <<< pageShift, true⟩ := rfl
  simp only [haddr, ofSv39, Option.map_some, Except.toOption, Option.some.injEq] at hpage
  have hnat := congrArg BitVec.toNat hpage
  rw [addr_toNat (by decide) hal, Sv39.pageAddr_toNat, Sv39.leafPpn_toNat (by decide) hal,
    va39_toNat] at hnat
  simp at hnat

end Riscv64

end Hero.Vmm
