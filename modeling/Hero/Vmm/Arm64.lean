import Hero.Framework.Machine
import Hero.Vmm.Basic
import Mathlib.Tactic.SplitIfs

/-!
# Page-table walk for 64-bit ARM hosts

`virt_addr_to_page_phys_addr` of the VMM library on a 64-bit ARM host.  The library reads tables
through windows of 4 KiB in its address space, one for each RAB slice that maps a table, and keeps the
window on the last third-level table for later walks.
-/

namespace Hero.Vmm.Arm64

/-- `phys_addr_t`: 32 lower and 8 upper bits. -/
abbrev PhysAddr := BitVec 40

/-- The memory of the host, by the 64-bit words at each address. -/
abbrev Memory := PhysAddr → BitVec 64

/-- A page and whether it is read-only. -/
structure Page where
  addr : PhysAddr
  rdonly : Bool
  deriving DecidableEq, Repr

/-- How the second-level tables are mapped: by the library, or by the host beforehand. -/
inductive PmdSlices where
  | atWalk
  | static
  deriving DecidableEq, Repr

/-- `PMD_MASK` -/
def pmdMask : VirtAddr := 0xFFE00000#32

/-- `lower & PAGE_MASK` -/
def maskPage (val : PhysAddr) : PhysAddr := val &&& 0xFFFFFFF000#40

def ptValIsEmpty (val : PhysAddr) : Bool := val = 0#40

/-- `pgd_val_is_type_table`, `pmd_val_is_type_table` and `pte_val_is_type_page` -/
def hasValidType (val : PhysAddr) : Bool := val &&& 3#40 = 3#40

def checkTable (val : PhysAddr) : Except Errno Unit :=
  if ptValIsEmpty val then .error .enxio
  else if !hasValidType val then .error .einval
  else .ok ()

def pgdValIsPmdAddr (val : PhysAddr) : Except Errno Unit := checkTable val

def pmdValIsPteAddr (val : PhysAddr) : Except Errno Unit := checkTable val

def pteValHasUserPerm (val : PhysAddr) : Bool := val &&& 0x40#40 = 0x40#40

def pteValIsValidPageAddr (val : PhysAddr) : Except Errno Unit :=
  if ptValIsEmpty val then .error .enxio
  else if !hasValidType val then .error .einval
  else if !pteValHasUserPerm val then .error .eperm
  else .ok ()

def pteValIsRdonlyPage (val : PhysAddr) : Bool := val &&& 0x80#40 = 0x80#40

/-- `PTRS_PER_PGD - 1`, the same for all levels -/
def indexMask : VirtAddr := 511#32

def pgdIndex (virtAddr : VirtAddr) : VirtAddr := (virtAddr >>> 30) &&& indexMask

def pmdIndex (virtAddr : VirtAddr) : VirtAddr := (virtAddr >>> 21) &&& indexMask

def pteIndex (virtAddr : VirtAddr) : VirtAddr := (virtAddr >>> 12) &&& indexMask

/-- The start of window `w`, counted from `VMM_PGD_BPTR`. -/
def bptr (w : Nat) : VirtAddr := BitVec.ofNat 32 (0x20000000 + 4096 * w)

/-- `VMM_PGD_BPTR` -/
def pgdWindow : Nat := 0

/-- `PMD_BPTR` -/
def PmdSlices.pmdWindow : PmdSlices → Nat
  | .atWalk => 1
  | .static => 0

/-- `N_STATIC_PMD_SLICES`, one for each gigabyte -/
def nStaticPmdSlices : Nat := 4

/-- `PTE_BPTR` -/
def PmdSlices.pteWindow : PmdSlices → Nat
  | .atWalk => 2
  | .static => nStaticPmdSlices

/-- A RAB slice that maps a table into a window. -/
structure Slice where
  vaStart : VirtAddr
  vaEnd : VirtAddr
  offset : PhysAddr

def Slice.window (w : Nat) (table : PhysAddr) : Slice := ⟨bptr w, bptr w + 4095#32, table⟩

def Slice.contains (sl : Slice) (addr : VirtAddr) : Bool := sl.vaStart ≤ addr && addr ≤ sl.vaEnd

def Slice.translate (sl : Slice) (addr : VirtAddr) : PhysAddr :=
  sl.offset + (addr - sl.vaStart).setWidth 40

structure WalkState where
  /-- The slices the host has set up. -/
  host : List Slice
  /-- `RAB_CFG_PMD_PTR` -/
  pmd : Option Slice
  /-- `RAB_CFG_PTE_PTR` -/
  pte : Option Slice
  curMappedPteAddr : VirtAddr
  /-- The first-level table of the process that the host serves. -/
  root : PhysAddr

/-- A load by the accelerator; without a slice for its address it does not complete. -/
def WalkState.load (s : WalkState) (mem : Memory) (addr : VirtAddr) : Option (BitVec 64) :=
  ((s.host ++ s.pmd.toList ++ s.pte.toList).find? fun sl => sl.contains addr).map fun sl =>
    mem (sl.translate addr)

/-- Entry `index` of the table in window `w`, as `copy_phys_addr` copies it. -/
def WalkState.entry (s : WalkState) (mem : Memory) (w : Nat) (index : VirtAddr) : Option PhysAddr :=
  (s.load mem (bptr w + 8#32 * index)).map fun v => v.setWidth 40

/-- The address that an entry holds once it passes its check. -/
def addrOf (check : PhysAddr → Except Errno Unit) (val : PhysAddr) : Except Errno PhysAddr :=
  (check val).map fun _ => maskPage val

def pageOf (val : PhysAddr) : Except Errno Page :=
  (pteValIsValidPageAddr val).map fun _ => ⟨maskPage val, pteValIsRdonlyPage val⟩

section

variable (m : PmdSlices) (mem : Memory) (s : WalkState)

/-- `get_pmd_phys_addr` -/
def getPmdPhysAddr (index : VirtAddr) : Option (Except Errno PhysAddr) :=
  (s.entry mem pgdWindow index).map (addrOf pgdValIsPmdAddr)

/-- `get_pte_phys_addr` -/
def getPtePhysAddr (index : VirtAddr) : Option (Except Errno PhysAddr) :=
  (s.entry mem m.pmdWindow index).map (addrOf pmdValIsPteAddr)

/-- `get_page_phys_addr` -/
def getPagePhysAddr (index : VirtAddr) : Option (Except Errno Page) :=
  (s.entry mem m.pteWindow index).map pageOf

def WalkState.configPmd (pmd : PhysAddr) : WalkState :=
  { s with pmd := some (Slice.window PmdSlices.atWalk.pmdWindow pmd) }

def WalkState.configPte (pte : PhysAddr) (pteAddr : VirtAddr) : WalkState :=
  { s with pte := some (Slice.window m.pteWindow pte), curMappedPteAddr := pteAddr }

/-- The part of a walk that maps the second-level table. -/
def mapPmd (virtAddr : VirtAddr) : Option (Except Errno Unit × WalkState) := match m with
  | .static => some (.ok (), s)
  | .atWalk => (getPmdPhysAddr mem s (pgdIndex virtAddr)).map fun
    | .error e => (.error e, s)
    | .ok pmd => (.ok (), s.configPmd pmd)

/-- The part of a walk that maps the third-level table. -/
def mapPte (virtAddr : VirtAddr) : Option (Except Errno Unit × WalkState) :=
  match mapPmd m mem s virtAddr with
  | some (.ok (), s) => (getPtePhysAddr m mem s (pmdIndex virtAddr)).map fun
    | .error e => (.error e, s)
    | .ok pte => (.ok (), s.configPte m pte (virtAddr &&& pmdMask))
  | r => r

def readPage (virtAddr : VirtAddr) : Option (Except Errno Page × WalkState) :=
  (getPagePhysAddr m mem s (pteIndex virtAddr)).map fun r => (r, s)

/-- `virt_addr_to_page_phys_addr` -/
def virtAddrToPagePhysAddr (virtAddr : VirtAddr) : Option (Except Errno Page × WalkState) :=
  if virtAddr &&& pmdMask ≠ s.curMappedPteAddr then
    match mapPte m mem s virtAddr with
    | some (.ok (), s) => readPage m mem s virtAddr
    | some (.error e, s) => some (.error e, s)
    | none => none
  else readPage m mem s virtAddr

/-- Entry `index` of a table in memory. -/
def tableEntry (table : PhysAddr) (index : VirtAddr) : PhysAddr :=
  (mem (table + 8#40 * index.setWidth 40)).setWidth 40

/-- The second-level table that the host maps for gigabyte `i`, unless `pmd_none` or `pmd_bad`. -/
def staticPmd (root : PhysAddr) (i : Nat) : Option PhysAddr :=
  let pmd := mem (root + BitVec.ofNat 40 (8 * i))
  if pmd = 0#64 ∨ pmd &&& 2#64 = 0#64 then none else some (maskPage (pmd.setWidth 40))

def hostSlices (root : PhysAddr) : List Slice := match m with
  | .atWalk => [Slice.window pgdWindow root]
  | .static => (List.range nStaticPmdSlices).filterMap fun i =>
    (staticPmd mem root i).map (Slice.window i)

/-- The host enables the miss handler for a process: it maps the tables of the process and frees all
slices that are not its own. -/
def WalkState.install (root : PhysAddr) : WalkState :=
  { s with host := hostSlices m mem root, pmd := none, pte := none, root := root }

/-- `reset_vmm`: the list of mapped pages and the replacement pointers are no part of this state. -/
def WalkState.resetVmm : WalkState := s

/-- The accelerator starts, with `cur_mapped_pte_addr` as initialised, for a first process. -/
def WalkState.start (root : PhysAddr) : WalkState :=
  ⟨hostSlices m mem root, none, none, 0xFFFFFFFF#32, root⟩

/-- A walk of three levels that reads the tables in memory. -/
def walkPmd (pmd : PhysAddr) (virtAddr : VirtAddr) : Except Errno Page := do
  let pte ← addrOf pmdValIsPteAddr (tableEntry mem pmd (pmdIndex virtAddr))
  pageOf (tableEntry mem pte (pteIndex virtAddr))

def plainWalk (root : PhysAddr) (virtAddr : VirtAddr) : Except Errno Page := do
  let pmd ← addrOf pgdValIsPmdAddr (tableEntry mem root (pgdIndex virtAddr))
  walkPmd mem pmd virtAddr

end

inductive WalkStep where
  | walk (virtAddr : VirtAddr)
  | resetVmm
  | install (root : PhysAddr)

def walkMachine (m : PmdSlices) (mem : Memory) : Machine WalkState WalkStep (Except Errno Page) :=
  fun s step => match step with
  | .walk virtAddr => (virtAddrToPagePhysAddr m mem s virtAddr).map fun (r, s) => (s, [r])
  | .resetVmm => some (s.resetVmm, [])
  | .install root => some (s.install m mem root, [])

section

variable {m : PmdSlices} {mem : Memory} {s s' : WalkState} {root table : PhysAddr}
  {va va' idx : VirtAddr} {v w : Nat}

private theorem index_lt (k : Nat) : ((va >>> k) &&& indexMask).toNat < 512 := by
  rw [BitVec.toNat_and]
  exact lt_of_le_of_lt Nat.and_le_right (by decide)

private theorem pgdIndex_lt : (pgdIndex va).toNat < 512 := index_lt 30

private theorem pmdIndex_lt : (pmdIndex va).toNat < 512 := index_lt 21

private theorem pteIndex_lt : (pteIndex va).toNat < 512 := index_lt 12

private theorem contains_window (hidx : idx.toNat < 512) (hv : v ≤ 4) (hw : w ≤ 4) :
    (Slice.window w table).contains (bptr v + 8#32 * idx) = decide (w = v) := by
  rw [Bool.eq_iff_iff]
  simp [Slice.contains, Slice.window, bptr, BitVec.le_def]
  omega

private theorem translate_window (hidx : idx.toNat < 512) :
    (Slice.window w table).translate (bptr w + 8#32 * idx) = table + 8#40 * idx.setWidth 40 := by
  simp only [Slice.translate, Slice.window]
  congr 1
  apply BitVec.eq_of_toNat_eq
  simp [bptr]
  omega

/-- Reads through a window reach the table of the first slice for that window. -/
private theorem entry_of_find (hidx : idx.toNat < 512)
    (hfind : ((s.host ++ s.pmd.toList ++ s.pte.toList).find? fun sl =>
      sl.contains (bptr w + 8#32 * idx)) = some (Slice.window w table)) :
    s.entry mem w idx = some (tableEntry mem table idx) := by
  rw [WalkState.entry, WalkState.load, hfind, Option.map_some, translate_window hidx]
  rfl

private theorem entry_of_not_find
    (hfind : ((s.host ++ s.pmd.toList ++ s.pte.toList).find? fun sl =>
      sl.contains (bptr w + 8#32 * idx)) = none) : s.entry mem w idx = none := by
  rw [WalkState.entry, WalkState.load, hfind]
  rfl

/-- Which of the host's slices serves a window. -/
def hostTable (m : PmdSlices) (mem : Memory) (root : PhysAddr) (w : Nat) : Option PhysAddr :=
  match m with
  | .atWalk => if w = pgdWindow then some root else none
  | .static => if w < nStaticPmdSlices then staticPmd mem root w else none

private theorem find_static (hidx : idx.toNat < 512) (hw : w ≤ 4) (is : List Nat)
    (his : ∀ i ∈ is, i ≤ 4) :
    ((is.filterMap fun i => (staticPmd mem root i).map (Slice.window i)).find? fun sl =>
      sl.contains (bptr w + 8#32 * idx)) =
      if w ∈ is then (staticPmd mem root w).map (Slice.window w) else none := by
  induction is with
  | nil => rfl
  | cons i is ih =>
    have htail := ih fun j hj => his j (List.mem_cons_of_mem i hj)
    have hi := his i List.mem_cons_self
    cases hpmd : staticPmd mem root i with
    | none =>
      rw [List.filterMap_cons_none (by rw [hpmd]; rfl), htail]
      by_cases hwi : w = i
      · subst hwi
        simp [hpmd]
      · simp [hwi]
    | some pmd =>
      rw [List.filterMap_cons_some (by rw [hpmd]; rfl), List.find?_cons,
        contains_window hidx hw hi, htail]
      by_cases hwi : w = i
      · subst hwi
        simp [hpmd]
      · simp [hwi, Ne.symm hwi]

private theorem find_host (hidx : idx.toNat < 512) (hw : w ≤ 4) :
    ((hostSlices m mem root).find? fun sl => sl.contains (bptr w + 8#32 * idx)) =
      (hostTable m mem root w).map (Slice.window w) := by
  cases m with
  | atWalk =>
    rw [hostSlices, List.find?_cons, contains_window hidx hw (by decide)]
    by_cases hpgd : w = pgdWindow
    · simp [hostTable, hpgd]
    · simp [hostTable, hpgd, Ne.symm hpgd]
  | static =>
    rw [hostSlices, find_static hidx hw _ (by decide), hostTable]
    by_cases hlt : w < nStaticPmdSlices
    · rw [if_pos (List.mem_range.mpr hlt), if_pos hlt]
    · rw [if_neg (fun hmem => hlt (List.mem_range.mp hmem)), if_neg hlt]
      rfl

/-- The slices of the library serve windows of their own. -/
structure WalkState.Windows (s : WalkState) (m : PmdSlices) (mem : Memory) : Prop where
  host : s.host = hostSlices m mem s.root
  pmd : ∀ sl, s.pmd = some sl → m = .atWalk ∧ ∃ pmd, sl = Slice.window m.pmdWindow pmd
  pte : ∀ sl, s.pte = some sl → ∃ pte, sl = Slice.window m.pteWindow pte

private theorem pteWindow_le : m.pteWindow ≤ 4 := by
  cases m <;> decide

private theorem find_pmd (hs : s.Windows m mem) (hidx : idx.toNat < 512) (hw : w ≤ 4)
    (hm : m = .static ∨ w ≠ m.pmdWindow) :
    (s.pmd.toList.find? fun sl => sl.contains (bptr w + 8#32 * idx)) = none := by
  cases hpmd : s.pmd with
  | none => rfl
  | some sl =>
    obtain ⟨rfl, pmd, rfl⟩ := hs.pmd sl hpmd
    have hne : w ≠ PmdSlices.atWalk.pmdWindow := hm.resolve_left (by decide)
    rw [Option.toList_some, List.find?_cons, contains_window hidx hw (by decide)]
    simp [Ne.symm hne]

private theorem find_pte (hs : s.Windows m mem) (hidx : idx.toNat < 512) (hw : w ≤ 4)
    (hne : w ≠ m.pteWindow) :
    (s.pte.toList.find? fun sl => sl.contains (bptr w + 8#32 * idx)) = none := by
  cases hpte : s.pte with
  | none => rfl
  | some sl =>
    obtain ⟨pte, rfl⟩ := hs.pte sl hpte
    rw [Option.toList_some, List.find?_cons, contains_window hidx hw pteWindow_le]
    simp [Ne.symm hne]

/-- The windows of the host show its tables. -/
private theorem entry_host (hs : s.Windows m mem) (hidx : idx.toNat < 512) (hw : w ≤ 4)
    (hpmd : m = .static ∨ w ≠ m.pmdWindow) (hpte : w ≠ m.pteWindow) :
    s.entry mem w idx = (hostTable m mem s.root w).map fun table => tableEntry mem table idx := by
  cases htable : hostTable m mem s.root w with
  | some table =>
    apply entry_of_find hidx
    rw [List.append_assoc, List.find?_append, hs.host, find_host hidx hw, htable]
    rfl
  | none =>
    apply entry_of_not_find
    rw [List.find?_append, List.find?_append, hs.host, find_host hidx hw, htable,
      find_pmd hs hidx hw hpmd, find_pte hs hidx hw hpte]
    rfl

private theorem entry_pmd (hs : s.Windows .atWalk mem) (hidx : idx.toNat < 512)
    (hpmd : s.pmd = some (Slice.window PmdSlices.atWalk.pmdWindow table)) :
    s.entry mem PmdSlices.atWalk.pmdWindow idx = some (tableEntry mem table idx) := by
  apply entry_of_find hidx
  rw [List.find?_append, List.find?_append, hs.host, find_host hidx (by decide), hpmd,
    Option.toList_some, List.find?_cons, contains_window hidx (by decide) (by decide)]
  rfl

/-- The window on third-level tables shows the table mapped last, if one is mapped. -/
private theorem entry_pte (hs : s.Windows m mem) (hidx : idx.toNat < 512) :
    s.entry mem m.pteWindow idx =
      s.pte.map fun sl => tableEntry mem sl.offset idx := by
  have hhost : hostTable m mem s.root m.pteWindow = none := by
    cases m <;> rfl
  have hpmd : m = .static ∨ m.pteWindow ≠ m.pmdWindow := by
    cases m
    · exact Or.inr (by decide)
    · exact Or.inl rfl
  cases hpte : s.pte with
  | none =>
    apply entry_of_not_find
    rw [List.find?_append, List.find?_append, hs.host, find_host hidx pteWindow_le, hhost,
      find_pmd hs hidx pteWindow_le hpmd, hpte]
    rfl
  | some sl =>
    obtain ⟨pte, rfl⟩ := hs.pte sl hpte
    apply entry_of_find hidx
    rw [List.find?_append, List.find?_append, hs.host, find_host hidx pteWindow_le, hhost,
      find_pmd hs hidx pteWindow_le hpmd, hpte, Option.toList_some, List.find?_cons,
      contains_window hidx pteWindow_le pteWindow_le]
    simp [Slice.window]

/-- The second-level table that a walk reads, unless its slice is missing. -/
def pmdOf (m : PmdSlices) (mem : Memory) (root : PhysAddr) (virtAddr : VirtAddr) :
    Option (Except Errno PhysAddr) := match m with
  | .atWalk => some (addrOf pgdValIsPmdAddr (tableEntry mem root (pgdIndex virtAddr)))
  | .static => (staticPmd mem root 0).map .ok

/-- The third-level table that a walk reads. -/
def pteOf (m : PmdSlices) (mem : Memory) (root : PhysAddr) (virtAddr : VirtAddr) :
    Option (Except Errno PhysAddr) :=
  (pmdOf m mem root virtAddr).map fun r => r.bind fun pmd =>
    addrOf pmdValIsPteAddr (tableEntry mem pmd (pmdIndex virtAddr))

/-- The window on third-level tables shows the one for `curMappedPteAddr`. -/
structure WalkState.Caches (s : WalkState) (m : PmdSlices) (mem : Memory) : Prop where
  windows : s.Windows m mem
  pte : ∀ sl va, s.pte = some sl → va &&& pmdMask = s.curMappedPteAddr →
    pteOf m mem s.root va = some (.ok sl.offset)

private theorem mask_shift (va : VirtAddr) : (va &&& pmdMask) >>> 21 = va >>> 21 := by
  have hva := va.isLt
  rw [BitVec.ushiftRight_and_distrib]
  apply BitVec.eq_of_toNat_eq
  have hmask : (pmdMask >>> 21).toNat = 2 ^ 11 - 1 := by decide
  rw [BitVec.toNat_and, hmask, Nat.and_two_pow_sub_one_eq_mod, BitVec.toNat_ushiftRight,
    Nat.shiftRight_eq_div_pow]
  omega

private theorem pmdIndex_congr (hva : va &&& pmdMask = va' &&& pmdMask) :
    pmdIndex va = pmdIndex va' := by
  rw [pmdIndex, ← mask_shift va, hva, mask_shift va']
  rfl

private theorem pgdIndex_congr (hva : va &&& pmdMask = va' &&& pmdMask) :
    pgdIndex va = pgdIndex va' := by
  have hshift : ∀ a : VirtAddr, a >>> 30 = (a >>> 21) >>> 9 := by
    intro a
    rw [← BitVec.shiftRight_add]
  rw [pgdIndex, hshift, ← mask_shift va, hva, mask_shift va', ← hshift]
  rfl

private theorem pteOf_congr (hva : va &&& pmdMask = va' &&& pmdMask) :
    pteOf m mem root va = pteOf m mem root va' := by
  have hpmd : pmdOf m mem root va = pmdOf m mem root va' := by
    cases m with
    | atWalk => rw [pmdOf, pmdOf, pgdIndex_congr hva]
    | static => rfl
  rw [pteOf, pteOf, hpmd, pmdIndex_congr hva]

private theorem Windows.configPmd (hs : s.Windows .atWalk mem) :
    (s.configPmd table).Windows .atWalk mem := by
  refine ⟨hs.host, ?_, hs.pte⟩
  intro sl hsl
  cases hsl
  exact ⟨rfl, table, rfl⟩

/-- Mapping the second-level table keeps the cached third-level one. -/
private theorem mapPmd_spec (hs : s.Caches m mem) (va : VirtAddr) :
    match pmdOf m mem s.root va with
    | none => mapPte m mem s va = none
    | some (.error e) => mapPmd m mem s va = some (.error e, s)
    | some (.ok pmd) => ∃ s', mapPmd m mem s va = some (.ok (), s') ∧ s'.Caches m mem ∧
      s'.root = s.root ∧ s'.curMappedPteAddr = s.curMappedPteAddr ∧
      ∀ idx : VirtAddr, idx.toNat < 512 →
        s'.entry mem m.pmdWindow idx = some (tableEntry mem pmd idx) := by
  cases m with
  | atWalk =>
    have hentry : s.entry mem pgdWindow (pgdIndex va) =
        some (tableEntry mem s.root (pgdIndex va)) := by
      have hlt : (pgdIndex va).toNat < 512 := pgdIndex_lt
      exact entry_host (w := pgdWindow) hs.windows hlt (by decide) (Or.inr (by decide)) (by decide)
    simp only [pmdOf, mapPmd, getPmdPhysAddr, hentry, Option.map_some]
    cases hpmd : addrOf pgdValIsPmdAddr (tableEntry mem s.root (pgdIndex va)) with
    | error e => rfl
    | ok pmd =>
      have hwin : (s.configPmd pmd).Windows .atWalk mem := Windows.configPmd hs.windows
      refine ⟨s.configPmd pmd, rfl, ⟨hwin, hs.pte⟩, rfl, rfl, ?_⟩
      intro idx hidx
      exact entry_pmd hwin hidx rfl
  | static =>
    have hentry : ∀ idx : VirtAddr, idx.toNat < 512 → s.entry mem PmdSlices.static.pmdWindow idx =
        (staticPmd mem s.root 0).map fun pmd => tableEntry mem pmd idx := by
      intro idx hidx
      exact entry_host hs.windows hidx (by decide) (Or.inl rfl) (by decide)
    cases hpmd : staticPmd mem s.root 0 with
    | none =>
      simp only [pmdOf, Option.map_none, mapPte, mapPmd, getPtePhysAddr,
        hentry _ pmdIndex_lt, hpmd, Option.map_none]
    | some pmd =>
      simp only [pmdOf, hpmd, Option.map_some]
      refine ⟨s, rfl, hs, rfl, rfl, ?_⟩
      intro idx hidx
      rw [hentry idx hidx, hpmd]
      rfl

/-- Mapping the third-level table. -/
private theorem mapPte_spec (hs : s.Caches m mem) (va : VirtAddr) :
    match pteOf m mem s.root va with
    | none => mapPte m mem s va = none
    | some (.error e) => ∃ s', mapPte m mem s va = some (.error e, s') ∧ s'.Caches m mem ∧
      s'.root = s.root
    | some (.ok pte) => ∃ s', mapPte m mem s va = some (.ok (), s') ∧ s'.Caches m mem ∧
      s'.root = s.root ∧ s'.pte = some (Slice.window m.pteWindow pte) := by
  have hmap := mapPmd_spec hs va
  rw [pteOf]
  cases hpmd : pmdOf m mem s.root va with
  | none =>
    rw [hpmd] at hmap
    exact hmap
  | some r =>
    rw [hpmd] at hmap
    cases r with
    | error e =>
      refine ⟨s, ?_, hs, rfl⟩
      rw [mapPte, hmap]
    | ok pmd =>
      obtain ⟨s₁, hrun, hs₁, hroot, hcur, hentry⟩ := hmap
      simp only [Option.map_some, Except.bind, mapPte, hrun, getPtePhysAddr,
        hentry _ pmdIndex_lt]
      cases hpte : addrOf pmdValIsPteAddr (tableEntry mem pmd (pmdIndex va)) with
      | error e => exact ⟨s₁, rfl, hs₁, hroot⟩
      | ok pte =>
        refine ⟨s₁.configPte m pte (va &&& pmdMask), rfl, ⟨⟨hs₁.windows.host, hs₁.windows.pmd, ?_⟩, ?_⟩,
          hroot, rfl⟩
        · intro sl hsl
          cases hsl
          exact ⟨pte, rfl⟩
        · intro sl va' hsl hva'
          cases hsl
          change pteOf m mem s₁.root va' = _
          rw [hroot, pteOf_congr hva', pteOf, hpmd]
          simp only [Option.map_some, Except.bind, hpte]
          rfl

/-- What a walk reads once all its tables are mapped. -/
def walkOf (m : PmdSlices) (mem : Memory) (root : PhysAddr) (virtAddr : VirtAddr) :
    Option (Except Errno Page) :=
  (pteOf m mem root virtAddr).map fun r => r.bind fun pte =>
    pageOf (tableEntry mem pte (pteIndex virtAddr))

/-- The walk finds its window on third-level tables still mapped, or maps it. -/
def WalkState.Fresh (s : WalkState) (virtAddr : VirtAddr) : Prop :=
  virtAddr &&& pmdMask = s.curMappedPteAddr → s.pte.isSome

private theorem readPage_spec (hs : s.Windows m mem) {sl : Slice} (hpte : s.pte = some sl) :
    readPage m mem s va = some (pageOf (tableEntry mem sl.offset (pteIndex va)), s) := by
  rw [readPage, getPagePhysAddr, entry_pte hs pteIndex_lt, hpte]
  rfl

private theorem readPage_none (hs : s.Windows m mem) (hpte : s.pte = none) :
    readPage m mem s va = none := by
  rw [readPage, getPagePhysAddr, entry_pte hs pteIndex_lt, hpte]
  rfl

theorem walk_spec (hs : s.Caches m mem) (hfresh : s.Fresh va) :
    match walkOf m mem s.root va with
    | none => virtAddrToPagePhysAddr m mem s va = none
    | some r => ∃ s', virtAddrToPagePhysAddr m mem s va = some (r, s') ∧ s'.Caches m mem := by
  rw [walkOf, virtAddrToPagePhysAddr]
  by_cases hcur : va &&& pmdMask = s.curMappedPteAddr
  · obtain ⟨sl, hsl⟩ := Option.isSome_iff_exists.mp (hfresh hcur)
    rw [hs.pte sl va hsl hcur, if_neg (not_not.mpr hcur)]
    exact ⟨s, readPage_spec hs.windows hsl, hs⟩
  · rw [if_pos hcur]
    have hmap := mapPte_spec hs va
    cases hpte : pteOf m mem s.root va with
    | none =>
      rw [hpte] at hmap
      simp only [Option.map_none, hmap]
    | some r =>
      rw [hpte] at hmap
      cases r with
      | error e =>
        obtain ⟨s₁, hrun, hs₁, -⟩ := hmap
        simp only [hrun]
        exact ⟨s₁, rfl, hs₁⟩
      | ok pte =>
        obtain ⟨s₁, hrun, hs₁, -, hsl⟩ := hmap
        simp only [hrun, readPage_spec hs₁.windows hsl]
        exact ⟨s₁, rfl, hs₁⟩

theorem walk_not_fresh (hs : s.Caches m mem) (hfresh : ¬ s.Fresh va) :
    virtAddrToPagePhysAddr m mem s va = none := by
  rw [WalkState.Fresh, Classical.not_imp] at hfresh
  rw [virtAddrToPagePhysAddr, if_neg (not_not.mpr hfresh.1)]
  exact readPage_none hs.windows (Option.not_isSome_iff_eq_none.mp hfresh.2)

theorem caches_install (s : WalkState) : (s.install m mem root).Caches m mem := by
  refine ⟨⟨rfl, ?_, ?_⟩, ?_⟩
  · intro sl hsl
    cases hsl
  · intro sl hsl
    cases hsl
  · intro sl va hsl
    cases hsl

theorem caches_start : (WalkState.start m mem root).Caches m mem :=
  ⟨(caches_install (WalkState.start m mem root)).windows, fun _ _ hsl => nomatch hsl⟩

end

/-- The step is not a walk, or the walk returns what the plain walk from the current root does. -/
def ReturnsPlain (m : PmdSlices) (mem : Memory) (s : WalkState) : WalkStep → Prop
  | .walk virtAddr => (virtAddrToPagePhysAddr m mem s virtAddr).map Prod.fst =
    some (plainWalk mem s.root virtAddr)
  | _ => True

/-- A walk does not rely on a third-level table mapped before the last change of process, and with
static slices the second-level table of the first gigabyte leads where the right one does. -/
def WalksRight (m : PmdSlices) (mem : Memory) (s : WalkState) : WalkStep → Prop
  | .walk virtAddr => s.Fresh virtAddr ∧ (m = .static →
    ∃ pmd, staticPmd mem s.root 0 = some pmd ∧
      walkPmd mem pmd virtAddr = plainWalk mem s.root virtAddr)
  | _ => True

section

variable {m : PmdSlices} {mem : Memory} {s s' : WalkState} {root : PhysAddr} {va : VirtAddr}

private theorem walkOf_atWalk : walkOf .atWalk mem root va = some (plainWalk mem root va) := by
  rw [walkOf, pteOf, pmdOf, Option.map_some, Option.map_some, plainWalk]
  cases addrOf pgdValIsPmdAddr (tableEntry mem root (pgdIndex va)) <;> rfl

private theorem walkOf_static :
    walkOf .static mem root va = (staticPmd mem root 0).map fun pmd => walkPmd mem pmd va := by
  rw [walkOf, pteOf, pmdOf]
  cases staticPmd mem root 0 <;> rfl

private theorem returnsPlain_iff (hs : s.Caches m mem) (step : WalkStep) :
    ReturnsPlain m mem s step ↔ WalksRight m mem s step := by
  cases step with
  | resetVmm => exact Iff.rfl
  | install root => exact Iff.rfl
  | walk va =>
    rw [ReturnsPlain, WalksRight]
    by_cases hfresh : s.Fresh va
    · have hresult : (virtAddrToPagePhysAddr m mem s va).map Prod.fst = walkOf m mem s.root va := by
        have hwalk := walk_spec hs hfresh
        cases hof : walkOf m mem s.root va with
        | none =>
          rw [hof] at hwalk
          rw [hwalk]
          rfl
        | some r =>
          rw [hof] at hwalk
          obtain ⟨s', hrun, -⟩ := hwalk
          rw [hrun]
          rfl
      rw [hresult]
      cases m with
      | atWalk => simp [walkOf_atWalk, hfresh]
      | static => simp [walkOf_static, hfresh, Option.map_eq_some_iff]
    · simp [walk_not_fresh hs hfresh, hfresh]

private theorem caches_step (hs : s.Caches m mem) {step : WalkStep} {es : List (Except Errno Page)}
    (hright : WalksRight m mem s step) (hstep : walkMachine m mem s step = some (s', es)) :
    s'.Caches m mem := by
  cases step with
  | resetVmm =>
    cases hstep
    exact hs
  | install root =>
    cases hstep
    exact caches_install s
  | walk va =>
    have hwalk := walk_spec hs hright.1
    rw [walkMachine] at hstep
    cases hof : walkOf m mem s.root va with
    | none =>
      rw [hof] at hwalk
      rw [hwalk] at hstep
      cases hstep
    | some r =>
      rw [hof] at hwalk
      obtain ⟨s₁, hrun, hs₁⟩ := hwalk
      rw [hrun] at hstep
      cases hstep
      exact hs₁

end

/-- In the first gigabyte static slices lead where the first-level table does. -/
theorem static_first_gigabyte {mem : Memory} {root pmd : PhysAddr} {va : VirtAddr}
    (hva : va.toNat < 2 ^ 30)
    (hpgd : addrOf pgdValIsPmdAddr (tableEntry mem root (pgdIndex va)) = .ok pmd) :
    ∃ pmd, staticPmd mem root 0 = some pmd ∧ walkPmd mem pmd va = plainWalk mem root va := by
  have hindex : pgdIndex va = 0#32 := by
    apply BitVec.eq_of_toNat_eq
    rw [pgdIndex, BitVec.toNat_and, BitVec.toNat_ushiftRight, Nat.shiftRight_eq_div_pow,
      Nat.div_eq_of_lt hva]
    simp
  refine ⟨pmd, ?_, by rw [plainWalk, hpgd]; rfl⟩
  rw [hindex] at hpgd
  generalize hentry : mem (root + BitVec.ofNat 40 (8 * 0)) = entry
  have htable : tableEntry mem root 0#32 = entry.setWidth 40 := by
    rw [← hentry]
    rfl
  rw [htable, addrOf, pgdValIsPmdAddr, checkTable] at hpgd
  split_ifs at hpgd with hempty htype
  · cases hpgd
  · cases hpgd
  · simp only [Bool.not_eq_true, Bool.not_eq_false', ptValIsEmpty, hasValidType,
      decide_eq_true_eq] at hempty htype
    have hnone : ¬ (entry = 0#64 ∨ entry &&& 2#64 = 0#64) := by
      rintro (hzero | hbad)
      · exact hempty (by rw [hzero]; rfl)
      · have hbit := congrArg (fun x => x.getLsbD 1) htype
        have hbit' := congrArg (fun x => x.getLsbD 1) hbad
        simp at hbit hbit'
        rw [hbit] at hbit'
        cases hbit'
    rw [staticPmd, hentry, if_neg hnone]
    cases hpgd
    rfl

instance decidableReturnsPlain (m : PmdSlices) (mem : Memory) (s : WalkState) :
    (step : WalkStep) → Decidable (ReturnsPlain m mem s step)
  | .walk _ => inferInstanceAs (Decidable (_ = _))
  | .resetVmm => isTrue trivial
  | .install _ => isTrue trivial

/-- Every entry of these tables is valid and points to the first page. -/
def samePage : Memory := fun _ => 0x43#64

/-- The second gigabyte is mapped, the first one is not. -/
def secondGigabyte : Memory := fun a =>
  if a = 0#40 then 0x2003#64 else if a = 8#40 then 0x1003#64
  else if a = 0x1000#40 then 0x3003#64 else if a = 0x3000#40 then 0x5043#64 else 0#64

end Hero.Vmm.Arm64
