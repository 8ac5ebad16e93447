import Hero.Framework.Program
import Hero.Vmm.Basic
import Mathlib.Logic.Function.Basic
import Mathlib.Tactic.SplitIfs

/-!
# Mapping pages

The state of the VMM library, the RAB entries it manages and its functions as programs over the calls
that change either.
-/

namespace Hero.Vmm

/-- A page of the virtual address space, by its number. -/
abbrev Vpn := BitVec 20

/-- `virt_addr2pfn` -/
def vpn (addr : VirtAddr) : Vpn := (addr >>> 12).setWidth 20

/-- `virt_pfn2addr` -/
def pageAddr (page : Vpn) : VirtAddr := page.setWidth 32 <<< 12

/-- `VMM_RAB_LVL` -/
inductive RabLvl where
  | l1
  | l2
  deriving DecidableEq, Repr

/-- `RAB_L2_N_SETS` -/
def nSets : Nat := 32

/-- `RAB_L2_N_ENTRIES_PER_SET` -/
def nEntriesPerSet : Nat := 32

/-- `ARCHI_NB_PE` -/
def nPe : Nat := 8

/-- `page_set` -/
def pageSet (page : Vpn) : Nat := page.toNat % nSets

/-- What is fixed when the library is built and while the host does not change its slices: the level,
the number of slices for the library, and the pages that slices of the host translate. -/
structure Config where
  lvl : RabLvl
  nSlices : Nat
  nSlices_pos : 0 < nSlices
  host : Vpn → Bool

/-- The level in which the library is shipped, with eight slices and none of the host. -/
def shipped : Config := ⟨.l2, 8, by decide, fun _ => false⟩

/-- An enabled RAB entry for one page. -/
structure Mapping where
  page : Vpn
  phys : Nat
  rdonly : Bool
  deriving DecidableEq, Repr

/-- The RAB entries that the library manages. -/
inductive Slot where
  | slice (k : Nat)
  | l2 (set i : Nat)
  deriving DecidableEq, Repr

structure VmmState where
  /-- The slices from `RAB_CFG_VMM_BPTR` on, `none` if disabled. -/
  slices : Nat → Option Mapping
  l2 : Nat → Nat → Option Mapping
  pageRabCfgPtr : Nat
  pageRabCfgL2ISet : Nat → Nat
  /-- The pages mapped recently; entries with page zero are invalid. -/
  recentlyMappedPages : Nat → Vpn
  rmpWptr : Nat

namespace VmmState

variable (c : Config) (s : VmmState)

def entry : Slot → Option Mapping
  | .slice k => s.slices k
  | .l2 set i => s.l2 set i

def setSlot (slot : Slot) (m : Option Mapping) : VmmState := match slot with
  | .slice k => { s with slices := Function.update s.slices k m }
  | .l2 set i => { s with l2 := Function.update s.l2 set (Function.update (s.l2 set) i m) }

/-- The pointer of a FIFO of `n` entries, back at the start after the last. -/
def wrap (ptr n : Nat) : Nat := if ptr ≥ n then 0 else ptr

/-- The entry that `config_page_rab_entry` takes for a page. -/
def victim (page : Vpn) : Slot := match c.lvl with
  | .l1 => .slice (wrap s.pageRabCfgPtr c.nSlices)
  | .l2 => .l2 (pageSet page) (wrap (s.pageRabCfgL2ISet (pageSet page)) nEntriesPerSet)

def advance (page : Vpn) : VmmState := match c.lvl with
  | .l1 => { s with pageRabCfgPtr := wrap s.pageRabCfgPtr c.nSlices + 1 }
  | .l2 =>
    let ptr := wrap (s.pageRabCfgL2ISet (pageSet page)) nEntriesPerSet
    { s with pageRabCfgL2ISet := Function.update s.pageRabCfgL2ISet (pageSet page) (ptr + 1) }

/-- `config_page_rab_entry` -/
def configPageRabEntry (m : Mapping) : VmmState :=
  (s.setSlot (s.victim c m.page) (some m)).advance c m.page

/-- `page_has_recently_been_mapped` -/
def pageHasRecentlyBeenMapped (page : Vpn) : Bool :=
  (List.range nPe).any fun i => s.recentlyMappedPages i = page && s.recentlyMappedPages i ≠ 0#20

/-- `add_to_recently_mapped_pages` -/
def addToRecentlyMappedPages (page : Vpn) : VmmState :=
  { s with
    recentlyMappedPages := Function.update s.recentlyMappedPages s.rmpWptr page
    rmpWptr := if s.rmpWptr + 1 ≥ nPe then 0 else s.rmpWptr + 1 }

/-- `remove_from_recently_mapped_pages` -/
def removeFromRecentlyMappedPages (page : Vpn) : VmmState :=
  { s with recentlyMappedPages := fun i =>
      if s.recentlyMappedPages i = page then 0#20 else s.recentlyMappedPages i }

/-- `reset_vmm` -/
def resetVmm : VmmState :=
  { s with
    pageRabCfgPtr := 0
    pageRabCfgL2ISet := fun _ => 0
    recentlyMappedPages := fun _ => 0#20
    rmpWptr := 0 }

/-- A slot among those in which the RAB looks a page up. -/
def InPlace (slot : Slot) (page : Vpn) : Prop := match slot with
  | .slice k => k < c.nSlices
  | .l2 set i => set = pageSet page ∧ i < nEntriesPerSet

/-- An enabled entry that translates a page. -/
def Serves (slot : Slot) (page : Vpn) : Prop :=
  (∃ m, s.entry slot = some m ∧ m.page = page) ∧ InPlace c slot page

/-- Some entry that the library manages translates the page. -/
def Mapped (page : Vpn) : Prop := ∃ slot, s.Serves c slot page

def holds (page : Vpn) : Option Mapping → Bool
  | some m => m.page = page
  | none => false

/-- `page_is_mapped`: whether a read through the RAB would succeed. -/
def pageIsMapped (page : Vpn) : Bool :=
  c.host page || (List.range c.nSlices).any (fun k => holds page (s.slices k)) ||
    (List.range nEntriesPerSet).any fun i => holds page (s.l2 (pageSet page) i)

/-- `rab_slice_contains_virt_addr` -/
def sliceContains (addr : VirtAddr) : Option Mapping → Bool
  | some m => pageAddr m.page ≤ addr && addr ≤ pageAddr m.page + 4095#32
  | none => false

/-- No entries and nothing remembered. -/
def start : VmmState := ⟨fun _ => none, fun _ _ => none, 0, fun _ => 0, fun _ => 0#20, 0⟩

section

variable {c : Config} {s : VmmState} {slot slot' : Slot} {m : Mapping} {page q : Vpn}

@[simp] theorem setSlot_entry (o : Option Mapping) :
    (s.setSlot slot o).entry slot' = if slot' = slot then o else s.entry slot' := by
  cases slot with
  | slice k =>
    cases slot' with
    | slice k' => simp [entry, setSlot, Function.update_apply]
    | l2 set i => simp [entry, setSlot]
  | l2 set i =>
    cases slot' with
    | slice k => simp [entry, setSlot]
    | l2 set' i' =>
      by_cases hset : set' = set
      · subst hset
        simp [entry, setSlot, Function.update_apply]
      · simp [entry, setSlot, hset]

@[simp] theorem advance_entry : (s.advance c page).entry slot = s.entry slot := by
  rw [advance]
  cases c.lvl <;> cases slot <;> rfl

@[simp] theorem configPageRabEntry_entry : (s.configPageRabEntry c m).entry slot =
    if slot = s.victim c m.page then some m else s.entry slot := by
  simp [configPageRabEntry]

@[simp] theorem addToRecentlyMappedPages_entry :
    (s.addToRecentlyMappedPages page).entry slot = s.entry slot := by
  cases slot <;> rfl

@[simp] theorem removeFromRecentlyMappedPages_entry :
    (s.removeFromRecentlyMappedPages page).entry slot = s.entry slot := by
  cases slot <;> rfl

@[simp] theorem resetVmm_entry : s.resetVmm.entry slot = s.entry slot := by
  cases slot <;> rfl

private theorem wrap_lt {ptr n : Nat} (hn : 0 < n) : wrap ptr n < n := by
  rw [wrap]
  split <;> omega

theorem victim_inPlace : InPlace c (s.victim c page) page := by
  rw [victim]
  cases c.lvl with
  | l1 => exact wrap_lt c.nSlices_pos
  | l2 => exact ⟨rfl, wrap_lt (by decide)⟩

/-- After an entry is configured its slot serves the new page, the others what they did. -/
theorem config_serves : (s.configPageRabEntry c m).Serves c slot page ↔
    if slot = s.victim c m.page then m.page = page else s.Serves c slot page := by
  rw [Serves, configPageRabEntry_entry]
  split_ifs with hslot
  · constructor
    · rintro ⟨⟨m', hm', hpage⟩, -⟩
      cases hm'
      exact hpage
    · intro hpage
      refine ⟨⟨m, rfl, hpage⟩, ?_⟩
      rw [hslot, ← hpage]
      exact victim_inPlace
  · exact Iff.rfl

theorem serves_congr {t : VmmState} (h : ∀ slot, t.entry slot = s.entry slot) :
    t.Serves c slot page ↔ s.Serves c slot page := by
  rw [Serves, Serves, h]

private theorem holds_iff {o : Option Mapping} :
    holds page o = true ↔ ∃ m, o = some m ∧ m.page = page := by
  cases o with
  | none => simp [holds]
  | some m => simp [holds]

theorem pageIsMapped_iff : s.pageIsMapped c page = true ↔ c.host page = true ∨ s.Mapped c page := by
  simp only [pageIsMapped, Bool.or_eq_true, List.any_eq_true, List.mem_range, holds_iff, or_assoc]
  apply or_congr_right
  constructor
  · rintro (⟨k, hk, hm⟩ | ⟨i, hi, hm⟩)
    · exact ⟨.slice k, hm, hk⟩
    · exact ⟨.l2 (pageSet page) i, hm, rfl, hi⟩
  · rintro ⟨slot, hm, hplace⟩
    cases slot with
    | slice k => exact Or.inl ⟨k, hplace, hm⟩
    | l2 set i =>
      obtain ⟨rfl, hi⟩ := hplace
      exact Or.inr ⟨i, hi, hm⟩

theorem pageAddr_toNat (page : Vpn) : (pageAddr page).toNat = 4096 * page.toNat := by
  have hpage := page.isLt
  rw [pageAddr, BitVec.toNat_shiftLeft, BitVec.toNat_setWidth, Nat.shiftLeft_eq]
  omega

theorem vpn_toNat (addr : VirtAddr) : (vpn addr).toNat = addr.toNat / 4096 := by
  have haddr := addr.isLt
  rw [vpn, BitVec.toNat_setWidth, BitVec.toNat_ushiftRight, Nat.shiftRight_eq_div_pow]
  omega

/-- A slice of one page contains exactly the addresses of the page. -/
theorem sliceContains_iff {o : Option Mapping} {addr : VirtAddr} :
    sliceContains addr o = true ↔ ∃ m, o = some m ∧ m.page = vpn addr := by
  cases o with
  | none => simp [sliceContains]
  | some m =>
    have haddr := addr.isLt
    have hpage := m.page.isLt
    have hend : (pageAddr m.page + 4095#32).toNat = 4096 * m.page.toNat + 4095 := by
      rw [BitVec.toNat_add, pageAddr_toNat]
      simp
      omega
    simp only [sliceContains, Bool.and_eq_true, decide_eq_true_eq, BitVec.le_def, pageAddr_toNat,
      hend, Option.some.injEq, exists_eq_left', ← BitVec.toNat_inj, vpn_toNat]
    omega

end

end VmmState

/-- The calls that the functions of the library are made of. -/
inductive Call where
  /-- configure an entry; a page that missed is added to the list of recent pages -/
  | config (m : Mapping) (missed : Bool)
  /-- disable a slice and forget the page of the address that it was found for -/
  | disable (k : Nat) (page : Vpn)
  | wakeUpCore (clusterId coreId : Nat) (page : Vpn)
  | reset
  deriving DecidableEq, Repr

def VmmState.step (c : Config) (s : VmmState) : Call → VmmState
  | .config m missed =>
    let s := s.configPageRabEntry c m
    if missed then s.addToRecentlyMappedPages m.page else s
  | .disable k page => (s.setSlot (.slice k) none).removeFromRecentlyMappedPages page
  | .wakeUpCore _ _ _ => s
  | .reset => s.resetVmm

def vmm (c : Config) : Interp VmmState Call VmmState := ⟨id, VmmState.step c⟩

theorem VmmState.step_config_serves {c : Config} {s : VmmState} {slot : Slot} {m : Mapping} {missed : Bool}
    {page : Vpn} : (s.step c (.config m missed)).Serves c slot page ↔
      if slot = s.victim c m.page then m.page = page else s.Serves c slot page := by
  rw [← config_serves]
  cases missed with
  | false => exact Iff.rfl
  | true => exact serves_congr fun _ => addToRecentlyMappedPages_entry

/-- Why a function does not return zero: an error, or a loop that does not end. -/
inductive Stop where
  | errno (e : Errno)
  | never
  deriving DecidableEq, Repr

abbrev Op (α : Type) := Prog VmmState Call Stop α

/-- `virt_addr_to_page_phys_addr` on the page tables at the time of a call. -/
abbrev PageWalk := Vpn → Except Errno (Nat × Bool)

/-- `map_page`, also from the miss handler, which remembers the page. -/
def mapPage (walk : PageWalk) (missed : Bool) (page : Vpn) : Op Unit := match walk page with
  | .error e => .fail (.errno e)
  | .ok (phys, rdonly) => Prog.issue (.config ⟨page, phys, rdonly⟩ missed)

/-- The loop of `map_pages` from `page` to `last`; page numbers wrap around, so that after a whole
round it goes on for ever. -/
def mapLoop (walk : PageWalk) (last : Vpn) : Nat → Vpn → Op Unit
  | 0, _ => .fail .never
  | n + 1, page =>
    if pageAddr page ≤ pageAddr last then do
      mapPage walk false page
      mapLoop walk last n (page + 1#20)
    else return ()

/-- `map_pages` -/
def mapPages (c : Config) (walk : PageWalk) (addr nBytes : VirtAddr) : Op Unit :=
  let last := vpn (addr + nBytes - 1#32)
  let nPages := ((pageAddr last - pageAddr (vpn addr)) >>> 12) + 1#32
  if nPages.toNat > c.nSlices then .fail (.errno .enomem)
  else mapLoop walk last (2 ^ 20) (vpn addr)

/-- `unmap_page` -/
def unmapPage (c : Config) (addr : VirtAddr) : Op Unit := do
  let s ← Prog.get
  match (List.range c.nSlices).find? fun k => VmmState.sliceContains addr (s.slices k) with
  | some k => Prog.issue (.disable k (vpn addr))
  | none => Prog.fail (.errno .enoent)

theorem unmapPage_eq (c : Config) (addr : VirtAddr) : unmapPage c addr = .read fun s =>
    ((List.range c.nSlices).find? fun k => VmmState.sliceContains addr (s.slices k)).elim
      (.fail (.errno .enoent)) fun k => Prog.issue (.disable k (vpn addr)) := by
  apply congrArg Prog.read
  funext s
  simp only [Prog.bind]
  cases (List.range c.nSlices).find? fun k => VmmState.sliceContains addr (s.slices k) with
  | none => rfl
  | some k => rfl

structure CoreId where
  clusterId : Nat
  coreId : Nat
  deriving DecidableEq, Repr

/-- `rab_miss_t` -/
structure RabMiss where
  virtAddr : VirtAddr
  core : CoreId
  intraClusterId : Nat
  isPrefetch : Bool

/-- Map the page of a miss, unless it is known to be mapped. -/
def mapMissed (c : Config) (walk : PageWalk) (page : Vpn) : Op Unit := do
  let s ← Prog.get
  if !s.pageHasRecentlyBeenMapped page && !s.pageIsMapped c page then mapPage walk true page
  else return ()

def wakeUp (miss : RabMiss) : Op Unit :=
  if miss.isPrefetch then return ()
  else Prog.issue (.wakeUpCore miss.core.clusterId miss.core.coreId (vpn miss.virtAddr))

/-- The part of `handle_rab_misses` for one miss of another core. -/
def handleMiss (c : Config) (walk : PageWalk) (miss : RabMiss) : Op Unit := do
  mapMissed c walk (vpn miss.virtAddr)
  wakeUp miss

/-- `handle_rab_misses` on the misses it finds in the FIFO, each with the page tables at that time. -/
def handleRabMisses (c : Config) (mht : CoreId) : Nat → List (RabMiss × PageWalk) → Op Unit
  | nMissesHandled, [] => if nMissesHandled > 0 then return () else .fail (.errno .enoent)
  | nMissesHandled, (miss, walk) :: misses =>
    if miss.intraClusterId ≠ 2 then .fail (.errno .efault)
    else if miss.core = mht then handleRabMisses c mht nMissesHandled misses
    else do
      handleMiss c walk miss
      handleRabMisses c mht (nMissesHandled + 1) misses

/-- What the library is asked to do. -/
inductive Request where
  | mapPage (walk : PageWalk) (addr : VirtAddr)
  | mapPages (walk : PageWalk) (addr nBytes : VirtAddr)
  | unmapPage (addr : VirtAddr)
  | handleRabMisses (mht : CoreId) (misses : List (RabMiss × PageWalk))
  | resetVmm

def Request.prog (c : Config) : Request → Op Unit
  | .mapPage walk addr => Hero.Vmm.mapPage walk false (vpn addr)
  | .mapPages walk addr nBytes => Hero.Vmm.mapPages c walk addr nBytes
  | .unmapPage addr => Hero.Vmm.unmapPage c addr
  | .handleRabMisses mht misses => Hero.Vmm.handleRabMisses c mht 0 misses
  | .resetVmm => Prog.issue .reset

end Hero.Vmm
