import Hero.Driver.Rab.Operations
import Hero.Framework.Windows

/-!
# Mapping the device into user space

The driver selects a region of the device by the offset in its file and checks the size afterwards;
the user library adds up the sizes of the regions on its own.
-/

namespace Hero.Driver

open Rab

inductive Region where
  | clusters
  | socPeripherals
  | mbox
  | l2
  | l3
  | hGpio
  | clking
  | rabConfig
  | slcr
  deriving DecidableEq, Repr

def socPeripheralsSizeB : Nat := 0x50000
def mboxSizeB : Nat := 0x1000
def hGpioSizeB : Nat := 0x1000
def clkingSizeB : Nat := 0x1000
def rabConfigSizeB : Nat := 0x10000
def slcrSizeB : Nat := 0x1000

end Hero.Driver

namespace Hero.Rab.Platform

open Driver

variable (plat : Platform)

def clustersSizeB : Nat := plat.nClusters * (4 * 1024 * 1024)

def socPeripheralsHBaseAddr : Platform → Nat
  | .zedboard | .zc706 | .miniItx => 0x4A100000
  | .juno => 0x65100000
  | .ariane => 0x5A100000
  | .te0808 | .zynqmp => 0xA5100000

def hGpioBaseAddr : Platform → Nat
  | .zedboard | .zc706 | .miniItx => 0x51000000
  | .juno => 0x6E000000
  | .ariane => 0x40000000
  | .te0808 => 0xAE000000
  | .zynqmp => 0xA9000000

/-- 0 where there is no clocking device -/
def clkingBaseAddr : Platform → Nat
  | .zedboard | .zc706 | .miniItx => 0x51010000
  | .juno => 0x6E010000
  | .te0808 => 0xAE010000
  | .ariane | .zynqmp => 0

def rabConfigBaseAddr : Platform → Nat
  | .zedboard | .zc706 | .miniItx => 0x51030000
  | .juno => 0x6E030000
  | .ariane => 0x60030000
  | .te0808 => 0xAE030000
  | .zynqmp => 0xA8000000

def slcrBaseAddr : Nat := 0xF8000000

/-- The platforms with a Zynq system -/
def isZynq : Platform → Bool
  | .zedboard | .zc706 | .miniItx => true
  | _ => false

/-- The values of an `unsigned long` of the host -/
def longSize : Nat := if plat.isZynq then 4294967296 else 18446744073709551616

/-- The base address of a region on the host -/
def baseAddr : Region → Nat
  | .clusters => plat.pulpHBaseAddr
  | .socPeripherals => plat.socPeripheralsHBaseAddr
  | .mbox => plat.mboxHBaseAddr
  | .l2 => plat.l2MemHBaseAddr
  | .l3 => plat.l3MemHBaseAddr
  | .hGpio => plat.hGpioBaseAddr
  | .clking => plat.clkingBaseAddr
  | .rabConfig => plat.rabConfigBaseAddr
  | .slcr => slcrBaseAddr

def sizeB : Region → Nat
  | .clusters => plat.clustersSizeB
  | .socPeripherals => socPeripheralsSizeB
  | .mbox => mboxSizeB
  | .l2 => plat.l2MemSizeB
  | .l3 => plat.l3MemSizeB
  | .hGpio => hGpioSizeB
  | .clking => clkingSizeB
  | .rabConfig => rabConfigSizeB
  | .slcr => slcrSizeB

/-- Whether the device has a region. -/
def hasRegion : Region → Bool
  | .clking => plat.clkingBaseAddr != 0
  | .slcr => plat.isZynq
  | _ => true

end Hero.Rab.Platform

namespace Hero.Driver

open Rab

inductive MmapError where
  | enodev
  | einval
  | eagain
  deriving DecidableEq, Repr

/-- A `struct vm_area_struct`; the kernel has checked the order of its addresses. -/
structure Vma where
  vmStart : Nat
  vmEnd : Nat
  vmPgoff : Nat
  ordered : vmStart ≤ vmEnd

/-- A range of physical addresses -/
structure PhysRange where
  addr : Nat
  size : Nat
  deriving DecidableEq, Repr

/-- The chain of `pulp_mmap` in the driver over the offset of a mapping: the region with its size and
the offset in it. -/
def selectRegion (plat : Platform) (off : Nat) : Except MmapError (Region × Nat) :=
  let c := plat.clustersSizeB
  let s := socPeripheralsSizeB
  let m := mboxSizeB
  let l2 := plat.l2MemSizeB
  let l3 := plat.l3MemSizeB
  let g := hGpioSizeB
  let k := clkingSizeB
  let r := rabConfigSizeB
  if off < c then .ok (.clusters, off)
  else if off < c + s then .ok (.socPeripherals, off - c)
  else if off < c + s + m then .ok (.mbox, off - c - s)
  else if off < c + s + m + l2 then .ok (.l2, off - c - s - m)
  else if off < c + s + m + l2 + l3 then .ok (.l3, off - c - s - m - l2)
  else if off < c + s + m + l2 + l3 + g then .ok (.hGpio, off - c - s - m - l2 - l3)
  else if off < c + s + m + l2 + l3 + g + k then
    if plat.clkingBaseAddr = 0 then .error .enodev
    else .ok (.clking, off - c - s - m - l2 - l3 - g)
  else if off < c + s + m + l2 + l3 + g + k + r then
    .ok (.rabConfig, off - c - s - m - l2 - l3 - g - k)
  else if plat.isZynq ∧ off < c + s + m + l2 + l3 + g + k + r + slcrSizeB then
    .ok (.slcr, off - c - s - m - l2 - l3 - g - k - r)
  else .error .einval

/-- The offset of a mapping, in `unsigned long` -/
def Vma.off (vma : Vma) (plat : Platform) : Nat := vma.vmPgoff * pageSize % plat.longSize

/-- `pulp_mmap` of the driver: the physical range it maps.  The call to `io_remap_pfn_range` may
fail. -/
def mmap (plat : Platform) (vma : Vma) (ioRemap : Bool) : Except MmapError PhysRange := do
  let (region, off) ← selectRegion plat (vma.off plat)
  let physical := (plat.baseAddr region + off) % plat.longSize / pageSize
  let vsize := vma.vmEnd - vma.vmStart
  let psize := plat.sizeB region - off
  if vsize > psize then throw .einval
  if !ioRemap then throw .eagain
  return ⟨physical * pageSize, vsize⟩

end Hero.Driver

namespace Hero.Libpulp

open Driver Rab

/-- A call to `mmap` for a region: the offset and the size it passes. -/
structure MmapCall where
  region : Region
  offset : Nat
  size : Nat
  deriving DecidableEq, Repr

/-- The calls of `pulp_mmap` of the library, in their order. -/
def pulpMmap (plat : Platform) : List MmapCall :=
  let c := plat.clustersSizeB
  let s := socPeripheralsSizeB
  let m := mboxSizeB
  let l2 := plat.l2MemSizeB
  let l3 := plat.l3MemSizeB
  let g := hGpioSizeB
  let k := clkingSizeB
  let r := rabConfigSizeB
  [⟨.clusters, 0, c⟩,
    ⟨.socPeripherals, c, s⟩,
    ⟨.mbox, c + s, m⟩,
    ⟨.l2, c + s + m, l2⟩,
    ⟨.l3, c + s + m + l2, l3⟩,
    ⟨.hGpio, c + s + m + l2 + l3, g⟩,
    ⟨.clking, c + s + m + l2 + l3 + g, k⟩,
    ⟨.rabConfig, c + s + m + l2 + l3 + g + k, r⟩] ++
  if plat.isZynq then [⟨.slcr, c + s + m + l2 + l3 + g + k + r, slcrSizeB⟩] else []

end Hero.Libpulp

namespace Hero.Driver

open Rab

/-- The regions in the file of the device, end to end. -/
def windows (plat : Platform) : List (Region × Nat) :=
  [Region.clusters, .socPeripherals, .mbox, .l2, .l3, .hGpio, .clking, .rabConfig].map
      (fun r => (r, plat.sizeB r)) ++
    if plat.isZynq then [(.slcr, plat.sizeB .slcr)] else []

/-- An offset in the file belongs to a region of the device. -/
def InWindow (plat : Platform) (r : Region) (off : Nat) : Prop :=
  plat.hasRegion r = true ∧ Windows.start (windows plat) r ≤ off ∧
    off < Windows.start (windows plat) r + plat.sizeB r

variable (plat : Platform)

theorem windows_nodup : ((windows plat).map Prod.fst).Nodup := by
  cases plat <;> decide

theorem mem_windows {r : Region} (h : plat.hasRegion r = true) :
    (r, plat.sizeB r) ∈ windows plat := by
  cases hz : plat.isZynq <;> cases r <;> simp_all [windows, Platform.hasRegion]

/-- What is mapped for a window. -/
def resolve : Option (Region × Nat) → Except MmapError (Region × Nat)
  | none => .error .einval
  | some (r, o) => if plat.hasRegion r then .ok (r, o) else .error .enodev

/-- The driver selects the window an offset falls into. -/
theorem selectRegion_eq (off : Nat) :
    selectRegion plat off = resolve plat (Windows.locate (windows plat) off) := by
  have hclking : ∀ o, resolve plat (some (.clking, o)) =
      if plat.clkingBaseAddr = 0 then .error .enodev else .ok (.clking, o) := by
    intro o
    simp [resolve, Platform.hasRegion]
  have hfrom : Windows.locateFrom 0 (windows plat) off = Windows.locate (windows plat) (off - 0) :=
    Windows.locateFrom_eq (Nat.zero_le off)
  rw [Nat.sub_zero] at hfrom
  rw [← hfrom]
  cases hz : plat.isZynq <;>
    simp only [selectRegion, windows, hz, Platform.sizeB, List.map_cons, List.map_nil,
      List.cons_append, List.nil_append, if_true, Bool.false_eq_true, if_false, Windows.locateFrom,
      apply_ite (resolve plat), hclking, Nat.zero_add, Nat.sub_sub, true_and, false_and] <;>
    simp [resolve, Platform.hasRegion, hz]

/-- The driver selects a region for the offsets in its window and for no others. -/
theorem selectRegion_ok_iff (off : Nat) (r : Region) (o : Nat) : selectRegion plat off = .ok (r, o) ↔
    InWindow plat r off ∧ off = Windows.start (windows plat) r + o := by
  rw [selectRegion_eq]
  constructor
  · intro h
    cases hloc : Windows.locate (windows plat) off with
    | none =>
      rw [hloc] at h
      cases h
    | some x =>
      obtain ⟨r', o'⟩ := x
      rw [hloc, resolve] at h
      split at h
      · next hregion =>
        cases h
        have hoff := (Windows.locate_eq_some_iff (windows_nodup plat) (mem_windows plat hregion)).mp
          hloc
        exact ⟨⟨hregion, by omega, by omega⟩, hoff.1⟩
      · cases h
  · intro h
    obtain ⟨⟨hregion, -, hlt⟩, hoff⟩ := h
    have hloc : Windows.locate (windows plat) off = some (r, o) :=
      (Windows.locate_eq_some_iff (windows_nodup plat) (mem_windows plat hregion)).mpr
        ⟨hoff, by omega⟩
    rw [hloc, resolve, if_pos hregion]

theorem inWindow_unique {r r' : Region} {off : Nat} (h : InWindow plat r off)
    (h' : InWindow plat r' off) : r' = r := by
  have hsel := (selectRegion_ok_iff plat off r (off - Windows.start (windows plat) r)).mpr
    ⟨h, by have := h.2.1; omega⟩
  have hsel' := (selectRegion_ok_iff plat off r' (off - Windows.start (windows plat) r')).mpr
    ⟨h', by have := h'.2.1; omega⟩
  rw [hsel] at hsel'
  cases hsel'
  rfl

/-- What the driver maps if it accepts an area. -/
theorem mmap_ok_iff (vma : Vma) (ioRemap : Bool) (range : PhysRange) :
    mmap plat vma ioRemap = .ok range ↔ ∃ r o, selectRegion plat (vma.off plat) = .ok (r, o) ∧
      vma.vmEnd - vma.vmStart ≤ plat.sizeB r - o ∧ ioRemap = true ∧
      range = ⟨(plat.baseAddr r + o) % plat.longSize / pageSize * pageSize,
        vma.vmEnd - vma.vmStart⟩ := by
  rw [mmap]
  cases selectRegion plat (vma.off plat) with
  | error e => simp [bind, Except.bind]
  | ok x =>
    obtain ⟨r, o⟩ := x
    cases ioRemap <;> simp [bind, Except.bind, pure, Except.pure, throw, throwThe,
      MonadExceptOf.throw] <;> grind

/-- Regions and windows start at pages, and the addresses fit. -/
private theorem region_pages (r : Region) : plat.baseAddr r % pageSize = 0 ∧
    Windows.start (windows plat) r % pageSize = 0 ∧ plat.baseAddr r + plat.sizeB r ≤ plat.longSize ∧
    plat.longSize % pageSize = 0 := by
  cases plat <;> cases r <;> decide

/-- Without overflow the range starts in the region where the area starts in the window. -/
private theorem phys_addr {r : Region} {o : Nat} (hlt : o < plat.sizeB r) (hpage : o % pageSize = 0) :
    (plat.baseAddr r + o) % plat.longSize / pageSize * pageSize = plat.baseAddr r + o := by
  obtain ⟨hbase, -, hfits, -⟩ := region_pages plat r
  rw [Nat.mod_eq_of_lt (by omega)]
  simp only [pageSize] at *
  omega

/-- The library passes the start and the size of a window. -/
private theorem pulpMmap_windows : ∀ m ∈ Libpulp.pulpMmap plat,
    m.offset = Windows.start (windows plat) m.region ∧ m.size = plat.sizeB m.region ∧ 0 < m.size ∧
      (m.region, m.size) ∈ windows plat ∧ m.offset < plat.longSize := by
  cases plat <;> decide

private theorem selectRegion_pulpMmap {m : Libpulp.MmapCall} (hm : m ∈ Libpulp.pulpMmap plat) :
    selectRegion plat m.offset =
      if plat.hasRegion m.region then .ok (m.region, 0) else .error .enodev := by
  obtain ⟨hoffset, -, hpos, hmem, -⟩ := pulpMmap_windows plat m hm
  have hloc : Windows.locate (windows plat) m.offset = some (m.region, 0) :=
    (Windows.locate_eq_some_iff (windows_nodup plat) hmem).mpr ⟨hoffset, hpos⟩
  rw [selectRegion_eq, hloc, resolve]

/-- An area that the driver accepts is mapped to a range in the one region its offset falls into,
and what the library maps is exactly the region it is after, where the device has it. -/
theorem mmap_windows (plat : Platform) :
    (∀ vma ioRemap range, mmap plat vma ioRemap = .ok range → ∃ r, InWindow plat r (vma.off plat) ∧
      (∀ r', InWindow plat r' (vma.off plat) → r' = r) ∧
      range.addr = plat.baseAddr r + (vma.off plat - Windows.start (windows plat) r) ∧
      range.size = vma.vmEnd - vma.vmStart ∧
      range.addr + range.size ≤ plat.baseAddr r + plat.sizeB r) ∧
    ∀ m ∈ Libpulp.pulpMmap plat, ∀ vma : Vma, vma.vmPgoff * pageSize = m.offset →
      vma.vmEnd - vma.vmStart = m.size → mmap plat vma true =
        if plat.hasRegion m.region then .ok ⟨plat.baseAddr m.region, plat.sizeB m.region⟩
        else .error .enodev := by
  constructor
  · intro vma ioRemap range h
    obtain ⟨r, o, hsel, hsize, -, rfl⟩ := (mmap_ok_iff plat vma ioRemap range).mp h
    obtain ⟨hwin, hoff⟩ := (selectRegion_ok_iff plat _ r o).mp hsel
    obtain ⟨-, hstart, -, hlong⟩ := region_pages plat r
    have hlt : o < plat.sizeB r := by
      have := hwin.2.2
      omega
    have hpage : o % pageSize = 0 := by
      simp only [Vma.off, pageSize] at *
      have hmul : vma.vmPgoff * 4096 % plat.longSize % 4096 = 0 := by
        rw [Nat.mod_mod_of_dvd _ (Nat.dvd_of_mod_eq_zero hlong), Nat.mul_mod_left]
      omega
    rw [phys_addr plat hlt hpage]
    refine ⟨r, hwin, fun r' h' => inWindow_unique plat hwin h', ?_, rfl, ?_⟩
    · change plat.baseAddr r + o = _
      omega
    · change plat.baseAddr r + o + (vma.vmEnd - vma.vmStart) ≤ _
      omega
  · intro m hm vma hoffset hsize
    obtain ⟨-, hregion, -, -, hlong⟩ := pulpMmap_windows plat m hm
    have hoff : vma.off plat = m.offset := by
      rw [Vma.off, hoffset, Nat.mod_eq_of_lt hlong]
    have hsel := selectRegion_pulpMmap plat hm
    cases hhas : plat.hasRegion m.region with
    | false =>
      rw [mmap, hoff, hsel, hhas]
      rfl
    | true =>
      rw [hhas, if_pos rfl, ← hoff] at hsel
      have hpos : 0 < plat.sizeB m.region := by
        obtain ⟨-, -, hpos, -⟩ := pulpMmap_windows plat m hm
        omega
      rw [if_pos rfl, mmap_ok_iff]
      refine ⟨m.region, 0, hsel, by omega, rfl, ?_⟩
      rw [phys_addr plat hpos rfl, hsize, hregion, Nat.add_zero]

/-- The library maps the RAB configuration. -/
theorem mmap_windows_rabConfig : mmap .zynqmp ⟨0x10000, 0x20000, 0x8473, by decide⟩ true =
    .ok ⟨0xA8000000, 0x10000⟩ :=
  (mmap_windows .zynqmp).2 ⟨.rabConfig, 0x8473000, 0x10000⟩ (by decide)
    ⟨0x10000, 0x20000, 0x8473, by decide⟩ (by decide) (by decide)

end Hero.Driver
