import Hero.Driver.Rab.StripeTable
import Mathlib.Data.BitVec

/-!
# The remapping address block and its shadow

The state the driver keeps for the RAB: the shadow of both ports with the lists of pinned pages, the
hardware slices and the record of what the kernel was asked to pin and to release.
-/

namespace Hero.Rab

open Driver

inductive Platform where
  | zedboard
  | zc706
  | miniItx
  | juno
  | te0808
  | ariane
  | zynqmp
  deriving DecidableEq, Repr

/-- `RAB_L1_N_SLICES_PORT_1` -/
def Platform.nSlicesPort1 : Platform → Nat
  | .zedboard => 8
  | _ => 32

/-- `RAB_L1_N_SLICES_PORT_0` -/
def nSlicesPort0 : Nat := 4

/-- `RAB_L1_N_MAPPINGS_PORT_1` -/
def nMappingsPort1 : Nat := 2

/-- `RAB_MAX_DATE` -/
def maxDate : Nat := 255

/-- `RAB_MAX_DATE_MH` -/
def maxDateMh : Nat := maxDate - 2

inductive Port where
  | port0
  | port1
  deriving DecidableEq, Repr

abbrev Flags := BitVec 8

namespace Flags

/-- `RAB_FLAGS_DRV_*` -/
def drvConst : Flags := 1#8
def drvStriped : Flags := 2#8
def drvEvery : Flags := 4#8
def drvFixed : Flags := 8#8

/-- `RAB_FLAGS_HW_*` -/
def hwEn : Flags := 1#8
def hwRead : Flags := 2#8
def hwWrite : Flags := 4#8
def hwCc : Flags := 8#8

/-- `BIT_GET` -/
def has (y mask : Flags) : Bool := y &&& mask != 0#8

/-- `BIT_SET` -/
def set (y mask : Flags) : Flags := y ||| mask

/-- `BIT_CLEAR` -/
def clear (y mask : Flags) : Flags := y &&& ~~~mask

/-- `RAB_GET_PROT` -/
def prot (y : Flags) : Flags := y &&& 7#8

end Flags

open Flags

/-- `RabSliceReq` -/
structure SliceReq where
  dateCur : Nat
  dateExp : Nat
  pagePtrIdx : Nat
  pageIdxStart : Nat
  pageIdxEnd : Nat
  rabPort : Port
  rabMapping : Nat
  rabSlice : Nat
  flagsDrv : Flags
  addrStart : Nat
  addrEnd : Nat
  addrOffset : Nat
  flagsHw : Flags
  deriving DecidableEq, Repr

structure L1EntryPort0 where
  fixed : Bool
  dateCur : Nat
  dateExp : Nat
  addrStart : Nat
  addrEnd : Nat
  addrOffset : Nat
  flagsHw : Flags
  deriving DecidableEq, Repr

structure L1EntryPort1 extends L1EntryPort0 where
  pagePtrIdx : Nat
  pageIdxStart : Nat
  pageIdxEnd : Nat
  flagsDrv : Flags
  deriving DecidableEq, Repr

/-- A `struct page **`: the list that one call of `get_user_pages` filled, with the address and the
number of pages it was asked for. -/
structure PageArray where
  id : Nat
  addrStart : Nat
  len : Nat
  deriving DecidableEq, Repr

/-- One pinned page: an entry of a list of pages. -/
structure Pin where
  array : Nat
  idx : Nat
  deriving DecidableEq, Repr

structure L1TlbMappingPort1 where
  slices : Nat → L1EntryPort1
  pagePtrs : Nat → Option PageArray
  pagePtrRefCntrs : Nat → Nat

/-- `L1Tlb` -/
structure L1Tlb where
  port0 : Nat → L1EntryPort0
  mappings : Nat → L1TlbMappingPort1
  mappingActive : Nat

/-- The registers of a hardware slice; addresses are page numbers. -/
structure HwSlice where
  addrStart : Nat
  addrEnd : Nat
  addrOffset : Nat
  flags : Flags
  deriving DecidableEq, Repr

def HwSlice.withFlags (h : HwSlice) (flags : Flags) : HwSlice := { h with flags := flags }

/-- `RabStripeElem` -/
structure StripeElem where
  id : Nat
  type : ElemType
  pagePtrIdx : Nat
  nSlicesPerStripe : Nat
  sliceIdxs : List Nat
  setOffset : Nat
  stripeIdx : Nat
  nStripes : Nat
  stripes : List Stripe
  flagsHw : Flags
  deriving DecidableEq, Repr

/-- What the kernel did for the driver: lists of pages handed out, pages pinned and released, lists
freed. -/
structure Kernel where
  nextArray : Nat
  pinned : List Pin
  put : List Pin
  freed : List Nat
  deriving DecidableEq, Repr

/-- The static variables of the driver other than the shadow. -/
structure Control where
  stripeReq : Nat → List StripeElem
  socMhIsEna : Bool
  nSlicesReservedForHost : Nat
  mhDate : Nat
  mhAcp : Bool
  mhLvl : Nat

structure RabState where
  l1 : L1Tlb
  hw : Port → Nat → HwSlice
  ctrl : Control
  kernel : Kernel

namespace RabState

variable (s : RabState) (req : SliceReq)

def slice (m k : Nat) : L1EntryPort1 := (s.l1.mappings m).slices k

def pagePtr (m i : Nat) : Option PageArray := (s.l1.mappings m).pagePtrs i

def refCntr (m i : Nat) : Nat := (s.l1.mappings m).pagePtrRefCntrs i

/-- The fields that both ports have. -/
def entry : L1EntryPort0 := match req.rabPort with
  | .port0 => s.l1.port0 req.rabSlice
  | .port1 => (s.slice req.rabMapping req.rabSlice).toL1EntryPort0

def setMapping (m : Nat) (mapping : L1TlbMappingPort1) : RabState :=
  { s with l1 := { s.l1 with mappings := Function.update s.l1.mappings m mapping } }

def setSlice (m k : Nat) (e : L1EntryPort1) : RabState :=
  s.setMapping m { s.l1.mappings m with slices := Function.update (s.l1.mappings m).slices k e }

def setPagePtr (m i : Nat) (pages : Option PageArray) : RabState :=
  let ptrs := Function.update (s.l1.mappings m).pagePtrs i pages
  s.setMapping m { s.l1.mappings m with pagePtrs := ptrs }

def setRefCntr (m i n : Nat) : RabState :=
  let cntrs := Function.update (s.l1.mappings m).pagePtrRefCntrs i n
  s.setMapping m { s.l1.mappings m with pagePtrRefCntrs := cntrs }

def setPort0 (k : Nat) (e : L1EntryPort0) : RabState :=
  { s with l1 := { s.l1 with port0 := Function.update s.l1.port0 k e } }

def setHw (p : Port) (k : Nat) (h : HwSlice) : RabState :=
  { s with hw := Function.update s.hw p (Function.update (s.hw p) k h) }

/-- Write the flags register of a slice. -/
def setHwFlags (p : Port) (k : Nat) (flags : Flags) : RabState :=
  s.setHw p k ((s.hw p k).withFlags flags)

/-- `put_page` on the entries `first` to `last` of a list. -/
def putPages (pages : PageArray) (first last : Nat) : RabState :=
  { s with kernel := { s.kernel with
      put := s.kernel.put ++ (List.range' first (last + 1 - first)).map (Pin.mk pages.id) } }

def kfree (pages : PageArray) : RabState :=
  { s with kernel := { s.kernel with freed := s.kernel.freed ++ [pages.id] } }

def sliceIsManagedByHost : Bool :=
  req.rabPort = .port0 || !s.ctrl.socMhIsEna || req.rabSlice < s.ctrl.nSlicesReservedForHost

/-- `pulp_rab_slice_check` -/
def sliceCheck : Bool :=
  let fixed := req.flagsDrv.has drvFixed
  let e := s.entry req
  let expired := req.dateCur > e.dateExp || req.dateCur = 0 && maxDateMh = e.dateExp
  expired && (!e.fixed || fixed && e.fixed)

/-- The slice `pulp_rab_slice_get` finds among `nSlices`. -/
def sliceGet (nSlices : Nat) : Option Nat :=
  (List.range nSlices).find? fun k =>
    s.sliceCheck { req with rabSlice := k } && s.sliceIsManagedByHost { req with rabSlice := k }

/-- The field `pulp_rab_page_ptrs_get_field` finds among `nSlices`. -/
def pagePtrsGetField (nSlices m : Nat) : Option Nat :=
  (List.range nSlices).find? fun i => s.refCntr m i = 0

def mappingGetActive : Nat := s.l1.mappingActive

section

variable {s : RabState} {m k i n : Nat} {e : L1EntryPort1} {e0 : L1EntryPort0}
  {pages : Option PageArray} {arr : PageArray} {p : Port} {h : HwSlice} {flags : Flags}

@[simp] theorem setSlice_slice (m' k' : Nat) :
    (s.setSlice m k e).slice m' k' = if m' = m ∧ k' = k then e else s.slice m' k' := by
  by_cases hm : m' = m
  · by_cases hk : k' = k <;> simp [setSlice, setMapping, slice, hm, hk]
  · simp [setSlice, setMapping, slice, hm]

@[simp] theorem setSlice_pagePtr (m' i' : Nat) :
    (s.setSlice m k e).pagePtr m' i' = s.pagePtr m' i' := by
  by_cases hm : m' = m <;> simp [setSlice, setMapping, pagePtr, hm]

@[simp] theorem setSlice_refCntr (m' i' : Nat) :
    (s.setSlice m k e).refCntr m' i' = s.refCntr m' i' := by
  by_cases hm : m' = m <;> simp [setSlice, setMapping, refCntr, hm]

@[simp] theorem setPagePtr_slice (m' k' : Nat) :
    (s.setPagePtr m i pages).slice m' k' = s.slice m' k' := by
  by_cases hm : m' = m <;> simp [setPagePtr, setMapping, slice, hm]

@[simp] theorem setPagePtr_pagePtr (m' i' : Nat) :
    (s.setPagePtr m i pages).pagePtr m' i' =
      if m' = m ∧ i' = i then pages else s.pagePtr m' i' := by
  by_cases hm : m' = m
  · by_cases hk : i' = i <;> simp [setPagePtr, setMapping, pagePtr, hm, hk]
  · simp [setPagePtr, setMapping, pagePtr, hm]

@[simp] theorem setPagePtr_refCntr (m' i' : Nat) :
    (s.setPagePtr m i pages).refCntr m' i' = s.refCntr m' i' := by
  by_cases hm : m' = m <;> simp [setPagePtr, setMapping, refCntr, hm]

@[simp] theorem setRefCntr_slice (m' k' : Nat) :
    (s.setRefCntr m i n).slice m' k' = s.slice m' k' := by
  by_cases hm : m' = m <;> simp [setRefCntr, setMapping, slice, hm]

@[simp] theorem setRefCntr_pagePtr (m' i' : Nat) :
    (s.setRefCntr m i n).pagePtr m' i' = s.pagePtr m' i' := by
  by_cases hm : m' = m <;> simp [setRefCntr, setMapping, pagePtr, hm]

@[simp] theorem setRefCntr_refCntr (m' i' : Nat) :
    (s.setRefCntr m i n).refCntr m' i' = if m' = m ∧ i' = i then n else s.refCntr m' i' := by
  by_cases hm : m' = m
  · by_cases hk : i' = i <;> simp [setRefCntr, setMapping, refCntr, hm, hk]
  · simp [setRefCntr, setMapping, refCntr, hm]

@[simp] theorem setHw_hw (p' : Port) (k' : Nat) :
    (s.setHw p k h).hw p' k' = if p' = p ∧ k' = k then h else s.hw p' k' := by
  by_cases hp : p' = p
  · subst hp
    by_cases hk : k' = k <;> simp [setHw, hk]
  · simp [setHw, hp]

@[simp] theorem setHwFlags_hw (p' : Port) (k' : Nat) :
    (s.setHwFlags p k flags).hw p' k' =
      if p' = p ∧ k' = k then (s.hw p k).withFlags flags else s.hw p' k' :=
  setHw_hw p' k'

@[simp] theorem setSlice_hw : (s.setSlice m k e).hw = s.hw := rfl
@[simp] theorem setSlice_kernel : (s.setSlice m k e).kernel = s.kernel := rfl
@[simp] theorem setSlice_ctrl : (s.setSlice m k e).ctrl = s.ctrl := rfl
@[simp] theorem setSlice_active : (s.setSlice m k e).l1.mappingActive = s.l1.mappingActive := rfl
@[simp] theorem setSlice_port0 : (s.setSlice m k e).l1.port0 = s.l1.port0 := rfl
@[simp] theorem setPagePtr_hw : (s.setPagePtr m i pages).hw = s.hw := rfl
@[simp] theorem setPagePtr_kernel : (s.setPagePtr m i pages).kernel = s.kernel := rfl
@[simp] theorem setPagePtr_ctrl : (s.setPagePtr m i pages).ctrl = s.ctrl := rfl
@[simp] theorem setPagePtr_active :
    (s.setPagePtr m i pages).l1.mappingActive = s.l1.mappingActive := rfl
@[simp] theorem setPagePtr_port0 : (s.setPagePtr m i pages).l1.port0 = s.l1.port0 := rfl
@[simp] theorem setRefCntr_hw : (s.setRefCntr m i n).hw = s.hw := rfl
@[simp] theorem setRefCntr_kernel : (s.setRefCntr m i n).kernel = s.kernel := rfl
@[simp] theorem setRefCntr_ctrl : (s.setRefCntr m i n).ctrl = s.ctrl := rfl
@[simp] theorem setRefCntr_active :
    (s.setRefCntr m i n).l1.mappingActive = s.l1.mappingActive := rfl
@[simp] theorem setRefCntr_port0 : (s.setRefCntr m i n).l1.port0 = s.l1.port0 := rfl
@[simp] theorem setHw_l1 : (s.setHw p k h).l1 = s.l1 := rfl
@[simp] theorem setHw_kernel : (s.setHw p k h).kernel = s.kernel := rfl
@[simp] theorem setHw_ctrl : (s.setHw p k h).ctrl = s.ctrl := rfl
@[simp] theorem setHwFlags_l1 : (s.setHwFlags p k flags).l1 = s.l1 := rfl
@[simp] theorem setHwFlags_kernel : (s.setHwFlags p k flags).kernel = s.kernel := rfl
@[simp] theorem setHwFlags_ctrl : (s.setHwFlags p k flags).ctrl = s.ctrl := rfl
@[simp] theorem setHw_slice (m' k' : Nat) : (s.setHw p k h).slice m' k' = s.slice m' k' := rfl
@[simp] theorem setHw_pagePtr (m' i' : Nat) : (s.setHw p k h).pagePtr m' i' = s.pagePtr m' i' := rfl
@[simp] theorem setHw_refCntr (m' i' : Nat) : (s.setHw p k h).refCntr m' i' = s.refCntr m' i' := rfl
@[simp] theorem setHwFlags_slice (m' k' : Nat) :
    (s.setHwFlags p k flags).slice m' k' = s.slice m' k' := rfl
@[simp] theorem setHwFlags_pagePtr (m' i' : Nat) :
    (s.setHwFlags p k flags).pagePtr m' i' = s.pagePtr m' i' := rfl
@[simp] theorem setHwFlags_refCntr (m' i' : Nat) :
    (s.setHwFlags p k flags).refCntr m' i' = s.refCntr m' i' := rfl
@[simp] theorem setPort0_hw : (s.setPort0 k e0).hw = s.hw := rfl
@[simp] theorem setPort0_kernel : (s.setPort0 k e0).kernel = s.kernel := rfl
@[simp] theorem setPort0_ctrl : (s.setPort0 k e0).ctrl = s.ctrl := rfl
@[simp] theorem setPort0_active : (s.setPort0 k e0).l1.mappingActive = s.l1.mappingActive := rfl
@[simp] theorem setPort0_slice (m' k' : Nat) : (s.setPort0 k e0).slice m' k' = s.slice m' k' := rfl
@[simp] theorem setPort0_pagePtr (m' i' : Nat) :
    (s.setPort0 k e0).pagePtr m' i' = s.pagePtr m' i' := rfl
@[simp] theorem setPort0_refCntr (m' i' : Nat) :
    (s.setPort0 k e0).refCntr m' i' = s.refCntr m' i' := rfl

end

end RabState

end Hero.Rab
