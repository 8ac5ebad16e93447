import Hero.Driver.Rab.Slice
import Hero.Framework.Program

/-!
# Operations of the RAB driver

The functions of the driver as programs over the calls that change the RAB, its shadow and the
pinned pages.
-/

namespace Hero.Rab

open Driver Flags

inductive Err where
  | eio
  | enomem
  | ebusy
  | ealready
  | noSlice
  | fault
  deriving DecidableEq, Repr

/-- The calls the functions of the driver are made of; `report` gives an error to the caller or to the
log. -/
inductive Call where
  | getUserPages (nPages got : Nat)
  | sliceFree (req : SliceReq)
  | sliceSetup (req : SliceReq) (pages : Option PageArray)
  | mappingSwitch (m : Nat)
  | setStripeReq (m : Nat) (elements : List StripeElem)
  | setSocMh (ena : Bool) (reserved : Nat)
  | setMh (date : Nat) (acp : Bool) (lvl : Nat)
  | report (err : Err)
  deriving DecidableEq, Repr

def RabState.getUserPages (s : RabState) (got : Nat) : RabState :=
  { s with kernel := { s.kernel with
      nextArray := s.kernel.nextArray + 1
      pinned := s.kernel.pinned ++ (List.range got).map (Pin.mk s.kernel.nextArray) } }

def RabState.step (plat : Platform) (s : RabState) : Call → RabState
  | .getUserPages _ got => s.getUserPages got
  | .sliceFree req => s.sliceFree req
  | .sliceSetup req pages => s.sliceSetup req pages
  | .mappingSwitch m => s.mappingSwitch plat.nSlicesPort1 m
  | .setStripeReq m elements =>
    { s with ctrl := { s.ctrl with stripeReq := Function.update s.ctrl.stripeReq m elements } }
  | .setSocMh ena reserved =>
    { s with ctrl := { s.ctrl with socMhIsEna := ena, nSlicesReservedForHost := reserved } }
  | .setMh date acp lvl =>
    { s with ctrl := { s.ctrl with mhDate := date, mhAcp := acp, mhLvl := lvl } }
  | .report _ => s

abbrev Op (α : Type) := Prog RabState Call Err α

/-- The driver on its own state. -/
def driver (plat : Platform) : Interp RabState Call RabState := ⟨id, RabState.step plat⟩

/-- What `get_user_pages` does with a request: whether the list can be allocated, how many pages it
pins and the frames it finds. -/
structure UserPages where
  alloc : Bool
  got : Nat
  pfn : Nat → Nat

def memGetUserPages (user : UserPages) (addrStart nPages : Nat) : Op PageArray :=
  if user.alloc then do
    let s ← Prog.get
    Prog.issue (.getUserPages nPages (min user.got nPages))
    return ⟨s.kernel.nextArray, addrStart, nPages⟩
  else Prog.fail .enomem

section

variable (plat : Platform)

/-- `pulp_rab_page_ptrs_get_field` -/
def pagePtrsGetField (req : SliceReq) : Op SliceReq := do
  let s ← Prog.get
  match s.pagePtrsGetField plat.nSlicesPort1 req.rabMapping with
  | some i => return { req with pagePtrIdx := i }
  | none => Prog.fail .eio

def Port.nSlices : Port → Nat
  | .port0 => nSlicesPort0
  | .port1 => plat.nSlicesPort1

/-- `pulp_rab_slice_get` -/
def sliceGet (req : SliceReq) : Op SliceReq := do
  let s ← Prog.get
  match s.sliceGet req (req.rabPort.nSlices plat) with
  | some k => return { req with rabSlice := k }
  | none => Prog.fail .noSlice

def sliceSetup (req : SliceReq) (pages : Option PageArray) : Op Unit := do
  let s ← Prog.get
  Prog.issue (.sliceSetup req pages)
  if s.sliceSetupRefused req then Prog.fail .eio else return ()

/-- Free the selected slice and set it up anew. -/
def sliceReplace (req : SliceReq) (pages : Option PageArray) : Op Unit := do
  Prog.issue (.sliceFree req)
  sliceSetup req pages

/-- The body of the loop over the mappings in `pulp_rab_req`, for segment `i`. -/
def reqMapping (pages : Option PageArray) (i : Nat) (req : SliceReq) (j : Nat) : Op SliceReq :=
  let req := if req.rabPort = .port1 ∧ req.flagsDrv.has drvEvery then
    { req with rabMapping := j } else req
  if req.rabMapping = j then do
    let req ← if i = 0 ∧ req.rabPort = .port1 then pagePtrsGetField plat req else pure req
    let req ← sliceGet plat req
    sliceReplace req pages
    return req
  else return req

def reqMappings (pages : Option PageArray) (i : Nat) (req : SliceReq) : Op SliceReq :=
  Prog.foldl (reqMapping plat pages i) req (List.range nMappingsPort1)

/-- The fields of a request for one segment. -/
def SliceReq.forSegment (req : SliceReq) (seg : Segment) : SliceReq :=
  { req with
    addrStart := seg.addrStart
    addrEnd := seg.addrEnd
    addrOffset := seg.addrOffset
    pageIdxStart := u8 seg.pageIdxStart
    pageIdxEnd := u8 seg.pageIdxEnd }

end

/-- `L3_MEM_BASE_ADDR`, the address of the contiguous L3 -/
def l3MemBaseAddr : Nat := 0x80000000

namespace Platform

def mboxHBaseAddr : Platform → Nat
  | .zedboard | .zc706 | .miniItx => 0x4A120000
  | .juno => 0x65120000
  | .ariane => 0x5A120000
  | .te0808 => 0xA5120000
  | .zynqmp => 0xA6000000

def l2MemHBaseAddr : Platform → Nat
  | .zedboard | .zc706 | .miniItx => 0x4C000000
  | .juno => 0x67000000
  | .ariane => 0x5C000000
  | .te0808 | .zynqmp => 0xA7000000

def pulpHBaseAddr : Platform → Nat
  | .zedboard | .zc706 | .miniItx => 0x40000000
  | .juno => 0x60000000
  | .ariane => 0x50000000
  | .te0808 | .zynqmp => 0xA0000000

def l3MemSizeB : Platform → Nat
  | .zedboard => 16 * 1024 * 1024
  | _ => 128 * 1024 * 1024

def l3MemHBaseAddr : Platform → Nat
  | .zedboard => (512 - 16) * 1024 * 1024
  | .zc706 | .miniItx => (1024 - 128) * 1024 * 1024
  | .juno => 0xA00000000 - 128 * 1024 * 1024
  | .ariane => 0xC0000000 - 128 * 1024 * 1024
  | .te0808 | .zynqmp => 0x80000000 - 128 * 1024 * 1024

def l2MemSizeB : Platform → Nat
  | .zedboard => 64 * 1024
  | .zynqmp => 128 * 1024
  | _ => 256 * 1024

def nClusters : Platform → Nat
  | .juno => 4
  | _ => 1

/-- The offset of a constant remapping, known from its start. -/
def constOffset (plat : Platform) (addrStart addrOffset : Nat) : Nat :=
  if addrStart = plat.mboxHBaseAddr then 0x1B800000 + 0x1000
  else if addrStart = plat.l2MemHBaseAddr then 0x1C000000
  else if addrStart = plat.pulpHBaseAddr then 0x10000000
  else if addrStart = l3MemBaseAddr then plat.l3MemHBaseAddr
  else addrOffset

end Platform

section

variable (plat : Platform)

/-- The type of remapping. -/
def SliceReq.withType (req : SliceReq) : SliceReq :=
  { req with flagsDrv :=
      if req.rabPort = .port0 ∨ req.addrStart = l3MemBaseAddr then
        req.flagsDrv.set (drvConst ||| drvEvery)
      else req.flagsDrv.set drvEvery }

/-- `pulp_rab_req` -/
def rabReq (user : UserPages) (req : SliceReq) : Op SliceReq :=
  let req := req.withType
  if req.flagsDrv.has drvConst then
    reqMappings plat none 0 { req with addrOffset := plat.constOffset req.addrStart req.addrOffset }
  else do
    let len := memGetNumPages req.addrStart (sub32 req.addrEnd req.addrStart)
    let pages ← memGetUserPages user req.addrStart len
    let seg := memMapSg user.pfn len req.addrStart req.addrEnd
    Prog.foldl (fun req i => reqMappings plat (some pages) i (req.forSegment (seg.vec i)))
      req (List.range seg.n)

/-- The request of `pulp_rab_req_striped` for slice `j` of an element, with the first stripe. -/
def SliceReq.forStripe (req : SliceReq) (flagsHw : Flags) (first : Stripe) (j : Nat) : SliceReq :=
  let req := match first.sliceConfigs[j]? with
    | some sl =>
      { req with
        addrStart := sl.addrStart
        addrEnd := sl.addrEnd
        addrOffset := sl.addrOffset
        flagsHw := flagsHw }
    -- do not yet enable
    | none =>
      { req with addrStart := 0, addrEnd := 0, addrOffset := 0, flagsHw := flagsHw.clear hwEn }
  { req with flagsDrv := if 0 < j then drvStriped else 0#8 }

/-- The number of sets of slices an element has. -/
def ElemType.nSets : ElemType → Nat
  | .inout => 4
  | .input | .output => 2

/-- The slices of a striped element, in the order in which they are requested. -/
def reqStripedSlices (pages : PageArray) (flagsHw : Flags) (first : Stripe) (req : SliceReq)
    (n : Nat) : Op (SliceReq × List Nat) :=
  Prog.foldl (fun (req, idxs) j => do
    let req ← sliceGet plat (req.forStripe flagsHw first j)
    sliceReplace req (some pages)
    return (req, idxs ++ [req.rabSlice])) (req, []) (List.range n)

/-- The loop body of `pulp_rab_req_striped`, for one element. -/
def reqStripedElem (id : Nat) (acc : SliceReq × List StripeElem)
    (elem : StripeElemUser × UserPages) : Op (SliceReq × List StripeElem) := do
  let (req, elems) := acc
  let (e, user) := elem
  let nSlices := nSlicesPerStripe e.maxStripeSizeB
  -- write only does not work in the hardware
  let flagsHw := Flags.set (BitVec.ofNat 8 e.flags) hwRead
  let pages ← memGetUserPages user e.addrStart e.len
  let seg := e.segments user.pfn
  match stripeTable e user.pfn with
  | some (first :: rest) => do
    let req := { req with
      rabPort := .port1
      rabMapping := id % nMappingsPort1
      flagsHw := flagsHw
      -- do not overwrite any remappings, the remappings will be freed manually
      dateCur := 1
      dateExp := maxDate
      -- assign all pages to all slices
      pageIdxStart := u8 (seg.vec 0).pageIdxStart
      pageIdxEnd := u8 (seg.vec (seg.n - 1)).pageIdxEnd }
    let req ← pagePtrsGetField plat req
    let (req', idxs) ← reqStripedSlices plat pages flagsHw first req (e.type.nSets * nSlices)
    return (req', elems ++ [{
      id := e.id
      type := e.type
      pagePtrIdx := req.pagePtrIdx
      nSlicesPerStripe := nSlices
      sliceIdxs := idxs
      setOffset := 0
      -- stripe to configure at first update request
      stripeIdx := 1
      nStripes := e.nStripes
      stripes := first :: rest
      flagsHw := flagsHw }])
  | _ => Prog.fail .fault

/-- `pulp_rab_req_striped`; `stack` is what the request structure holds before. -/
def rabReqStriped (stack : SliceReq) (id : Nat) (elements : List (StripeElemUser × UserPages)) :
    Op Unit := do
  let (req, elems) ← Prog.foldl (reqStripedElem plat id) (stack, []) elements
  Prog.issue (.setStripeReq req.rabMapping elems)

end

/-- The request that frees slice `j` of a striped element; pages go with the last slice. -/
def freeStripedReq (stack : SliceReq) (m : Nat) (e : StripeElem) (j : Nat) : SliceReq :=
  { stack with
    rabPort := .port1
    rabMapping := m
    rabSlice := e.sliceIdxs.getD j 0
    flagsHw := e.flagsHw
    flagsDrv := if j + 1 < e.sliceIdxs.length then drvStriped else 0#8 }

/-- `pulp_rab_free_striped` -/
def rabFreeStriped (stack : SliceReq) (id : Nat) : Op Unit := do
  let m := u8 id % nMappingsPort1
  let s ← Prog.get
  if 0 < (s.ctrl.stripeReq m).length then
    Prog.foldl (fun _ e => Prog.foldl (fun _ j => Prog.issue (.sliceFree (freeStripedReq stack m e j)))
      () (List.range e.sliceIdxs.length)) () (s.ctrl.stripeReq m)
    Prog.issue (.setStripeReq m [])
  else return ()

section

variable (plat : Platform)

/-- Free a slice if it has expired. -/
def freeExpired (req : SliceReq) : Op Unit := do
  let s ← Prog.get
  if s.sliceCheck req then Prog.issue (.sliceFree req) else return ()

def fixedFlag (flags : Flags) (fixed : Bool) : Flags :=
  if fixed then flags.set drvFixed else flags.clear drvFixed

def freePort0 (stack : SliceReq) (date : Nat) (fixed : Bool) (k : Nat) : Op Unit :=
  freeExpired
    { stack with
      dateCur := u8 date
      rabPort := .port0
      rabMapping := 0
      rabSlice := k
      -- Port 0 can only hold constant mappings
      flagsDrv := fixedFlag drvConst fixed }

def freePort1 (stack : SliceReq) (date : Nat) (fixed : Bool) (j k : Nat) : Op Unit := do
  let s ← Prog.get
  let flags := (s.slice j k).flagsDrv
  -- unlock and release pages when freeing the last mapping
  let flags := if flags.has drvEvery ∧ j + 1 = nMappingsPort1 then flags.clear drvEvery else flags
  freeExpired
    { stack with
      dateCur := u8 date
      rabPort := .port1
      rabMapping := j
      rabSlice := k
      flagsDrv := fixedFlag flags fixed }

/-- `pulp_rab_free` -/
def rabFree (stack : SliceReq) (date : Nat) (fixed : Bool) : Op Unit := do
  Prog.foldl (fun _ k => freePort0 stack date fixed k) () (List.range nSlicesPort0)
  Prog.foldl (fun _ j => Prog.foldl (fun _ k => freePort1 stack date fixed j k) ()
    (List.range plat.nSlicesPort1)) () (List.range nMappingsPort1)

/-- The page tables of the calling process, and how many bytes a table of either level has. -/
structure PageTables where
  pgdPa : Nat
  pgdSizeB : Nat
  pmdSizeB : Nat
  /-- the tables of the second level, `none` for an entry that is not present or bad -/
  pmds : List (Option Nat)

/-- `PGD_BASE_ADDR` -/
def pgdBaseAddr : Nat := 0x20000000

/-- `pulp_rab_page_ptrs_get_field` where the caller does not look at the result. -/
def pagePtrsGetFieldUnchecked (req : SliceReq) : Op SliceReq :=
  (pagePtrsGetField plat req).handle fun _ => return req

/-- Map one table for the miss handler on the SoC. -/
def socMhMapTable (req : SliceReq) (addrOffset : Nat) : Op SliceReq := do
  let req ← sliceGet plat { req with addrOffset := addrOffset }
  sliceReplace req none
  return req

def socMhEnaStatic1stLevel (tables : PageTables) (req : SliceReq) : Op SliceReq := do
  let req ← pagePtrsGetFieldUnchecked plat req
  socMhMapTable plat
    { req with addrStart := pgdBaseAddr, addrEnd := pgdBaseAddr + (tables.pgdSizeB - 1) }
    tables.pgdPa

def socMhEnaStatic2ndLevel (tables : PageTables) (req : SliceReq) : Op SliceReq :=
  Prog.foldl (fun req i => do
    let req ← pagePtrsGetFieldUnchecked plat req
    let addrStart := pgdBaseAddr + i * tables.pmdSizeB
    let req := { req with addrStart := addrStart, addrEnd := addrStart + (tables.pmdSizeB - 1) }
    match tables.pmds.getD i none with
    | some pmd => socMhMapTable plat req pmd
    | none => return req) req (List.range tables.pmds.length)

/-- `rab_is_ready_for_soc_mh` -/
def rabIsReadyForSocMh (stack : SliceReq) : List Nat → Op Bool
  | [] => return true
  | i :: is => do
    let req := { stack with
      dateCur := maxDateMh, rabMapping := 0, rabPort := .port1, rabSlice := i }
    let s ← Prog.get
    if s.sliceCheck req then
      Prog.issue (.sliceFree req)
      rabIsReadyForSocMh stack is
    else return false

/-- The slices that remain reserved for the host when the SoC handles misses. -/
def reservedForHost (static2nd : Bool) (tables : PageTables) : Nat :=
  match plat with
  | .juno | .te0808 => 1 + if static2nd then tables.pmds.length else 1
  | .ariane => 1 + 2
  | _ => 1 + 1

/-- `pulp_rab_soc_mh_ena`; the two request structures are uninitialised on entry. -/
def rabSocMhEna (stackReq stackReady : SliceReq) (tables : PageTables) (static2nd : Bool) :
    Op Unit := do
  let s ← Prog.get
  if s.ctrl.socMhIsEna then Prog.fail .ealready
  else do
    let static2nd := static2nd && (plat = .juno || plat = .te0808)
    let req := { stackReq with
      dateCur := maxDate
      dateExp := maxDate
      pageIdxStart := 0
      pageIdxEnd := 0
      rabPort := .port1
      rabMapping := 0
      flagsDrv := drvConst
      flagsHw := hwCc ||| hwRead ||| hwEn }
    let reserved := reservedForHost plat static2nd tables
    Prog.issue (.setSocMh false reserved)
    let ready ← rabIsReadyForSocMh stackReady
      (List.range' reserved (plat.nSlicesPort1 - reserved))
    if ready then do
      Prog.issue (.setSocMh true reserved)
      let level := if static2nd then socMhEnaStatic2ndLevel plat tables req
        else socMhEnaStatic1stLevel plat tables req
      let _ ← level.handle fun e => do
        Prog.issue (.setSocMh false reserved)
        Prog.fail e
      let s ← Prog.get
      Prog.issue (.setMh 0 s.ctrl.mhAcp s.ctrl.mhLvl)
    else Prog.fail .ebusy

/-- `pulp_rab_soc_mh_dis` -/
def rabSocMhDis (stack : SliceReq) : Op Unit := do
  let s ← Prog.get
  if s.ctrl.socMhIsEna then do
    Prog.foldl (fun _ i => Prog.issue (.sliceFree
      { stack with rabPort := .port1, rabMapping := 0, rabSlice := i, flagsDrv := drvConst }))
      () (List.range' 1 (s.ctrl.nSlicesReservedForHost - 1))
    Prog.issue (.setSocMh false plat.nSlicesPort1)
  else Prog.fail .ealready

/-- `pulp_rab_mh_ena` -/
def rabMhEna (acp : Bool) (lvl : Nat) : Op Unit := Prog.issue (.setMh 1 acp lvl)

/-- An entry of the miss FIFO: the address, whether port and ID are ones the handler serves, and
what pinning the page gives (writable, frame). -/
structure Miss where
  addr : Nat
  served : Bool
  page : Option (Bool × Nat)

def missFlags (write acp : Bool) : Flags :=
  let flags := hwRead ||| hwEn
  let flags := if write then flags.set hwWrite else flags
  if acp then flags.set hwCc else flags

/-- The request for a page that missed. -/
def SliceReq.forMiss (req : SliceReq) (s : RabState) (start : Nat) (write : Bool) (pfn : Nat) :
    SliceReq :=
  { req with
    dateCur := u8 s.ctrl.mhDate
    dateExp := u8 s.ctrl.mhDate
    pageIdxStart := 0
    pageIdxEnd := 0
    rabPort := .port1
    rabMapping := s.mappingGetActive
    flagsDrv := 0#8
    addrStart := start
    addrEnd := u32 (start + pageSize)
    addrOffset := pageToPhys pfn
    flagsHw := missFlags write s.ctrl.mhAcp }

/-- The next date in miss-handling mode after slice `k` was set up. -/
def nextMhDate (c : Control) (k : Nat) : Nat :=
  if c.mhLvl = 1 ∧ k + 1 = plat.nSlicesPort1 then
    if c.mhDate + 1 > maxDateMh then 0 else c.mhDate + 1
  else c.mhDate

/-- Map a page that missed, in the way the handler does it for `rab_mh_lvl`. -/
def handlePage (req : SliceReq) (start : Nat) (write : Bool) (pfn : Nat) : Op SliceReq := do
  let pages ← memGetUserPages ⟨true, 1, fun _ => pfn⟩ start 1
  let s ← Prog.get
  let req := req.forMiss s start write pfn
  let req ← if s.ctrl.mhLvl = 2 then pure req
    else (sliceGet plat req).handle fun e =>
      -- only L1 is used, so the last slice is taken even if it is not free
      if s.ctrl.mhLvl = 1 then Prog.fail e
      else return { req with rabSlice := plat.nSlicesPort1 - 1 }
  Prog.issue (.sliceFree req)
  let req ← pagePtrsGetField plat req
  sliceSetup req (some pages)
  let s ← Prog.get
  Prog.issue (.setMh (nextMhDate plat s.ctrl req.rabSlice) s.ctrl.mhAcp s.ctrl.mhLvl)
  return req

/-- The loop of `pulp_rab_handle_miss` over the FIFO; an error ends the handling of one miss. -/
def handleMisses (req : SliceReq) (earlier : List Nat) : List Miss → Op Unit
  | [] => return ()
  | miss :: misses =>
    let start := pageBase miss.addr
    let handled := earlier.any fun addr => pageBase addr = start
    let next : Op SliceReq := match miss.page with
      | some (write, pfn) =>
        if miss.served && !handled then
          (handlePage plat req start write pfn).handle fun e => do
            Prog.issue (.report e)
            return req
        else return req
      | none => return req
    next.bind fun req => handleMisses req (earlier ++ [miss.addr]) misses

/-- `pulp_rab_handle_miss` -/
def rabHandleMiss (stack : SliceReq) (misses : List Miss) : Op Unit :=
  handleMisses plat stack [] misses

/-- Constant mappings pin no pages. -/
def noPages : UserPages := ⟨false, 0, fun _ => 0⟩

/-- Request a default mapping; later ones reuse the request structure. -/
def setupConst (req : SliceReq) (port : Port) (addrStart sizeB : Nat) : Op SliceReq :=
  rabReq plat noPages
    { req with rabPort := port, addrStart := addrStart, addrEnd := u32 (addrStart + sizeB) }

/-- `pulp_rab_setup` -/
def rabSetup (stack : SliceReq) : Op Unit := do
  let req := { stack with
    flagsDrv := drvFixed ||| drvConst
    flagsHw := hwEn ||| hwRead ||| hwWrite
    rabMapping := 0
    dateExp := maxDate
    dateCur := maxDate }
  let req ← setupConst plat req .port0 plat.l2MemHBaseAddr plat.l2MemSizeB
  let req ← setupConst plat req .port0 plat.mboxHBaseAddr 0x1000
  let req ← setupConst plat req .port0 plat.pulpHBaseAddr (plat.nClusters * 4 * 1024 * 1024)
  let req ← setupConst plat req .port1 l3MemBaseAddr plat.l3MemSizeB
  if plat = .ariane then do
    -- access to the RAB for the host
    let _ ← setupConst plat { req with addrOffset := 0x60030000 } .port1 0x1A130000 0x10000
    return ()
  else return ()

/-- The state after `pulp_rab_l1_init`, with the hardware out of reset. -/
def RabState.reset : RabState where
  l1 := {
    port0 := fun _ => ⟨false, 0, 0, 0, 0, 0, 0#8⟩
    mappings := fun _ => {
      slices := fun _ => ⟨⟨false, 0, 0, 0, 0, 0, 0#8⟩, 0, 0, 0, 0#8⟩
      pagePtrs := fun _ => none
      pagePtrRefCntrs := fun _ => 0 }
    mappingActive := 0 }
  hw := fun _ _ => ⟨0, 0, 0, 0#8⟩
  ctrl := {
    stripeReq := fun _ => []
    socMhIsEna := false
    nSlicesReservedForHost := plat.nSlicesPort1
    mhDate := 0
    mhAcp := false
    mhLvl := 0 }
  kernel := { nextArray := 0, pinned := [], put := [], freed := [] }

end

/-- What the driver is asked to do after its initialisation; `stack` is what a request structure
holds before it is filled. -/
inductive Action where
  | req (user : UserPages) (req : SliceReq)
  | reqStriped (stack : SliceReq) (id : Nat) (elements : List (StripeElemUser × UserPages))
  | freeStriped (stack : SliceReq) (id : Nat)
  | free (stack : SliceReq) (date : Nat) (fixed : Bool)
  | mappingSwitch (m : Nat)
  | socMhEna (stackReq stackReady : SliceReq) (tables : PageTables) (static2nd : Bool)
  | socMhDis (stack : SliceReq)
  | mhEna (acp : Bool) (lvl : Nat)
  | handleMiss (stack : SliceReq) (misses : List Miss)

/-- Give an error to the caller. -/
def reporting (p : Op Unit) : Op Unit := p.handle fun e => Prog.issue (.report e)

def Action.prog (plat : Platform) : Action → Op Unit
  | .req user r => reporting ((rabReq plat user r).bind fun _ => return ())
  | .reqStriped stack id elements => reporting (rabReqStriped plat stack id elements)
  | .freeStriped stack id => rabFreeStriped stack id
  | .free stack date fixed => rabFree plat stack date fixed
  | .mappingSwitch m => Prog.issue (.mappingSwitch m)
  | .socMhEna stackReq stackReady tables static2nd =>
    reporting (rabSocMhEna plat stackReq stackReady tables static2nd)
  | .socMhDis stack => reporting (rabSocMhDis plat stack)
  | .mhEna acp lvl => rabMhEna acp lvl
  | .handleMiss stack misses => rabHandleMiss plat stack misses

/-- A request structure with nothing in it. -/
def SliceReq.blank : SliceReq := ⟨0, 0, 0, 0, 0, .port0, 0, 0, 0#8, 0, 0, 0, 0#8⟩

/-- The initialisation of the driver and the actions after it, each to its end or first error. -/
def runProg (plat : Platform) (stack : SliceReq) (actions : List Action) : Op Unit :=
  Prog.session (rabSetup plat stack :: actions.map (Action.prog plat))

/-- The driver after its initialisation. -/
def afterSetup (plat : Platform) : RabState :=
  ((driver plat).exec (rabSetup plat .blank) (RabState.reset plat)).2

end Hero.Rab
