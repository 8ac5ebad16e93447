import Hero.Driver.Rab.State
import Mathlib.Tactic.SplitIfs

/-!
# Slices

Freeing and setting up a slice and switching between the mappings of Port 1, and what each of them
does to each part of the state.
-/

namespace Hero.Rab

open Driver Flags

/-- What a request puts into the shadow. -/
def SliceReq.entry (req : SliceReq) : L1EntryPort1 where
  fixed := req.flagsDrv.has drvFixed
  dateCur := req.dateCur
  dateExp := req.dateExp
  addrStart := req.addrStart
  addrEnd := req.addrEnd
  addrOffset := req.addrOffset
  flagsHw := req.flagsHw
  pagePtrIdx := req.pagePtrIdx
  pageIdxStart := req.pageIdxStart
  pageIdxEnd := req.pageIdxEnd
  flagsDrv := req.flagsDrv

def L1EntryPort0.cleared (e : L1EntryPort0) : L1EntryPort0 := ⟨e.fixed, 0, 0, 0, 0, 0, 0#8⟩

/-- A freed slice keeps its mark for fixed mappings. -/
def L1EntryPort1.cleared (e : L1EntryPort1) : L1EntryPort1 := ⟨e.toL1EntryPort0.cleared, 0, 0, 0, 0#8⟩

namespace RabState

variable (s : RabState) (req : SliceReq)

/-- Disable a slice of Port 1 in hardware if its mapping is the active one. -/
def disable (m k : Nat) : RabState :=
  if s.l1.mappingActive = m then s.setHwFlags .port1 k 0#8 else s

/-- Unlock remapped pages, in striped mode and for multi-mapping rules only with the last slice. -/
def unpin (pagesOld : PageArray) (first last : Nat) : RabState :=
  if !req.flagsDrv.has drvStriped && !req.flagsDrv.has drvEvery then
    s.putPages pagesOld first last else s

/-- Lower a reference counter, and free the list of pages if no more references exist. -/
def dropRef (pagesOld : PageArray) (idx : Nat) : RabState :=
  let m := req.rabMapping
  let n := sub32 (s.refCntr m idx) 1
  let s := s.setRefCntr m idx n
  if n = 0 then
    let s := if !req.flagsDrv.has drvEvery then s.kfree pagesOld else s
    s.setPagePtr m idx none
  else s

/-- Release the pages of a slice that has a list of pages. -/
def releasePages (pagesOld : PageArray) : RabState :=
  let old := s.slice req.rabMapping req.rabSlice
  ((s.disable req.rabMapping req.rabSlice).unpin req pagesOld old.pageIdxStart old.pageIdxEnd).dropRef
    req pagesOld old.pagePtrIdx

/-- Free a constant mapping of Port 1. -/
def releaseConst : RabState :=
  let m := req.rabMapping
  let idx := (s.slice m req.rabSlice).pagePtrIdx
  let n := s.refCntr m idx
  (s.setRefCntr m idx (if n ≠ 0 then sub32 n 1 else n)).disable m req.rabSlice

/-- Clear the flags of a slice in hardware if it has any. -/
def releaseHw : RabState :=
  if (s.hw req.rabPort req.rabSlice).flags ≠ 0#8 then
    s.setHwFlags req.rabPort req.rabSlice 0#8 else s

def clearEntry : RabState := match req.rabPort with
  | .port0 => s.setPort0 req.rabSlice (s.l1.port0 req.rabSlice).cleared
  | .port1 => s.setSlice req.rabMapping req.rabSlice (s.slice req.rabMapping req.rabSlice).cleared

/-- The list of pages of the slice a request names; Port 0 has none. -/
def pagesOld : Option PageArray := match req.rabPort with
  | .port0 => none
  | .port1 => s.pagePtr req.rabMapping (s.slice req.rabMapping req.rabSlice).pagePtrIdx

/-- `pulp_rab_slice_free` -/
def sliceFree : RabState :=
  if s.sliceIsManagedByHost req then
    let s' := match s.pagesOld req with
      | some pages => s.releasePages req pages
      | none =>
        if req.rabPort = Port.port1 ∧ req.flagsDrv.has drvConst then s.releaseConst req
        else s.releaseHw req
    s'.clearEntry req
  else s

/-- Occupy the slice in the shadow. -/
def occupy : RabState := match req.rabPort with
  | .port0 => s.setPort0 req.rabSlice req.entry.toL1EntryPort0
  | .port1 => s.setSlice req.rabMapping req.rabSlice req.entry

/-- The check that the selected reference list entry is really free. -/
def sliceSetupRefused : Bool :=
  req.rabPort = Port.port1 && s.refCntr req.rabMapping req.pagePtrIdx % 2 = 1 &&
    req.pageIdxStart = 0 && !req.flagsDrv.has drvStriped

def configureHw : RabState :=
  s.setHw req.rabPort req.rabSlice
    ⟨req.addrStart / pageSize, req.addrEnd / pageSize, req.addrOffset / pageSize, req.flagsHw⟩

/-- `pulp_rab_slice_setup`; it returns an error where `sliceSetupRefused` holds. -/
def sliceSetup (pages : Option PageArray) : RabState := match req.rabPort with
  | .port0 => (s.occupy req).configureHw req
  | .port1 =>
    let m := req.rabMapping
    let s' := s.occupy req
    if s.sliceSetupRefused req then s'
    else
      let s' := s'.setRefCntr m req.pagePtrIdx (u32 (s'.refCntr m req.pagePtrIdx + 1))
      let s' := s'.setPagePtr m req.pagePtrIdx (if req.flagsDrv.has drvConst then none else pages)
      if s'.l1.mappingActive = m then s'.configureHw req else s'

/-- The loop of `pulp_rab_mapping_switch` that disables the slices of the active mapping. -/
def deactivate (n : Nat) : RabState :=
  { s with hw := Function.update s.hw .port1 fun k =>
      if k < n ∧ (s.slice s.l1.mappingActive k).flagsHw.prot ≠ 0#8 then
        (s.hw .port1 k).withFlags 0#8 else s.hw .port1 k }

/-- The loop that enables the slices of the new mapping. -/
def activate (n m : Nat) : RabState :=
  { s with hw := Function.update s.hw .port1 fun k =>
      let e := s.slice m k
      if k < n ∧ e.flagsHw.prot.has hwEn then
        ⟨e.addrStart / pageSize, e.addrEnd / pageSize, e.addrOffset / pageSize, e.flagsHw⟩
      else s.hw .port1 k }

/-- `pulp_rab_mapping_switch` -/
def mappingSwitch (n m : Nat) : RabState :=
  let s' := (s.deactivate n).activate n m
  { s' with l1 := { s'.l1 with mappingActive := m } }


/-- The pins that freeing a slice releases. -/
def released (s : RabState) (req : SliceReq) : List Pin :=
  if s.sliceIsManagedByHost req ∧ !req.flagsDrv.has drvStriped ∧ !req.flagsDrv.has drvEvery then
    match s.pagesOld req with
    | some pages =>
      let old := s.slice req.rabMapping req.rabSlice
      (List.range' old.pageIdxStart (old.pageIdxEnd + 1 - old.pageIdxStart)).map (Pin.mk pages.id)
    | none => []
  else []

/-- Freeing the slice writes its flags register. -/
def clearsHw (s : RabState) (req : SliceReq) : Bool :=
  s.sliceIsManagedByHost req &&
    if (s.pagesOld req).isSome ∨ req.rabPort = Port.port1 ∧ req.flagsDrv.has drvConst then
      s.l1.mappingActive = req.rabMapping
    else (s.hw req.rabPort req.rabSlice).flags ≠ 0#8

/-- Freeing the slice lowers the reference counter of its list of pages. -/
def unrefs (s : RabState) (req : SliceReq) : Bool :=
  s.sliceIsManagedByHost req && req.rabPort = Port.port1 &&
    ((s.pagesOld req).isSome || req.flagsDrv.has drvConst &&
      s.refCntr req.rabMapping (s.slice req.rabMapping req.rabSlice).pagePtrIdx ≠ 0)

section

variable {s : RabState} {req : SliceReq} {pages : PageArray} {a b m k i : Nat}

@[simp] theorem disable_l1 : (s.disable m k).l1 = s.l1 := by
  unfold disable
  split <;> rfl

@[simp] theorem disable_kernel : (s.disable m k).kernel = s.kernel := by
  unfold disable
  split <;> rfl

@[simp] theorem disable_ctrl : (s.disable m k).ctrl = s.ctrl := by
  unfold disable
  split <;> rfl

theorem disable_hw (p' : Port) (k' : Nat) : (s.disable m k).hw p' k' =
    if s.l1.mappingActive = m ∧ p' = .port1 ∧ k' = k then (s.hw p' k').withFlags 0#8
    else s.hw p' k' := by
  unfold disable
  by_cases hm : s.l1.mappingActive = m
  · by_cases hk : p' = .port1 ∧ k' = k
    · obtain ⟨rfl, rfl⟩ := hk
      simp [hm]
    · simp [hm, hk]
  · simp [hm]

@[simp] theorem unpin_l1 : (s.unpin req pages a b).l1 = s.l1 := by
  unfold unpin
  split <;> rfl

@[simp] theorem unpin_hw : (s.unpin req pages a b).hw = s.hw := by
  unfold unpin
  split <;> rfl

@[simp] theorem unpin_ctrl : (s.unpin req pages a b).ctrl = s.ctrl := by
  unfold unpin
  split <;> rfl

@[simp] theorem dropRef_hw : (s.dropRef req pages i).hw = s.hw := by
  simp only [dropRef]
  split_ifs <;> rfl

@[simp] theorem dropRef_ctrl : (s.dropRef req pages i).ctrl = s.ctrl := by
  simp only [dropRef]
  split_ifs <;> rfl

@[simp] theorem dropRef_active : (s.dropRef req pages i).l1.mappingActive = s.l1.mappingActive := by
  simp only [dropRef]
  split_ifs <;> rfl

@[simp] theorem dropRef_port0 : (s.dropRef req pages i).l1.port0 = s.l1.port0 := by
  simp only [dropRef]
  split_ifs <;> rfl

@[simp] theorem disable_slice (m' k' : Nat) : (s.disable m k).slice m' k' = s.slice m' k' := by
  simp [slice]

@[simp] theorem disable_pagePtr (m' i' : Nat) : (s.disable m k).pagePtr m' i' = s.pagePtr m' i' := by
  simp [pagePtr]

@[simp] theorem disable_refCntr (m' i' : Nat) : (s.disable m k).refCntr m' i' = s.refCntr m' i' := by
  simp [refCntr]

@[simp] theorem unpin_slice (m' k' : Nat) :
    (s.unpin req pages a b).slice m' k' = s.slice m' k' := by
  simp [slice]

@[simp] theorem unpin_pagePtr (m' i' : Nat) :
    (s.unpin req pages a b).pagePtr m' i' = s.pagePtr m' i' := by
  simp [pagePtr]

@[simp] theorem unpin_refCntr (m' i' : Nat) :
    (s.unpin req pages a b).refCntr m' i' = s.refCntr m' i' := by
  simp [refCntr]

@[simp] theorem kfree_slice (m' k' : Nat) : (s.kfree pages).slice m' k' = s.slice m' k' := rfl
@[simp] theorem kfree_pagePtr (m' i' : Nat) : (s.kfree pages).pagePtr m' i' = s.pagePtr m' i' := rfl
@[simp] theorem kfree_refCntr (m' i' : Nat) : (s.kfree pages).refCntr m' i' = s.refCntr m' i' := rfl

@[simp] theorem dropRef_slice (m' k' : Nat) :
    (s.dropRef req pages i).slice m' k' = s.slice m' k' := by
  simp only [dropRef]
  split_ifs <;> simp

theorem dropRef_pagePtr (m' i' : Nat) : (s.dropRef req pages i).pagePtr m' i' =
    if m' = req.rabMapping ∧ i' = i ∧ sub32 (s.refCntr req.rabMapping i) 1 = 0 then none
    else s.pagePtr m' i' := by
  simp only [dropRef]
  by_cases hn : sub32 (s.refCntr req.rabMapping i) 1 = 0
  · rw [if_pos hn]
    split_ifs <;> simp_all
  · rw [if_neg hn, setRefCntr_pagePtr, if_neg fun h => hn h.2.2]

theorem dropRef_refCntr (m' i' : Nat) : (s.dropRef req pages i).refCntr m' i' =
    if m' = req.rabMapping ∧ i' = i then sub32 (s.refCntr m' i') 1 else s.refCntr m' i' := by
  have hset : (s.setRefCntr req.rabMapping i (sub32 (s.refCntr req.rabMapping i) 1)).refCntr m' i' =
      if m' = req.rabMapping ∧ i' = i then sub32 (s.refCntr m' i') 1 else s.refCntr m' i' := by
    rw [setRefCntr_refCntr]
    by_cases h : m' = req.rabMapping ∧ i' = i
    · rw [if_pos h, if_pos h, h.1, h.2]
    · rw [if_neg h, if_neg h]
  rw [← hset]
  simp only [dropRef]
  split_ifs <;> simp

theorem dropRef_put : (s.dropRef req pages i).kernel.put = s.kernel.put ∧
    (s.dropRef req pages i).kernel.pinned = s.kernel.pinned ∧
    (s.dropRef req pages i).kernel.nextArray = s.kernel.nextArray := by
  simp only [dropRef]
  split_ifs <;> exact ⟨rfl, rfl, rfl⟩

theorem clearEntry_slice (m' k' : Nat) : (s.clearEntry req).slice m' k' =
    if req.rabPort = .port1 ∧ m' = req.rabMapping ∧ k' = req.rabSlice then (s.slice m' k').cleared
    else s.slice m' k' := by
  unfold clearEntry
  cases hp : req.rabPort with
  | port0 => simp
  | port1 =>
    by_cases h : m' = req.rabMapping ∧ k' = req.rabSlice
    · simp [h.1, h.2]
    · simp [h]

/-- Clearing a shadow entry touches nothing but slices. -/
theorem clearEntry_frame : (s.clearEntry req).hw = s.hw ∧ (s.clearEntry req).kernel = s.kernel ∧
    (s.clearEntry req).ctrl = s.ctrl ∧
    (s.clearEntry req).l1.mappingActive = s.l1.mappingActive ∧
    (∀ m i, (s.clearEntry req).pagePtr m i = s.pagePtr m i) ∧
    ∀ m i, (s.clearEntry req).refCntr m i = s.refCntr m i := by
  unfold clearEntry
  cases req.rabPort with
  | port0 => exact ⟨rfl, rfl, rfl, rfl, fun _ _ => rfl, fun _ _ => rfl⟩
  | port1 => exact ⟨rfl, rfl, rfl, rfl, fun _ _ => by simp, fun _ _ => by simp⟩

/-- Freeing a slice that the host does not manage does nothing. -/
theorem sliceFree_unmanaged (h : s.sliceIsManagedByHost req = false) : s.sliceFree req = s := by
  simp [sliceFree, h]

theorem sliceFree_port0 (hp : req.rabPort = .port0) :
    s.sliceFree req = (s.releaseHw req).clearEntry req := by
  have hm : s.sliceIsManagedByHost req = true := by simp [sliceIsManagedByHost, hp]
  simp [sliceFree, hm, pagesOld, hp]

/-- The three ways in which a slice of Port 1 is freed. -/
theorem sliceFree_port1 (hp : req.rabPort = .port1) (hm : s.sliceIsManagedByHost req = true) :
    s.sliceFree req = (match s.pagesOld req with
      | some pages => s.releasePages req pages
      | none => if req.flagsDrv.has drvConst then s.releaseConst req else s.releaseHw req).clearEntry
        req := by
  simp [sliceFree, hm, hp]

end

section

variable (s : RabState) (req : SliceReq)

/-- The part of freeing a slice of Port 1 before its shadow entry is cleared. -/
private def release : RabState := match s.pagesOld req with
  | some pages => s.releasePages req pages
  | none => if req.flagsDrv.has drvConst then s.releaseConst req else s.releaseHw req

private theorem releaseHw_frame : (s.releaseHw req).l1 = s.l1 ∧
    (s.releaseHw req).kernel = s.kernel ∧ (s.releaseHw req).ctrl = s.ctrl := by
  unfold releaseHw
  split <;> exact ⟨rfl, rfl, rfl⟩

private theorem release_frame : (∀ m k, (s.release req).slice m k = s.slice m k) ∧
    (s.release req).l1.mappingActive = s.l1.mappingActive ∧ (s.release req).ctrl = s.ctrl := by
  have hhw := s.releaseHw_frame req
  unfold release
  cases s.pagesOld req with
  | some pages => exact ⟨fun m k => by simp [releasePages], by simp [releasePages],
      by simp [releasePages]⟩
  | none =>
    simp only
    split
    · exact ⟨fun m k => by simp [releaseConst], by simp [releaseConst], by simp [releaseConst]⟩
    · exact ⟨fun m k => by simp [slice, hhw], by simp [hhw], hhw.2.2⟩

private theorem release_kernel : (s.release req).kernel.pinned = s.kernel.pinned ∧
    (s.release req).kernel.nextArray = s.kernel.nextArray := by
  have hhw := s.releaseHw_frame req
  have hunpin : ∀ (u : RabState) pages a b, (u.unpin req pages a b).kernel.pinned = u.kernel.pinned ∧
      (u.unpin req pages a b).kernel.nextArray = u.kernel.nextArray := by
    intro u pages a b
    unfold unpin
    split <;> exact ⟨rfl, rfl⟩
  unfold release
  cases s.pagesOld req with
  | some pages => simp [releasePages, dropRef_put, hunpin]
  | none =>
    simp only
    split
    · simp [releaseConst]
    · simp [hhw]

theorem sliceFree_slice (m k : Nat) : (s.sliceFree req).slice m k =
    if s.sliceIsManagedByHost req ∧ req.rabPort = .port1 ∧ m = req.rabMapping ∧ k = req.rabSlice then
      (s.slice m k).cleared else s.slice m k := by
  cases hm : s.sliceIsManagedByHost req with
  | false => simp [sliceFree_unmanaged hm]
  | true =>
    cases hp : req.rabPort with
    | port0 =>
      rw [sliceFree_port0 hp, clearEntry_slice]
      simp [hp, slice, releaseHw_frame]
    | port1 =>
      rw [sliceFree_port1 hp hm, clearEntry_slice]
      change (if _ then ((s.release req).slice m k).cleared else (s.release req).slice m k) = _
      rw [(s.release_frame req).1]
      simp [hp]

theorem sliceFree_frame : (s.sliceFree req).l1.mappingActive = s.l1.mappingActive ∧
    (s.sliceFree req).ctrl = s.ctrl ∧ (s.sliceFree req).kernel.pinned = s.kernel.pinned ∧
    (s.sliceFree req).kernel.nextArray = s.kernel.nextArray := by
  cases hm : s.sliceIsManagedByHost req with
  | false =>
    rw [sliceFree_unmanaged hm]
    exact ⟨rfl, rfl, rfl, rfl⟩
  | true =>
    cases hp : req.rabPort with
    | port0 =>
      rw [sliceFree_port0 hp]
      simp [clearEntry_frame, releaseHw_frame]
    | port1 =>
      rw [sliceFree_port1 hp hm]
      change ((s.release req).clearEntry req).l1.mappingActive = _ ∧
        ((s.release req).clearEntry req).ctrl = _ ∧
        ((s.release req).clearEntry req).kernel.pinned = _ ∧
        ((s.release req).clearEntry req).kernel.nextArray = _
      have hframe := s.release_frame req
      have hhw := s.releaseHw_frame req
      refine ⟨?_, ?_, ?_, ?_⟩
      · rw [clearEntry_frame.2.2.2.1, hframe.2.1]
      · rw [clearEntry_frame.2.2.1, hframe.2.2]
      · rw [clearEntry_frame.2.1, (s.release_kernel req).1]
      · rw [clearEntry_frame.2.1, (s.release_kernel req).2]

theorem sliceFree_hw (p : Port) (k : Nat) : (s.sliceFree req).hw p k =
    if s.clearsHw req ∧ p = req.rabPort ∧ k = req.rabSlice then (s.hw p k).withFlags 0#8
    else s.hw p k := by
  have hreleaseHw : (s.releaseHw req).hw p k =
      if (s.hw req.rabPort req.rabSlice).flags ≠ 0#8 ∧ p = req.rabPort ∧ k = req.rabSlice then
        (s.hw p k).withFlags 0#8 else s.hw p k := by
    unfold releaseHw
    by_cases hf : (s.hw req.rabPort req.rabSlice).flags = 0#8
    · simp [hf]
    · by_cases hk : p = req.rabPort ∧ k = req.rabSlice
      · obtain ⟨rfl, rfl⟩ := hk
        simp [hf]
      · simp [hf, hk]
  cases hm : s.sliceIsManagedByHost req with
  | false => simp [sliceFree_unmanaged hm, clearsHw, hm]
  | true =>
    cases hp : req.rabPort with
    | port0 =>
      rw [sliceFree_port0 hp, clearEntry_frame.1, hreleaseHw]
      simp [clearsHw, hm, pagesOld, hp]
    | port1 =>
      rw [sliceFree_port1 hp hm, clearEntry_frame.1]
      cases hpages : s.pagesOld req with
      | some pages => simp [clearsHw, hm, hp, hpages, releasePages, disable_hw]
      | none =>
        cases hc : req.flagsDrv.has drvConst with
        | true =>
          by_cases ha : s.l1.mappingActive = req.rabMapping <;>
            simp [clearsHw, hm, hp, hpages, hc, releaseConst, disable_hw, ha]
        | false =>
          simp only [Bool.false_eq_true, if_false]
          rw [hreleaseHw]
          simp [clearsHw, hm, hp, hpages, hc]

theorem sliceFree_refCntr (m i : Nat) : (s.sliceFree req).refCntr m i =
    if s.unrefs req ∧ m = req.rabMapping ∧
        i = (s.slice req.rabMapping req.rabSlice).pagePtrIdx then sub32 (s.refCntr m i) 1
    else s.refCntr m i := by
  have hhw : (s.releaseHw req).refCntr m i = s.refCntr m i := by
    simp [refCntr, s.releaseHw_frame req]
  cases hm : s.sliceIsManagedByHost req with
  | false => simp [sliceFree_unmanaged hm, unrefs, hm]
  | true =>
    cases hp : req.rabPort with
    | port0 => simp [sliceFree_port0 hp, clearEntry_frame, hhw, unrefs, hp]
    | port1 =>
      rw [sliceFree_port1 hp hm, clearEntry_frame.2.2.2.2.2]
      cases hpages : s.pagesOld req with
      | some pages => simp [unrefs, hm, hp, hpages, releasePages, dropRef_refCntr]
      | none =>
        cases hc : req.flagsDrv.has drvConst with
        | true =>
          by_cases hi : m = req.rabMapping ∧ i = (s.slice req.rabMapping req.rabSlice).pagePtrIdx
          · obtain ⟨rfl, rfl⟩ := hi
            simp [unrefs, hm, hp, hpages, hc, releaseConst]
          · simp [unrefs, hi, releaseConst]
        | false => simp [unrefs, hm, hpages, hc, hhw]

theorem sliceFree_pagePtr (m i : Nat) : (s.sliceFree req).pagePtr m i =
    if s.sliceIsManagedByHost req ∧ m = req.rabMapping ∧ (s.pagesOld req).isSome ∧
        i = (s.slice req.rabMapping req.rabSlice).pagePtrIdx ∧ sub32 (s.refCntr m i) 1 = 0 then none
    else s.pagePtr m i := by
  have hhw : (s.releaseHw req).pagePtr m i = s.pagePtr m i := by
    simp [pagePtr, s.releaseHw_frame req]
  cases hm : s.sliceIsManagedByHost req with
  | false => simp [sliceFree_unmanaged hm]
  | true =>
    cases hp : req.rabPort with
    | port0 => simp [sliceFree_port0 hp, clearEntry_frame, hhw, pagesOld, hp]
    | port1 =>
      rw [sliceFree_port1 hp hm, clearEntry_frame.2.2.2.2.1]
      cases hpages : s.pagesOld req with
      | some pages =>
        by_cases hi : m = req.rabMapping ∧ i = (s.slice req.rabMapping req.rabSlice).pagePtrIdx
        · obtain ⟨rfl, rfl⟩ := hi
          simp [releasePages, dropRef_pagePtr]
        · have hno : ∀ q : Prop, ¬ (m = req.rabMapping ∧
              i = (s.slice req.rabMapping req.rabSlice).pagePtrIdx ∧ q) :=
            fun q h => hi ⟨h.1, h.2.1⟩
          simp [releasePages, dropRef_pagePtr, hno]
      | none =>
        cases hc : req.flagsDrv.has drvConst with
        | true => simp [releaseConst]
        | false => simp [hhw]

theorem sliceFree_put : (s.sliceFree req).kernel.put = s.kernel.put ++ s.released req := by
  cases hm : s.sliceIsManagedByHost req with
  | false => simp [sliceFree_unmanaged hm, released, hm]
  | true =>
    cases hp : req.rabPort with
    | port0 => simp [sliceFree_port0 hp, clearEntry_frame, releaseHw_frame, released, pagesOld, hp]
    | port1 =>
      rw [sliceFree_port1 hp hm, clearEntry_frame.2.1]
      cases hpages : s.pagesOld req with
      | some pages =>
        simp only [releasePages, dropRef_put, unpin]
        split
        · next h => simp_all [released, putPages]
        · next h => simp_all [released]
      | none =>
        cases hc : req.flagsDrv.has drvConst with
        | true => simp [releaseConst, released, hpages]
        | false => simp [releaseHw_frame, released, hpages]

theorem sliceFree_entry0 (k : Nat) : (s.sliceFree req).l1.port0 k =
    if req.rabPort = .port0 ∧ k = req.rabSlice then (s.l1.port0 k).cleared else s.l1.port0 k := by
  have hhw := s.releaseHw_frame req
  cases hp : req.rabPort with
  | port0 =>
    rw [sliceFree_port0 hp]
    by_cases hk : k = req.rabSlice
    · simp [clearEntry, setPort0, hp, hk, hhw]
    · simp [clearEntry, setPort0, hp, hk, hhw]
  | port1 =>
    cases hm : s.sliceIsManagedByHost req with
    | false => simp [sliceFree_unmanaged hm]
    | true =>
      rw [sliceFree_port1 hp hm]
      simp only [clearEntry, hp, setSlice_port0]
      cases s.pagesOld req with
      | some pages => simp [releasePages]
      | none =>
        simp only
        split
        · simp [releaseConst]
        · simp [hhw]

theorem sliceSetup_entry0 (pages : Option PageArray) (k : Nat) : (s.sliceSetup req pages).l1.port0 k =
    if req.rabPort = .port0 ∧ k = req.rabSlice then req.entry.toL1EntryPort0 else s.l1.port0 k := by
  cases hp : req.rabPort with
  | port0 =>
    by_cases hk : k = req.rabSlice
    · simp [sliceSetup, occupy, configureHw, setPort0, hp, hk]
    · simp [sliceSetup, occupy, configureHw, setPort0, hp, hk]
  | port1 =>
    rw [if_neg fun hno => Port.noConfusion hno.1]
    simp only [sliceSetup, hp]
    split_ifs <;> simp [occupy, configureHw, hp]

theorem occupy_slice (m k : Nat) : (s.occupy req).slice m k =
    if req.rabPort = .port1 ∧ m = req.rabMapping ∧ k = req.rabSlice then req.entry
    else s.slice m k := by
  unfold occupy
  cases hp : req.rabPort with
  | port0 => simp
  | port1 => simp

/-- Occupying a slice touches nothing but slices. -/
theorem occupy_frame : (s.occupy req).hw = s.hw ∧ (s.occupy req).kernel = s.kernel ∧
    (s.occupy req).ctrl = s.ctrl ∧ (s.occupy req).l1.mappingActive = s.l1.mappingActive ∧
    (∀ m i, (s.occupy req).pagePtr m i = s.pagePtr m i) ∧
    ∀ m i, (s.occupy req).refCntr m i = s.refCntr m i := by
  unfold occupy
  cases req.rabPort with
  | port0 => exact ⟨rfl, rfl, rfl, rfl, fun _ _ => rfl, fun _ _ => rfl⟩
  | port1 => exact ⟨rfl, rfl, rfl, rfl, fun _ _ => by simp, fun _ _ => by simp⟩

variable (pages : Option PageArray)

/-- Setting up the slice takes a reference to its list of pages. -/
def takesRef (s : RabState) (req : SliceReq) : Bool :=
  req.rabPort = Port.port1 && !s.sliceSetupRefused req

/-- Setting up the slice writes its hardware registers. -/
def configures (s : RabState) (req : SliceReq) : Bool :=
  req.rabPort = Port.port0 || s.takesRef req && s.l1.mappingActive = req.rabMapping

theorem sliceSetup_port0 (hp : req.rabPort = .port0) :
    s.sliceSetup req pages = (s.occupy req).configureHw req := by
  simp [sliceSetup, hp]

theorem sliceSetup_refused (hp : req.rabPort = .port1) (hr : s.sliceSetupRefused req = true) :
    s.sliceSetup req pages = s.occupy req := by
  simp [sliceSetup, hp, hr]

theorem sliceSetup_slice (m k : Nat) : (s.sliceSetup req pages).slice m k =
    if req.rabPort = .port1 ∧ m = req.rabMapping ∧ k = req.rabSlice then req.entry
    else s.slice m k := by
  rw [← occupy_slice]
  cases hp : req.rabPort with
  | port0 => simp [sliceSetup, hp, configureHw]
  | port1 =>
    cases hr : s.sliceSetupRefused req with
    | true => rw [sliceSetup_refused s req pages hp hr]
    | false =>
      simp only [sliceSetup, hp, hr, Bool.false_eq_true, if_false]
      split_ifs <;> simp [configureHw]

theorem sliceSetup_refCntr (m i : Nat) : (s.sliceSetup req pages).refCntr m i =
    if s.takesRef req ∧ m = req.rabMapping ∧ i = req.pagePtrIdx then u32 (s.refCntr m i + 1)
    else s.refCntr m i := by
  cases hp : req.rabPort with
  | port0 => simp [sliceSetup, hp, configureHw, takesRef, occupy_frame]
  | port1 =>
    cases hr : s.sliceSetupRefused req with
    | true => simp [sliceSetup_refused s req pages hp hr, takesRef, hr, occupy_frame]
    | false =>
      simp only [sliceSetup, hp, hr, Bool.false_eq_true, if_false]
      have hset : ((s.occupy req).setRefCntr req.rabMapping req.pagePtrIdx
          (u32 ((s.occupy req).refCntr req.rabMapping req.pagePtrIdx + 1))).refCntr m i =
          if s.takesRef req ∧ m = req.rabMapping ∧ i = req.pagePtrIdx then u32 (s.refCntr m i + 1)
          else s.refCntr m i := by
        by_cases hi : m = req.rabMapping ∧ i = req.pagePtrIdx
        · simp [takesRef, hp, hr, hi.1, hi.2, occupy_frame]
        · simp [hi, occupy_frame]
      rw [← hset]
      split_ifs <;> simp [configureHw]

theorem sliceSetup_pagePtr (m i : Nat) : (s.sliceSetup req pages).pagePtr m i =
    if s.takesRef req ∧ m = req.rabMapping ∧ i = req.pagePtrIdx then
      if req.flagsDrv.has drvConst then none else pages
    else s.pagePtr m i := by
  cases hp : req.rabPort with
  | port0 => simp [sliceSetup, hp, configureHw, takesRef, occupy_frame]
  | port1 =>
    cases hr : s.sliceSetupRefused req with
    | true => simp [sliceSetup_refused s req pages hp hr, takesRef, hr, occupy_frame]
    | false =>
      simp only [sliceSetup, hp, hr, Bool.false_eq_true, if_false]
      split_ifs <;> simp_all [configureHw, takesRef, occupy_frame]

theorem sliceSetup_hw (p : Port) (k : Nat) : (s.sliceSetup req pages).hw p k =
    if s.configures req ∧ p = req.rabPort ∧ k = req.rabSlice then
      ⟨req.addrStart / pageSize, req.addrEnd / pageSize, req.addrOffset / pageSize, req.flagsHw⟩
    else s.hw p k := by
  cases hp : req.rabPort with
  | port0 => simp [sliceSetup, hp, configureHw, configures, occupy_frame]
  | port1 =>
    cases hr : s.sliceSetupRefused req with
    | true => simp [sliceSetup_refused s req pages hp hr, configures, takesRef, hp, hr, occupy_frame]
    | false =>
      simp only [sliceSetup, hp, hr, Bool.false_eq_true, if_false]
      by_cases ha : s.l1.mappingActive = req.rabMapping
      · rw [if_pos (by simp [occupy_frame, ha])]
        simp [configureHw, configures, takesRef, hp, hr, ha, occupy_frame]
      · rw [if_neg (by simp [occupy_frame, ha])]
        simp [configures, takesRef, hp, ha, occupy_frame]

theorem sliceSetup_frame :
    (s.sliceSetup req pages).l1.mappingActive = s.l1.mappingActive ∧
    (s.sliceSetup req pages).ctrl = s.ctrl ∧ (s.sliceSetup req pages).kernel = s.kernel := by
  have hframe := s.occupy_frame req
  unfold sliceSetup
  cases hp : req.rabPort with
  | port0 => simp [configureHw, hframe]
  | port1 =>
    simp only
    split_ifs <;> simp [configureHw, hframe]

end

section

variable (s : RabState) (n m : Nat)

/-- The hardware after a switch: enabled slices of the new mapping are programmed, slices of the old
mapping with any permission are disabled. -/
theorem mappingSwitch_hw (k : Nat) : (s.mappingSwitch n m).hw .port1 k =
    if k < n ∧ (s.slice m k).flagsHw.prot.has hwEn then
      ⟨(s.slice m k).addrStart / pageSize, (s.slice m k).addrEnd / pageSize,
        (s.slice m k).addrOffset / pageSize, (s.slice m k).flagsHw⟩
    else if k < n ∧ (s.slice s.l1.mappingActive k).flagsHw.prot ≠ 0#8 then
      (s.hw .port1 k).withFlags 0#8
    else s.hw .port1 k := by
  simp only [mappingSwitch, activate, deactivate, Function.update_self]
  rfl

theorem mappingSwitch_frame : (s.mappingSwitch n m).l1.mappingActive = m ∧
    (s.mappingSwitch n m).ctrl = s.ctrl ∧ (s.mappingSwitch n m).kernel = s.kernel ∧
    ∀ m' k, (s.mappingSwitch n m).slice m' k = s.slice m' k :=
  ⟨rfl, rfl, rfl, fun _ _ => rfl⟩

end

end RabState

end Hero.Rab
