import Hero.Driver.Rab.Failure
import Hero.Driver.Rab.SocMissHandler
import Hero.Framework.BitField

/-!
# Requests and uninitialised memory

The request structures are on the kernel stack, and no caller assigns all of their fields.  Whether
what was on the stack before shows in the RAB depends on the slices that have expired.
-/

namespace Hero.Rab

open Driver Flags Interp BitField

/-- The words user space passes with `PULP_IOCTL_RAB_REQ`. -/
structure RequestWords where
  config : BitVec 32
  addrStart : BitVec 32
  sizeB : BitVec 32
  deriving DecidableEq, Repr

namespace RequestWords

variable (w : RequestWords)

/-- `RAB_GET_FLAGS_HW` -/
def flagsHw : Flags := (bfGet w.config 0 (3 + 1)).setWidth 8

/-- `RAB_GET_PORT` -/
def rabPort : Port := if bfGet w.config (3 + 1) 1 = 0#32 then .port0 else .port1

/-- `RAB_GET_DATE_EXP` -/
def dateExp : Nat := (bfGet w.config (3 + 1 + 1 + 2) 8).toNat

/-- `RAB_GET_DATE_CUR` -/
def dateCur : Nat := (bfGet w.config (3 + 1 + 8 + 1 + 2) 8).toNat

/-- The case of `pulp_ioctl` for new slices: what it assigns of a request structure that holds
`stack`. -/
def request (stack : SliceReq) : SliceReq :=
  { stack with
    flagsHw := w.flagsHw
    rabPort := w.rabPort
    dateExp := w.dateExp
    dateCur := w.dateCur
    rabMapping := 0
    addrStart := w.addrStart.toNat
    addrEnd := (w.addrStart + w.sizeB).toNat }

end RequestWords

/-- What user space and the accelerator see of a call: the value returned, the shadow and the
hardware. -/
def seen {α : Type} (r : Except Err α × RabState) : Except Err Unit × L1Tlb × (Port → Nat → HwSlice) :=
  (r.1.map fun _ => (), r.2.l1, r.2.hw)

section

variable (plat : Platform) (s : RabState) (user : UserPages) (w : RequestWords)

/-- The request comes out the same whatever was on the stack. -/
def RequestDetermined : Prop := ∀ stack stack' : SliceReq,
  seen (reqOutcome plat s user (w.request stack)) = seen (reqOutcome plat s user (w.request stack'))

/-- The offset of a constant remapping is known from its start. -/
def KnownStart : Prop := w.addrStart.toNat ∈
  [plat.mboxHBaseAddr, plat.l2MemHBaseAddr, plat.pulpHBaseAddr, l3MemBaseAddr]

/-- The shadow of Port 0 for a request. -/
def RequestWords.entry0 (fixed : Bool) : L1EntryPort0 :=
  ⟨fixed, w.dateCur, w.dateExp, w.addrStart.toNat, (w.addrStart + w.sizeB).toNat,
    plat.constOffset w.addrStart.toNat 0, w.flagsHw⟩

def RequestWords.hwSlice : HwSlice :=
  ⟨w.addrStart.toNat / pageSize, (w.addrStart + w.sizeB).toNat / pageSize,
    plat.constOffset w.addrStart.toNat 0 / pageSize, w.flagsHw⟩

/-- The first expired slice of Port 0 and the first one that is not fixed differ, and both hold what is
requested already. -/
def HoldsTwice : Prop := KnownStart plat w ∧ ∃ k k', k < k' ∧ k' < nSlicesPort0 ∧
  (∀ j < k, ¬ Expired w.dateCur (s.l1.port0 j).dateExp) ∧
  (∀ j < k', Expired w.dateCur (s.l1.port0 j).dateExp → (s.l1.port0 j).fixed = true) ∧
  Expired w.dateCur w.dateExp ∧
  s.l1.port0 k = w.entry0 plat true ∧ s.l1.port0 k' = w.entry0 plat false ∧
  s.hw .port0 k = w.hwSlice plat ∧ s.hw .port0 k' = w.hwSlice plat

/-- There is nothing to take for the request: no expired slice, or no free list of pages. -/
def NothingToTake : Prop := match w.rabPort with
  | .port0 => ∀ k < nSlicesPort0, ¬ Expired w.dateCur (s.l1.port0 k).dateExp
  | .port1 => (∀ i < plat.nSlicesPort1, s.refCntr 0 i ≠ 0) ∨ ∀ k < plat.nSlicesPort1,
      (s.ctrl.socMhIsEna = true → k < s.ctrl.nSlicesReservedForHost) →
        ¬ Expired w.dateCur (s.slice 0 k).dateExp

/-- What was on the stack does not matter to the request. -/
def StackUnused : Prop := match w.rabPort with
  | .port0 => NothingToTake plat s w ∨ HoldsTwice plat s w
  | .port1 => NothingToTake plat s w ∧ (w.addrStart.toNat = l3MemBaseAddr ∨ user.alloc = true)

end

section

variable {plat : Platform} {s : RabState} {req : SliceReq} {pages : Option PageArray}

theorem expired_entry (h : s.sliceCheck req = true) : Expired req.dateCur (s.entry req).dateExp := by
  simp only [RabState.sliceCheck, Bool.and_eq_true, Bool.or_eq_true, decide_eq_true_eq] at h
  exact h.1.imp id fun hzero => ⟨hzero.1, hzero.2.symm⟩

/-- Whether a slice is found for any flags. -/
theorem sliceGet_none_of_not_expired {n : Nat} (h : ∀ k < n,
    s.sliceIsManagedByHost { req with rabSlice := k } = true →
      ¬ Expired req.dateCur (s.entry { req with rabSlice := k }).dateExp) : s.sliceGet req n = none := by
  cases hget : s.sliceGet req n with
  | none => rfl
  | some k =>
    obtain ⟨hk, hcheck, hmanaged⟩ := RabState.sliceGet_spec hget
    exact absurd (expired_entry hcheck) (h k hk hmanaged)

/-- The request for a mapping, a list of pages and a slice. -/
def SliceReq.place (req : SliceReq) (m i k : Nat) : SliceReq :=
  { req with rabMapping := m, pagePtrIdx := i, rabSlice := k }

/-- What replacing a slice returns and leaves. -/
def placeOutcome (s : RabState) (pages : Option PageArray) (req : SliceReq) :
    Except Err SliceReq × RabState :=
  (if (s.sliceFree req).sliceSetupRefused req then .error .eio else .ok req,
    (s.sliceFree req).sliceSetup req pages)

/-- What a request returns and leaves for mapping `j` of Port 1. -/
def takeOutcome (plat : Platform) (s : RabState) (pages : Option PageArray) (req : SliceReq) (j : Nat) :
    Except Err SliceReq × RabState :=
  match s.pagePtrsGetField plat.nSlicesPort1 j with
  | none => (.error .eio, s)
  | some i =>
    match s.sliceGet (req.place j i req.rabSlice) plat.nSlicesPort1 with
    | none => (.error .noSlice, s)
    | some k => placeOutcome s pages (req.place j i k)

theorem placeOutcome_slice (s : RabState) (req : SliceReq) (hport : req.rabPort = .port1) (m k : Nat) :
    (placeOutcome s pages req).2.slice m k =
      if m = req.rabMapping ∧ k = req.rabSlice then req.entry else s.slice m k :=
  replace_slice hport m k

theorem exec_take (plat : Platform) (s : RabState) (req : SliceReq) (pages : Option PageArray) (n : Nat)
    (hn : req.rabPort.nSlices plat = n) :
    (driver plat).exec ((sliceGet plat req).bind fun req =>
      (sliceReplace req pages).bind fun _ => Prog.ret req) s =
      match s.sliceGet req n with
      | none => (.error .noSlice, s)
      | some k => placeOutcome s pages { req with rabSlice := k } := by
  have hplace : ∀ req' : SliceReq, (driver plat).exec ((sliceReplace req' pages).bind fun _ =>
      Prog.ret req') s = placeOutcome s pages req' := by
    intro req'
    rw [exec_bind, exec_sliceReplace, placeOutcome]
    cases (s.sliceFree req').sliceSetupRefused req' <;> rfl
  have hview : (driver plat).view s = s := rfl
  rw [exec_bind, exec_sliceGet, hn, hview]
  cases s.sliceGet req n with
  | none => rfl
  | some k =>
    exact hplace { req with rabSlice := k }

theorem exec_reqMapping (hport : req.rabPort = .port1) (hevery : req.flagsDrv.has drvEvery = true)
    (j : Nat) : (driver plat).exec (reqMapping plat pages 0 req j) s = takeOutcome plat s pages req j := by
  rw [reqMapping_first hport hevery, takeOutcome]
  have hview : (driver plat).view s = s := rfl
  rw [exec_bind, exec_pagePtrsGetField, hview]
  cases s.pagePtrsGetField plat.nSlicesPort1 j with
  | none => rfl
  | some i =>
    apply exec_take
    change Port.nSlices plat req.rabPort = _
    rw [hport]
    rfl

/-- A request for the other mapping leaves the slices of the first. -/
theorem takeOutcome_slice (req : SliceReq) (k : Nat) (hport : req.rabPort = .port1) :
    (takeOutcome plat s pages req 1).2.slice 0 k = s.slice 0 k := by
  rw [takeOutcome]
  cases s.pagePtrsGetField plat.nSlicesPort1 1 with
  | none => rfl
  | some i =>
    simp only
    split
    · rfl
    · next k' _ =>
      exact (placeOutcome_slice s (req.place 1 i k') hport 0 k).trans
        (if_neg fun hno => Nat.zero_ne_one hno.1)

theorem exec_bind_ret {α : Type} (p : Op α) :
    (driver plat).exec (p.bind Prog.ret) s = (driver plat).exec p s := by
  rw [exec_bind]
  cases (driver plat).exec p s with
  | mk r s' => cases r <;> rfl

theorem reqMappings_eq (req : SliceReq) (i : Nat) : reqMappings plat pages i req =
    (reqMapping plat pages i req 0).bind fun req => (reqMapping plat pages i req 1).bind Prog.ret :=
  rfl

/-- A request for Port 1 leaves what it puts into the first mapping. -/
theorem reqMappings_slice (req : SliceReq) (pages : Option PageArray) (hport : req.rabPort = .port1) (hevery : req.flagsDrv.has drvEvery = true)
    {i k : Nat} (hi : s.pagePtrsGetField plat.nSlicesPort1 0 = some i)
    (hk : s.sliceGet (req.place 0 i req.rabSlice) plat.nSlicesPort1 = some k) :
    ((driver plat).exec (reqMappings plat pages 0 req) s).2.slice 0 k = (req.place 0 i k).entry := by
  have hfirst : (placeOutcome s pages (req.place 0 i k)).2.slice 0 k = (req.place 0 i k).entry :=
    (placeOutcome_slice s (req.place 0 i k) hport 0 k).trans (if_pos ⟨rfl, rfl⟩)
  have htake : takeOutcome plat s pages req 0 = placeOutcome s pages (req.place 0 i k) := by
    rw [takeOutcome, hi]
    simp only [hk]
  rw [reqMappings_eq, exec_bind, exec_reqMapping hport hevery, htake]
  have hport' : (req.place 0 i k).rabPort = .port1 := hport
  have hevery' : (req.place 0 i k).flagsDrv.has drvEvery = true := hevery
  generalize req.place 0 i k = req' at hfirst hport' hevery' ⊢
  rw [placeOutcome] at hfirst ⊢
  cases (s.sliceFree req').sliceSetupRefused req' with
  | true => exact hfirst
  | false =>
    change ((driver plat).exec ((reqMapping plat pages 0 req' 1).bind Prog.ret)
      ((s.sliceFree req').sliceSetup req' pages)).2.slice 0 k = _
    rw [exec_bind_ret, exec_reqMapping hport' hevery']
    exact (takeOutcome_slice req' k hport').trans hfirst

end

section

variable {plat : Platform} {s : RabState} {user : UserPages} {w : RequestWords}

/-- The slice of Port 0 a request gets. -/
def getPort0 (s : RabState) (dateCur : Nat) (fixed : Bool) : Option Nat :=
  (List.range nSlicesPort0).find? fun k =>
    Expired dateCur (s.l1.port0 k).dateExp && (!(s.l1.port0 k).fixed || fixed)

/-- What a request for Port 0 makes of a slice. -/
def seenPort0 (s : RabState) (w : RequestWords) (fixed : Bool) (offset : Nat) :
    Except Err Unit × L1Tlb × (Port → Nat → HwSlice) :=
  match getPort0 s w.dateCur fixed with
  | none => (.error .noSlice, s.l1, s.hw)
  | some k => (.ok (),
    { s.l1 with port0 := Function.update s.l1.port0 k ⟨fixed, w.dateCur, w.dateExp, w.addrStart.toNat,
        (w.addrStart + w.sizeB).toNat, offset, w.flagsHw⟩ },
    Function.update s.hw .port0 (Function.update (s.hw .port0) k ⟨w.addrStart.toNat / pageSize,
      (w.addrStart + w.sizeB).toNat / pageSize, offset / pageSize, w.flagsHw⟩))

/-- Replacing a slice of Port 0 shows nothing but the new slice. -/
theorem seen_replace_port0 (s : RabState) (req : SliceReq) (hport : req.rabPort = .port0) :
    seen (placeOutcome s none req) = (.ok (),
      { s.l1 with port0 := Function.update s.l1.port0 req.rabSlice req.entry.toL1EntryPort0 },
      Function.update s.hw .port0 (Function.update (s.hw .port0) req.rabSlice
        ⟨req.addrStart / pageSize, req.addrEnd / pageSize, req.addrOffset / pageSize, req.flagsHw⟩)) := by
  have hl1 : ((s.sliceFree req).sliceSetup req none).l1 =
      { s.l1 with port0 := Function.update s.l1.port0 req.rabSlice req.entry.toL1EntryPort0 } := by
    have hrelease : (s.releaseHw req).l1 = s.l1 := by
      rw [RabState.releaseHw]
      split <;> rfl
    rw [RabState.sliceSetup_port0 _ _ _ hport, RabState.sliceFree_port0 hport]
    simp [RabState.configureHw, RabState.occupy, RabState.clearEntry, RabState.setPort0, hport, hrelease]
  have hhw : ((s.sliceFree req).sliceSetup req none).hw = Function.update s.hw .port0
      (Function.update (s.hw .port0) req.rabSlice ⟨req.addrStart / pageSize, req.addrEnd / pageSize,
        req.addrOffset / pageSize, req.flagsHw⟩) := by
    funext p k
    rw [RabState.sliceSetup_hw, RabState.sliceFree_hw, hport]
    have hconf : (s.sliceFree req).configures req = true := by simp [RabState.configures, hport]
    cases p with
    | port0 =>
      by_cases hk : k = req.rabSlice
      · simp [hconf, hk]
      · simp [hk]
    | port1 => simp
  have hrefused : (s.sliceFree req).sliceSetupRefused req = false := by
    simp [RabState.sliceSetupRefused, hport]
  rw [seen, placeOutcome, hl1, hhw, hrefused]
  rfl

theorem seen_reqMappings_port0 {req : SliceReq} (hport : req.rabPort = .port0)
    (hmapping : req.rabMapping = 0) : seen ((driver plat).exec (reqMappings plat none 0 req) s) =
      match s.sliceGet req nSlicesPort0 with
      | none => (.error .noSlice, s.l1, s.hw)
      | some k => seen (placeOutcome s none { req with rabSlice := k }) := by
  have hrest : ∀ (p : Op SliceReq) (req' : SliceReq), req'.rabPort = .port0 → req'.rabMapping = 0 →
      (driver plat).exec p s = placeOutcome s none req' → (driver plat).exec (p.bind fun req =>
        (reqMapping plat none 0 req 1).bind Prog.ret) s = placeOutcome s none req' := by
    intro p req' hport' hmapping' hp
    have hrefused : (s.sliceFree req').sliceSetupRefused req' = false := by
      simp [RabState.sliceSetupRefused, hport']
    rw [exec_bind, hp, placeOutcome, hrefused]
    change (driver plat).exec ((reqMapping plat none 0 req' 1).bind Prog.ret) _ = _
    rw [reqMapping_port0 hport', if_neg (by omega)]
    rfl
  have htake := exec_take plat s req none nSlicesPort0 (by rw [hport]; rfl)
  rw [reqMappings_eq, reqMapping_port0 hport, if_pos hmapping]
  cases hget : s.sliceGet req nSlicesPort0 with
  | none =>
    rw [hget] at htake
    rw [exec_bind, htake]
    rfl
  | some k =>
    rw [hget] at htake
    exact congrArg seen (hrest _ { req with rabSlice := k } hport hmapping htake)

theorem sliceGet_port0 {req : SliceReq} (hport : req.rabPort = .port0) :
    s.sliceGet req nSlicesPort0 = getPort0 s req.dateCur (req.flagsDrv.has drvFixed) := by
  rw [RabState.sliceGet, getPort0]
  congr 1
  funext k
  have hentry : s.entry { req with rabSlice := k } = s.l1.port0 k := by
    rw [RabState.entry]
    split
    · rfl
    · next h => rw [hport] at h; cases h
  have hmanaged : s.sliceIsManagedByHost { req with rabSlice := k } = true := by
    simp [RabState.sliceIsManagedByHost, hport]
  rw [hmanaged, Bool.and_true, RabState.sliceCheck, hentry]
  cases (s.l1.port0 k).fixed <;> cases req.flagsDrv.has drvFixed <;>
    simp [Expired, eq_comm (a := maxDateMh)]

theorem seen_port0 (hport : w.rabPort = .port0) (stack : SliceReq) :
    seen (reqOutcome plat s user (w.request stack)) = seenPort0 s w (stack.flagsDrv.has drvFixed)
      (plat.constOffset w.addrStart.toNat stack.addrOffset) := by
  have hreq : ((w.request stack).constant plat).rabPort = .port0 := hport
  have hflags : (w.request stack).withType.flagsDrv = stack.flagsDrv.set (drvConst ||| drvEvery) :=
    if_pos (Or.inl hport)
  have hset : ∀ y : Flags, (y.set (drvConst ||| drvEvery)).has drvFixed = y.has drvFixed := by decide
  have hfixed : ((w.request stack).constant plat).flagsDrv.has drvFixed =
      stack.flagsDrv.has drvFixed := (congrArg (Flags.has · drvFixed) hflags).trans (hset _)
  rw [reqOutcome, rabReq_const (isConst_of_port0 hport), seen_reqMappings_port0 hreq rfl,
    sliceGet_port0 hreq, hfixed, seenPort0]
  change (match getPort0 s w.dateCur (stack.flagsDrv.has drvFixed) with | none => _ | some k => _) = _
  cases getPort0 s w.dateCur (stack.flagsDrv.has drvFixed) with
  | none => rfl
  | some k =>
    have hseen := seen_replace_port0 s { (w.request stack).constant plat with rabSlice := k } hreq
    simp only [SliceReq.entry, hfixed] at hseen
    exact hseen

theorem getPort0_eq_none_iff {date : Nat} : getPort0 s date true = none ↔
    ∀ k < nSlicesPort0, ¬ Expired date (s.l1.port0 k).dateExp := by
  simp [getPort0]

theorem getPort0_eq_some_iff {date k : Nat} {fixed : Bool} : getPort0 s date fixed = some k ↔
    k < nSlicesPort0 ∧ (Expired date (s.l1.port0 k).dateExp ∧
      ((s.l1.port0 k).fixed = true → fixed = true)) ∧
    ∀ j < k, Expired date (s.l1.port0 j).dateExp → (s.l1.port0 j).fixed = true ∧ fixed = false := by
  rw [getPort0, List.find?_range_eq_some]
  cases fixed
  · simp [imp_iff_not_or]
    tauto
  · simp
    tauto

theorem knownStart_iff : KnownStart plat w ↔
    ∀ o o', plat.constOffset w.addrStart.toNat o = plat.constOffset w.addrStart.toNat o' := by
  constructor
  · intro hknown o o'
    simp only [KnownStart, List.mem_cons, List.not_mem_nil, or_false] at hknown
    simp only [Platform.constOffset]
    grind
  · intro hsame
    by_contra hno
    simp only [KnownStart, List.mem_cons, List.not_mem_nil, or_false, not_or] at hno
    have hoffset := hsame 0 1
    simp [Platform.constOffset, hno] at hoffset

theorem requestDetermined_port0 (hport : w.rabPort = .port0) :
    RequestDetermined plat s user w ↔ ∀ fixed fixed' o o',
      seenPort0 s w fixed (plat.constOffset w.addrStart.toNat o) =
        seenPort0 s w fixed' (plat.constOffset w.addrStart.toNat o') := by
  constructor
  · intro h fixed fixed' o o'
    have hbit : ∀ b : Bool, (if b then drvFixed else 0#8).has drvFixed = b := by decide
    have hsame := h
      { SliceReq.blank with flagsDrv := if fixed then drvFixed else 0#8, addrOffset := o }
      { SliceReq.blank with flagsDrv := if fixed' then drvFixed else 0#8, addrOffset := o' }
    rw [seen_port0 hport, seen_port0 hport, hbit, hbit] at hsame
    exact hsame
  · intro h stack stack'
    rw [seen_port0 hport, seen_port0 hport]
    exact h _ _ _ _

private theorem update_port0 {l1 l1' : L1Tlb} {e e' : L1EntryPort0} {k k' : Nat}
    (h : ({ l1 with port0 := Function.update l1.port0 k e } : L1Tlb) =
      { l1' with port0 := Function.update l1'.port0 k' e' }) :
    Function.update l1.port0 k e = Function.update l1'.port0 k' e' :=
  congrArg L1Tlb.port0 h

/-- Nothing shows of a request for what the slice holds already. -/
private theorem seenPort0_of_held {fixed : Bool} {k : Nat} (hget : getPort0 s w.dateCur fixed = some k)
    (hentry : s.l1.port0 k = w.entry0 plat fixed) (hslice : s.hw .port0 k = w.hwSlice plat) :
    seenPort0 s w fixed (plat.constOffset w.addrStart.toNat 0) = (.ok (), s.l1, s.hw) := by
  rw [RequestWords.entry0] at hentry
  rw [RequestWords.hwSlice] at hslice
  simp only [seenPort0, hget, ← hentry, ← hslice, Function.update_eq_self]

theorem determined_port0_iff (hport : w.rabPort = .port0) :
    RequestDetermined plat s user w ↔ NothingToTake plat s w ∨ HoldsTwice plat s w := by
  have hnothing : NothingToTake plat s w ↔ getPort0 s w.dateCur true = none := by
    rw [getPort0_eq_none_iff, NothingToTake, hport]
  rw [requestDetermined_port0 hport, hnothing]
  constructor
  · intro h
    cases hget : getPort0 s w.dateCur true with
    | none => exact Or.inl rfl
    | some k =>
      right
      have hk := getPort0_eq_some_iff.mp hget
      have hknown : KnownStart plat w := by
        rw [knownStart_iff]
        intro o o'
        have hsame := h true true o o'
        simp only [seenPort0, hget, Prod.mk.injEq] at hsame
        have hentry := congrFun (update_port0 hsame.2.1) k
        simpa using hentry
      have hsame := h true false 0 0
      cases hget' : getPort0 s w.dateCur false with
      | none => simp [seenPort0, hget, hget'] at hsame
      | some k' =>
        have hk' := getPort0_eq_some_iff.mp hget'
        simp only [seenPort0, hget, hget', Prod.mk.injEq] at hsame
        have hentries := update_port0 hsame.2.1
        have hhw := congrFun hsame.2.2 .port0
        simp only [Function.update_self] at hhw
        have hne : k ≠ k' := by
          rintro rfl
          have hentry := congrFun hentries k
          simp at hentry
        have hlt : k < k' := by
          rcases Nat.lt_or_ge k k' with hlt | hge
          · exact hlt
          · have hno := hk.2.2 k' (by omega) hk'.2.1.1
            simp at hno
        have hentry := congrFun hentries k
        have hentry' := congrFun hentries k'
        have hslice := congrFun hhw k
        have hslice' := congrFun hhw k'
        simp only [Function.update_self, Function.update_of_ne hne, Function.update_of_ne hne.symm]
          at hentry hentry' hslice hslice'
        refine ⟨hknown, k, k', hlt, hk'.1, ?_, ?_, ?_, hentry.symm, hentry', hslice.symm, hslice'⟩
        · intro j hj hexp
          have hno := hk.2.2 j hj hexp
          simp at hno
        · exact fun j hj hexp => (hk'.2.2 j hj hexp).1
        · have hexp := hk.2.1.1
          rw [← hentry] at hexp
          exact hexp
  · intro h
    -- either way nothing that shows depends on the bit or the offset
    have hseen : ∃ r, ∀ fixed o, seenPort0 s w fixed (plat.constOffset w.addrStart.toNat o) = r := by
      cases h with
      | inl hnone =>
        refine ⟨(.error .noSlice, s.l1, s.hw), ?_⟩
        intro fixed o
        have hget : getPort0 s w.dateCur fixed = none := by
          cases hget : getPort0 s w.dateCur fixed with
          | none => rfl
          | some k =>
            have hk := getPort0_eq_some_iff.mp hget
            exact absurd hk.2.1.1 (getPort0_eq_none_iff.mp hnone k hk.1)
        simp [seenPort0, hget]
      | inr htwice =>
        obtain ⟨hknown, k, k', hlt, hk', hfirst, hfixed, hexp, hentry, hentry', hslice, hslice'⟩ := htwice
        have hget : getPort0 s w.dateCur true = some k := by
          rw [getPort0_eq_some_iff, hentry]
          exact ⟨hlt.trans hk', ⟨hexp, fun _ => rfl⟩, fun j hj hno => absurd hno (hfirst j hj)⟩
        have hget' : getPort0 s w.dateCur false = some k' := by
          rw [getPort0_eq_some_iff, hentry']
          exact ⟨hk', ⟨hexp, fun hno => Bool.noConfusion hno⟩, fun j hj hno => ⟨hfixed j hj hno, rfl⟩⟩
        refine ⟨(.ok (), s.l1, s.hw), ?_⟩
        intro fixed o
        rw [knownStart_iff.mp hknown o 0]
        cases fixed with
        | true => exact seenPort0_of_held hget hentry hslice
        | false => exact seenPort0_of_held hget' hentry' hslice'
    obtain ⟨r, hr⟩ := hseen
    intro fixed fixed' o o'
    rw [hr, hr]

/-- Why there is nothing to take on Port 1. -/
def nothingErr (plat : Platform) (s : RabState) : Err :=
  if s.pagePtrsGetField plat.nSlicesPort1 0 = none then .eio else .noSlice

theorem pagePtrsGetField_none_iff {n m : Nat} :
    s.pagePtrsGetField n m = none ↔ ∀ i < n, s.refCntr m i ≠ 0 := by
  simp [RabState.pagePtrsGetField]

theorem entry_port1 {req : SliceReq} (hport : req.rabPort = .port1) :
    s.entry req = (s.slice req.rabMapping req.rabSlice).toL1EntryPort0 := by
  rw [RabState.entry]
  split
  · next heq => exact absurd (heq.symm.trans hport) (by decide)
  · rfl

theorem managed_port1 {req : SliceReq} (hport : req.rabPort = .port1) :
    s.sliceIsManagedByHost req = true ↔
      (s.ctrl.socMhIsEna = true → req.rabSlice < s.ctrl.nSlicesReservedForHost) := by
  simp only [RabState.sliceIsManagedByHost, hport]
  cases s.ctrl.socMhIsEna <;> simp

theorem NothingToTake.exec_reqMappings (hnothing : NothingToTake plat s w) (hport : w.rabPort = .port1)
    (req : SliceReq) (hreq : req.rabPort = .port1) (hevery : req.flagsDrv.has drvEvery = true)
    (hdate : req.dateCur = w.dateCur) (pages : Option PageArray) :
    (driver plat).exec (reqMappings plat pages 0 req) s = (.error (nothingErr plat s), s) := by
  have htake : takeOutcome plat s pages req 0 = (.error (nothingErr plat s), s) := by
    rw [takeOutcome, nothingErr]
    cases hfield : s.pagePtrsGetField plat.nSlicesPort1 0 with
    | none => rfl
    | some i =>
      have hget : s.sliceGet (req.place 0 i req.rabSlice) plat.nSlicesPort1 = none := by
        rw [NothingToTake, hport] at hnothing
        cases hnothing with
        | inl hfull => exact absurd (pagePtrsGetField_none_iff.mpr hfull) (by rw [hfield]; simp)
        | inr hexp =>
          apply sliceGet_none_of_not_expired
          intro k hk hmanaged
          have hplace : ({ req.place 0 i req.rabSlice with rabSlice := k } : SliceReq).rabPort = .port1 :=
            hreq
          have hno := hexp k hk ((managed_port1 hplace).mp hmanaged)
          rw [← hdate] at hno
          rw [entry_port1 hplace]
          exact hno
      simp [hget]
  rw [reqMappings_eq, exec_bind, exec_reqMapping hreq hevery, htake]

theorem NothingToTake.seen (hnothing : NothingToTake plat s w) (hport : w.rabPort = .port1)
    {stack : SliceReq} (hok : (w.request stack).isConst = true ∨ user.alloc = true) :
    seen (reqOutcome plat s user (w.request stack)) = (.error (nothingErr plat s), s.l1, s.hw) := by
  have hevery := withType_every (w.request stack)
  by_cases hconst : (w.request stack).isConst = true
  · have hexec := hnothing.exec_reqMappings hport ((w.request stack).constant plat) hport hevery rfl
      none
    rw [reqOutcome, rabReq_const hconst, hexec]
    rfl
  · obtain ⟨is, houtcome⟩ := reqOutcome_pages plat s hconst (hok.resolve_left hconst)
    have hnothing' : NothingToTake plat
        (s.getUserPages (min user.got (w.request stack).len)) w := hnothing
    have hexec := hnothing'.exec_reqMappings hport ((w.request stack).withType.forSegment
      ((memMapSg user.pfn (w.request stack).len (w.request stack).addrStart
        (w.request stack).addrEnd).vec 0)) hport hevery rfl
      (some ⟨s.kernel.nextArray, (w.request stack).addrStart, (w.request stack).len⟩)
    rw [houtcome, Prog.foldl, exec_bind, reqSegment, hexec]
    rfl

theorem sliceGet_congr {req req' : SliceReq} (hport : req.rabPort = .port1)
    (hport' : req'.rabPort = .port1) (hmapping : req.rabMapping = req'.rabMapping)
    (hdate : req.dateCur = req'.dateCur)
    (hfixed : req.flagsDrv.has drvFixed = req'.flagsDrv.has drvFixed) (n : Nat) :
    s.sliceGet req n = s.sliceGet req' n := by
  rw [RabState.sliceGet, RabState.sliceGet]
  congr 1
  funext k
  simp only [RabState.sliceCheck, RabState.sliceIsManagedByHost, RabState.entry, hport, hport',
    hmapping, hdate, hfixed]

/-- A request for fixed slices finds none only if none has expired. -/
theorem not_expired_of_sliceGet_fixed {req : SliceReq} {n : Nat} (hport : req.rabPort = .port1)
    (hfixed : req.flagsDrv.has drvFixed = true) (hnone : s.sliceGet req n = none) {k : Nat} (hk : k < n)
    (hmanaged : s.ctrl.socMhIsEna = true → k < s.ctrl.nSlicesReservedForHost) :
    ¬ Expired req.dateCur (s.slice req.rabMapping k).dateExp := by
  have hport' : ({ req with rabSlice := k } : SliceReq).rabPort = .port1 := hport
  have hfixed' : ({ req with rabSlice := k } : SliceReq).flagsDrv.has drvFixed = true := hfixed
  have hcheck := RabState.sliceGet_none hnone hk ((managed_port1 hport').mpr hmanaged)
  rw [Bool.eq_false_iff, ne_eq, sliceCheck_fixed_iff hfixed', entry_port1 hport'] at hcheck
  exact hcheck

/-- A request for constant, fixed slices, with a mark among the flags that have no meaning. -/
def markedStack (mark : Flags) : SliceReq :=
  { SliceReq.blank with flagsDrv := drvConst ||| drvFixed ||| mark }

private theorem marked_flags (w : RequestWords) (mark : Flags) :
    (w.request (markedStack mark)).withType.flagsDrv = drvConst ||| drvFixed ||| drvEvery ||| mark := by
  have hset : ∀ y : Flags, (drvConst ||| drvFixed ||| y).set (drvConst ||| drvEvery) =
      drvConst ||| drvFixed ||| drvEvery ||| y ∧ (drvConst ||| drvFixed ||| y).set drvEvery =
      drvConst ||| drvFixed ||| drvEvery ||| y := by decide
  rw [SliceReq.withType]
  split
  · exact (hset mark).1
  · exact (hset mark).2

private theorem marked_has (mark : Flags) :
    (drvConst ||| drvFixed ||| drvEvery ||| mark).has drvConst = true ∧
      (drvConst ||| drvFixed ||| drvEvery ||| mark).has drvFixed = true := by
  revert mark
  decide

/-- What a request with a mark leaves in the slice it takes. -/
private theorem marked_slice (user : UserPages) (hport : w.rabPort = .port1) {i k : Nat} (mark : Flags)
    (hi : s.pagePtrsGetField plat.nSlicesPort1 0 = some i)
    (hk : s.sliceGet (((w.request (markedStack mark)).constant plat).place 0 i 0) plat.nSlicesPort1 =
      some k) :
    ((reqOutcome plat s user (w.request (markedStack mark))).2.slice 0 k).flagsDrv =
      drvConst ||| drvFixed ||| drvEvery ||| mark := by
  have hconst : (w.request (markedStack mark)).isConst = true := by
    rw [SliceReq.isConst, marked_flags]
    exact (marked_has mark).1
  have hslice := reqMappings_slice ((w.request (markedStack mark)).constant plat) none hport
    (withType_every _) hi hk
  rw [reqOutcome, rabReq_const hconst, hslice]
  exact marked_flags w mark

theorem determined_port1_iff (hport : w.rabPort = .port1) : RequestDetermined plat s user w ↔
    NothingToTake plat s w ∧ (w.addrStart.toNat = l3MemBaseAddr ∨ user.alloc = true) := by
  constructor
  · intro h
    have hnothing : NothingToTake plat s w := by
      by_contra hno
      rw [NothingToTake, hport] at hno
      simp only [not_or] at hno
      obtain ⟨i, hi⟩ := Option.ne_none_iff_exists'.mp fun hnone =>
        hno.1 (pagePtrsGetField_none_iff.mp hnone)
      have hfixed : ∀ mark, (((w.request (markedStack mark)).constant plat).place 0 i 0).flagsDrv.has
          drvFixed = true := by
        intro mark
        exact (congrArg (Flags.has · drvFixed) (marked_flags w mark)).trans (marked_has mark).2
      obtain ⟨k, hk⟩ : ∃ k, s.sliceGet (((w.request (markedStack 0#8)).constant plat).place 0 i 0)
          plat.nSlicesPort1 = some k := by
        apply Option.ne_none_iff_exists'.mp
        intro hnone
        apply hno.2
        exact fun k hk hmanaged => not_expired_of_sliceGet_fixed hport (hfixed 0#8) hnone hk hmanaged
      have hk' : s.sliceGet (((w.request (markedStack 128#8)).constant plat).place 0 i 0)
          plat.nSlicesPort1 = some k := by
        rw [← hk]
        apply sliceGet_congr
        · exact hport
        · exact hport
        · rfl
        · rfl
        · rw [hfixed, hfixed]
      have hslice := marked_slice user hport 0#8 hi hk
      have hslice' := marked_slice user hport 128#8 hi hk'
      have hsame := h (markedStack 0#8) (markedStack 128#8)
      simp only [seen, Prod.mk.injEq] at hsame
      rw [RabState.slice, hsame.2.1] at hslice
      have habsurd := hslice.symm.trans hslice'
      cases habsurd
    refine ⟨hnothing, ?_⟩
    by_contra hno
    rw [not_or, Bool.not_eq_true] at hno
    have hblank : (w.request SliceReq.blank).isConst ≠ true := by
      have hflags : (w.request SliceReq.blank).withType.flagsDrv = Flags.set 0#8 drvEvery :=
        if_neg (not_or.mpr ⟨by simp [RequestWords.request, hport], hno.1⟩)
      rw [SliceReq.isConst, hflags]
      decide
    have hmarked : (w.request (markedStack 0#8)).isConst = true := by
      rw [SliceReq.isConst, marked_flags]
      exact (marked_has 0#8).1
    have hsame := h (markedStack 0#8) .blank
    rw [hnothing.seen hport (Or.inl hmarked), reqOutcome_enomem hblank hno.2] at hsame
    simp only [seen, Prod.mk.injEq] at hsame
    have herr : nothingErr plat s = .enomem := Except.error.inj hsame.1
    rw [nothingErr] at herr
    split at herr <;> cases herr
  · intro h stack stack'
    have hok : ∀ stack : SliceReq, (w.request stack).isConst = true ∨ user.alloc = true := by
      intro stack
      apply h.2.imp _ id
      intro hl3
      have hset : ∀ y : Flags, (y.set (drvConst ||| drvEvery)).has drvConst = true := by decide
      have hflags : (w.request stack).withType.flagsDrv = stack.flagsDrv.set (drvConst ||| drvEvery) :=
        if_pos (Or.inr hl3)
      rw [SliceReq.isConst, hflags, hset]
    rw [h.1.seen hport (hok stack), h.1.seen hport (hok stack')]

theorem requestDetermined_iff : RequestDetermined plat s user w ↔ StackUnused plat s user w := by
  cases hport : w.rabPort with
  | port0 => rw [determined_port0_iff hport, StackUnused, hport]
  | port1 => rw [determined_port1_iff hport, StackUnused, hport]

end

end Hero.Rab
