import Hero.Driver.Rab.Operations

/-!
# Coherence of the hardware with the shadow

The two mappings of Port 1 share one set of hardware slices.  The shadow of the active mapping and
the hardware agree as long as no call takes one of two branches, which are named here.
-/

namespace Hero.Rab

open Driver Flags

/-- A hardware slice translates what a shadow entry says. -/
def Agrees (h : HwSlice) (e : L1EntryPort0) : Prop :=
  (h.flags.has hwEn ↔ e.flagsHw.has hwEn) ∧
    (e.flagsHw.has hwEn → h.addrStart = e.addrStart / pageSize ∧
      h.addrEnd = e.addrEnd / pageSize ∧ h.addrOffset = e.addrOffset / pageSize)

instance (h : HwSlice) (e : L1EntryPort0) : Decidable (Agrees h e) :=
  inferInstanceAs (Decidable (_ ∧ _))

def Coherent (plat : Platform) (s : RabState) : Prop :=
  ∀ k < plat.nSlicesPort1,
    Agrees (s.hw .port1 k) (s.slice s.l1.mappingActive k).toL1EntryPort0

instance (plat : Platform) (s : RabState) : Decidable (Coherent plat s) :=
  inferInstanceAs (Decidable (∀ k < _, _))

namespace RabState

variable (s : RabState) (req : SliceReq)

def onInactive : Prop := req.rabPort = .port1 ∧ s.l1.mappingActive ≠ req.rabMapping

instance : Decidable (s.onInactive req) := inferInstanceAs (Decidable (_ ∧ _))

/-- Freeing a slice of the inactive mapping goes by the flags in hardware, which are those of the
active mapping. -/
def freesForeign : Prop :=
  s.onInactive req ∧ s.sliceIsManagedByHost req ∧ s.pagesOld req = none ∧
    !req.flagsDrv.has drvConst ∧ (s.hw .port1 req.rabSlice).flags ≠ 0#8

instance : Decidable (s.freesForeign req) := inferInstanceAs (Decidable (_ ∧ _))

/-- Setting up a slice of the active mapping is refused after the shadow has changed, and the
hardware holds something else. -/
def leavesStale (plat : Platform) : Prop :=
  s.sliceSetupRefused req ∧ s.l1.mappingActive = req.rabMapping ∧
    req.rabSlice < plat.nSlicesPort1 ∧
    ¬ Agrees (s.hw .port1 req.rabSlice) req.entry.toL1EntryPort0

instance (plat : Platform) : Decidable (s.leavesStale req plat) :=
  inferInstanceAs (Decidable (_ ∧ _))

end RabState

open RabState

def Call.KeepsCoherent (plat : Platform) (s : RabState) : Call → Prop
  | .sliceFree req => ¬ s.freesForeign req
  | .sliceSetup req _ => ¬ s.leavesStale req plat
  | _ => True

instance (plat : Platform) (s : RabState) : ∀ c : Call, Decidable (c.KeepsCoherent plat s)
  | .sliceFree req => inferInstanceAs (Decidable (¬ s.freesForeign req))
  | .sliceSetup req _ => inferInstanceAs (Decidable (¬ s.leavesStale req plat))
  | .getUserPages _ _ => isTrue trivial
  | .mappingSwitch _ => isTrue trivial
  | .setStripeReq _ _ => isTrue trivial
  | .setSocMh _ _ => isTrue trivial
  | .setMh _ _ _ => isTrue trivial
  | .report _ => isTrue trivial

/-- The call frees or sets up a slice of the inactive mapping. -/
def Call.OnInactive (s : RabState) : Call → Prop
  | .sliceFree req => s.onInactive req
  | .sliceSetup req _ => s.onInactive req
  | _ => False

/-- A call after which the hardware agrees with the shadow of the active mapping; if it is one on
the inactive mapping, it leaves the hardware alone. -/
def Call.Coherent (plat : Platform) (s : RabState) (c : Call) : Prop :=
  Hero.Rab.Coherent plat (s.step plat c) ∧ (c.OnInactive s → (s.step plat c).hw = s.hw)

section

variable {h : HwSlice} {e : L1EntryPort0}

private theorem agrees_of_flags (hh : h.flags = 0#8) (he : e.flagsHw = 0#8) : Agrees h e := by
  have hen : Flags.has 0#8 hwEn = false := by decide
  simp [Agrees, hh, he, hen]

private theorem agrees_config (e : L1EntryPort0) : Agrees
    ⟨e.addrStart / pageSize, e.addrEnd / pageSize, e.addrOffset / pageSize, e.flagsHw⟩ e :=
  ⟨Iff.rfl, fun _ => ⟨rfl, rfl, rfl⟩⟩

end

section

variable {plat : Platform} {s : RabState} {req : SliceReq}

/-- Of the calls that free a slice of the inactive mapping, these write the hardware. -/
private theorem freesForeign_iff (hin : s.onInactive req) :
    s.freesForeign req ↔ s.clearsHw req := by
  obtain ⟨hport, hne⟩ := hin
  have hin : s.onInactive req := ⟨hport, hne⟩
  cases hm : s.sliceIsManagedByHost req with
  | false => simp [freesForeign, clearsHw, hm]
  | true =>
    cases hpages : s.pagesOld req with
    | some pages => simp [freesForeign, clearsHw, hm, hpages, hne]
    | none =>
      cases hc : req.flagsDrv.has drvConst with
      | true => simp [freesForeign, clearsHw, hm, hpages, hc, hport, hne]
      | false => simp [freesForeign, clearsHw, hm, hpages, hc, hport, hin]

private theorem sliceFree_coherent (h : Coherent plat s) :
    (Call.sliceFree req).Coherent plat s ↔ ¬ s.freesForeign req := by
  constructor
  · intro hco hforeign
    have hhw := congrFun (congrFun (hco.2 hforeign.1) .port1) req.rabSlice
    have hclears := (freesForeign_iff hforeign.1).mp hforeign
    change (s.sliceFree req).hw .port1 req.rabSlice = _ at hhw
    rw [sliceFree_hw, if_pos ⟨hclears, hforeign.1.1.symm, rfl⟩] at hhw
    exact hforeign.2.2.2.2 (by rw [← hhw]; rfl)
  · intro hok
    have hunchanged : s.onInactive req → (s.sliceFree req).hw = s.hw := by
      intro hin
      rw [freesForeign_iff hin] at hok
      funext p k
      rw [sliceFree_hw, if_neg fun h => hok h.1]
    refine ⟨?_, hunchanged⟩
    intro k hk
    change Agrees ((s.sliceFree req).hw .port1 k)
      ((s.sliceFree req).slice (s.sliceFree req).l1.mappingActive k).toL1EntryPort0
    rw [sliceFree_slice, (s.sliceFree_frame req).1]
    by_cases hslot : s.sliceIsManagedByHost req ∧ req.rabPort = .port1 ∧
        s.l1.mappingActive = req.rabMapping ∧ k = req.rabSlice
    · rw [if_pos hslot]
      obtain ⟨hm, hport, hactive, rfl⟩ := hslot
      refine agrees_of_flags ?_ rfl
      rw [sliceFree_hw]
      by_cases hclears : s.clearsHw req
      · rw [if_pos ⟨hclears, hport.symm, rfl⟩]
        rfl
      · rw [if_neg fun h => hclears h.1]
        simp_all [clearsHw]
    · rw [if_neg hslot]
      have hhw : (s.sliceFree req).hw .port1 k = s.hw .port1 k := by
        by_cases hin : s.onInactive req
        · rw [hunchanged hin]
        · rw [sliceFree_hw, if_neg]
          rintro ⟨hclears, hport, rfl⟩
          have hm : s.sliceIsManagedByHost req = true := by
            unfold clearsHw at hclears
            exact (Bool.and_eq_true_iff.mp hclears).1
          have hactive : s.l1.mappingActive = req.rabMapping := by
            by_contra hne
            exact hin ⟨hport.symm, hne⟩
          exact hslot ⟨hm, hport.symm, hactive, rfl⟩
      rw [hhw]
      exact h k hk

private theorem sliceSetup_coherent (pages : Option PageArray) (h : Coherent plat s) :
    (Call.sliceSetup req pages).Coherent plat s ↔ ¬ s.leavesStale req plat := by
  have hunchanged : s.onInactive req → (s.sliceSetup req pages).hw = s.hw := by
    intro hin
    funext p k
    rw [sliceSetup_hw, if_neg]
    simp [configures, hin.1, hin.2]
  have hslice : ∀ k, ((s.sliceSetup req pages).slice
      (s.sliceSetup req pages).l1.mappingActive k).toL1EntryPort0 =
      if req.rabPort = .port1 ∧ s.l1.mappingActive = req.rabMapping ∧ k = req.rabSlice then
        req.entry.toL1EntryPort0 else (s.slice s.l1.mappingActive k).toL1EntryPort0 := by
    intro k
    rw [sliceSetup_slice, (s.sliceSetup_frame req pages).1]
    split <;> rfl
  constructor
  · intro hco hstale
    obtain ⟨hrefused, hactive, hk, hno⟩ := hstale
    have hport : req.rabPort = .port1 := by
      unfold sliceSetupRefused at hrefused
      simp_all
    have hagrees := hco.1 req.rabSlice hk
    change Agrees ((s.sliceSetup req pages).hw .port1 req.rabSlice) ((s.sliceSetup req pages).slice
      (s.sliceSetup req pages).l1.mappingActive req.rabSlice).toL1EntryPort0 at hagrees
    rw [hslice, if_pos ⟨hport, hactive, rfl⟩, sliceSetup_hw, if_neg] at hagrees
    · exact hno hagrees
    · simp [configures, takesRef, hport, hrefused]
  · intro hok
    refine ⟨?_, hunchanged⟩
    intro k hk
    change Agrees ((s.sliceSetup req pages).hw .port1 k)
      ((s.sliceSetup req pages).slice (s.sliceSetup req pages).l1.mappingActive k).toL1EntryPort0
    rw [hslice]
    by_cases hslot : req.rabPort = .port1 ∧ s.l1.mappingActive = req.rabMapping ∧ k = req.rabSlice
    · rw [if_pos hslot, sliceSetup_hw]
      obtain ⟨hport, hactive, rfl⟩ := hslot
      by_cases hrefused : s.sliceSetupRefused req
      · rw [if_neg (by simp [configures, takesRef, hport, hrefused])]
        by_contra hno
        exact hok ⟨hrefused, hactive, hk, hno⟩
      · rw [if_pos ⟨by simp [configures, takesRef, hport, hrefused, hactive], hport.symm, rfl⟩]
        exact agrees_config req.entry.toL1EntryPort0
    · rw [if_neg hslot, sliceSetup_hw, if_neg]
      · exact h k hk
      · rintro ⟨hconf, hport, rfl⟩
        apply hslot
        simp_all [configures]

private theorem mappingSwitch_coherent (m : Nat) (h : Coherent plat s) :
    Coherent plat (s.mappingSwitch plat.nSlicesPort1 m) := by
  intro k hk
  have hframe := s.mappingSwitch_frame plat.nSlicesPort1 m
  rw [hframe.1, hframe.2.2.2, mappingSwitch_hw]
  have hprot : ∀ flags : Flags, flags.prot.has hwEn = flags.has hwEn := by decide
  by_cases hen : (s.slice m k).flagsHw.has hwEn
  · rw [if_pos ⟨hk, by rw [hprot]; exact hen⟩]
    exact agrees_config _
  · rw [if_neg fun h => hen (by rw [← hprot]; exact h.2)]
    have hoff : ¬ (if k < plat.nSlicesPort1 ∧ (s.slice s.l1.mappingActive k).flagsHw.prot ≠ 0#8 then
        (s.hw .port1 k).withFlags 0#8 else s.hw .port1 k).flags.has hwEn := by
      split
      · exact (by decide : ¬ Flags.has 0#8 hwEn)
      · next hno =>
        intro hhw
        have hold := (h k hk).1.mp hhw
        apply hno
        refine ⟨hk, ?_⟩
        intro hzero
        rw [← hprot, hzero] at hold
        exact absurd hold (by decide)
    exact ⟨iff_of_false hoff hen, fun h => absurd h hen⟩

/-- Each call on a coherent state keeps it coherent exactly outside the two branches. -/
theorem Call.coherent_iff (c : Call) (h : Hero.Rab.Coherent plat s) :
    c.Coherent plat s ↔ c.KeepsCoherent plat s := by
  cases c with
  | sliceFree req => exact sliceFree_coherent h
  | sliceSetup req pages => exact sliceSetup_coherent pages h
  | mappingSwitch m => exact iff_of_true ⟨mappingSwitch_coherent m h, False.elim⟩ trivial
  | getUserPages nPages got => exact iff_of_true ⟨h, False.elim⟩ trivial
  | setStripeReq m elements => exact iff_of_true ⟨h, False.elim⟩ trivial
  | setSocMh ena reserved => exact iff_of_true ⟨h, False.elim⟩ trivial
  | setMh date acp lvl => exact iff_of_true ⟨h, False.elim⟩ trivial
  | report err => exact iff_of_true ⟨h, False.elim⟩ trivial

end

theorem coherent_reset (plat : Platform) : Coherent plat (RabState.reset plat) :=
  fun _ _ => agrees_of_flags rfl rfl

/-- In a run of the driver from its initialisation on, every call leaves the hardware coherent with
the shadow, and a call on the inactive mapping leaves it alone, if and only if no call frees a
foreign hardware slice or leaves a stale one. -/
theorem run_coherent_iff (plat : Platform) (stack : SliceReq) (actions : List Action) :
    (driver plat).Along (fun s c => c.Coherent plat s) (runProg plat stack actions)
        (RabState.reset plat) ↔
      (driver plat).Along (fun s c => c.KeepsCoherent plat s) (runProg plat stack actions)
        (RabState.reset plat) := by
  refine Interp.along_iff ?_ ?_ (runProg plat stack actions) (coherent_reset plat)
  · intro s c hs hok
    exact ((Call.coherent_iff c hs).mpr hok).1
  · intro s c hs
    exact Call.coherent_iff c hs

/-- A request for one page. -/
def onePage : Action := .req ⟨true, 1, fun _ => 5⟩
  { SliceReq.blank with
    dateCur := 1
    dateExp := 1
    rabPort := .port1
    addrStart := 0x10000
    addrEnd := 0x11000
    flagsHw := hwEn ||| hwRead }

-- with the second mapping active, requests and frees meet the condition
example : (driver .zedboard).Along (fun s c => c.KeepsCoherent .zedboard s)
    (runProg .zedboard .blank [.mappingSwitch 1, onePage, .free .blank 2 false])
    (RabState.reset .zedboard) := by decide +kernel

/-- A request for a page sets the page up in the active mapping first; freeing the same slice in
the other mapping then disables it in hardware. -/
theorem request_incoherent : ¬ Coherent .zedboard
    ((driver .zedboard).exec (runProg .zedboard .blank [onePage]) (RabState.reset .zedboard)).2 := by
  decide +kernel

end Hero.Rab
