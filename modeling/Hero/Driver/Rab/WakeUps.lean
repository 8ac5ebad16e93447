import Hero.Driver.Rab.MissFifo
import Hero.Driver.Rab.MissReplacement

/-!
# Wake-ups by the miss handler

A core that is woken repeats its access, so its page has to be translated by then.  The handler goes by
the pages it has read before, whatever became of them; what a run has given to each slice decides
whether a repeated miss may be answered.
-/

namespace Hero.Rab

open Driver Flags Interp

/-- An enabled slice of Port 1 translates the address. -/
def Translates (plat : Platform) (inclusive : Bool) (s : RabState) (a : BitVec 32) : Prop :=
  ∃ k < plat.nSlicesPort1, (s.hw .port1 k).flags.has hwEn = true ∧ (s.hw .port1 k).Contains inclusive a

instance (inclusive : Bool) (hw : HwSlice) (a : BitVec 32) : Decidable (hw.Contains inclusive a) :=
  inferInstanceAs (Decidable (_ ∧ if inclusive then _ else _))

instance (plat : Platform) (inclusive : Bool) (s : RabState) (a : BitVec 32) :
    Decidable (Translates plat inclusive s a) := inferInstanceAs (Decidable (∃ k < _, _ ∧ _))

namespace Handled

/-- The pages that a miss has mapped -/
def mapped (x : Handled) : List Nat := x.effects.filterMap fun
  | .map start _ => some start
  | _ => none

/-- What a failed miss has acquired is given back. -/
def GivesBack (x : Handled) : Prop := (∃ e, Effect.report e ∈ x.effects) →
  (.kmalloc ∈ x.effects → .kfree ∈ x.effects) ∧ ∀ p, .pin p ∈ x.effects → .put p ∈ x.effects

end Handled

/-- The miss wakes the core it comes from, and only if its page is translated. -/
def Handled.WakesTranslated (plat : Platform) (w : AxiWidths) (inclusive : Bool) (x : Handled) : Prop :=
  ∀ c p, Effect.wake c p ∈ x.effects → c = x.miss.idCluster w ∧ p = x.miss.idPe w ∧
    Translates plat inclusive x.after x.miss.addr

/-- Cores are woken where their page is translated, no page is mapped twice, all misses to a page that is
mapped wake their core, and failed misses keep nothing. -/
structure WakesSoundly (plat : Platform) (w : AxiWidths) (inclusive : Bool) (run : List Handled) : Prop where
  sound : ∀ x ∈ run, x.WakesTranslated plat w inclusive
  once : (run.flatMap Handled.mapped).Nodup
  wakes : ∀ x ∈ run, x.miss.served plat w = true → x.miss.axuser w = 0#32 →
    x.miss.start ∈ run.flatMap Handled.mapped → .wake (x.miss.idCluster w) (x.miss.idPe w) ∈ x.effects
  givesBack : ∀ x ∈ run, x.GivesBack

/-- The slice the handler takes for a page: the one of the request where only the second level is to be
used; else the one that is found, or the last one unless only the first level is to be used. -/
def missSlice (plat : Platform) (s : RabState) (req : SliceReq) : Option Nat :=
  if s.ctrl.mhLvl = 2 then some req.rabSlice
  else match s.sliceGet req plat.nSlicesPort1 with
    | some k => some k
    | none => if s.ctrl.mhLvl = 1 then none else some (plat.nSlicesPort1 - 1)

/-- Once slice `k` is freed, there is a free field for a list of pages. -/
def RabState.FieldLeft (plat : Platform) (s : RabState) (m k : Nat) : Prop :=
  ∃ i < plat.nSlicesPort1, s.refCntr m i =
    if s.Managed k ∧ i = (s.slice m k).pagePtrIdx ∧ (s.pagePtr m i).isSome = true then 1 else 0

/-- A slice for the page of an address -/
def pageSlice (start : Nat) : HwSlice := ⟨start / pageSize, u32 (start + pageSize) / pageSize, 0, 0#8⟩

/-- The pages that a run has given slices to -/
abbrev GivenPages := Nat → Option Nat

/-- A slice that the run has given to the page, or that has translated it all along -/
def Backed (plat : Platform) (inclusive : Bool) (s₀ : RabState) (g : GivenPages) (a : BitVec 32) : Prop :=
  ∃ k < plat.nSlicesPort1, match g k with
    | some start => (pageSlice start).Contains inclusive a
    | none => (s₀.hw .port1 k).flags.has hwEn = true ∧ (s₀.hw .port1 k).Contains inclusive a

namespace Handler

variable (plat : Platform) (w : AxiWidths)

/-- The miss is handled as the first one to its page. -/
def First (h : Handler) (m : FifoMiss) : Prop :=
  m.served plat w = true ∧ h.repeats m = false ∧ m.kmalloc = true

instance (h : Handler) (m : FifoMiss) : Decidable (h.First plat w m) := inferInstanceAs (Decidable (_ ∧ _))

/-- The slice a miss takes -/
def takes (h : Handler) (m : FifoMiss) : Option Nat :=
  if h.First plat w m then
    m.page.bind fun page => missSlice plat h.rab (h.req.forMiss h.rab m.start page.1 page.2)
  else none

def given (h : Handler) (g : GivenPages) (m : FifoMiss) : GivenPages :=
  match h.takes plat w m with
  | some k => Function.update g k (some m.start)
  | none => g

/-- The first miss to a page can pin it and finds a slice and a field; where the core of a miss is woken,
a slice is there for its page. -/
structure MissOk (inclusive : Bool) (s₀ : RabState) (h : Handler) (g : GivenPages) (m : FifoMiss) : Prop where
  completes : h.First plat w m → ∃ k, h.takes plat w m = some k ∧
    h.rab.FieldLeft plat h.rab.mappingGetActive k
  backed : m.served plat w = true → m.axuser w = 0#32 → h.repeats m = true ∨ m.kmalloc = true →
    Backed plat inclusive s₀ (h.given plat w g m) m.addr

/-- All misses of a run are. -/
def RunOk (inclusive : Bool) (s₀ : RabState) : Handler → GivenPages → List FifoMiss → Prop
  | _, _, [] => True
  | h, g, m :: ms => h.MissOk plat w inclusive s₀ g m ∧
    RunOk inclusive s₀ (h.handle plat w m).1 (h.given plat w g m) ms

end Handler

section

variable {plat : Platform} {w : AxiWidths} {s s₀ : RabState} {req : SliceReq} {start pfn k i : Nat}
  {write inclusive : Bool} {h : Handler} {g : GivenPages} {m : FifoMiss}

theorem missSlice_lt (hlvl : s.ctrl.mhLvl ≠ 2) (hk : missSlice plat s req = some k) :
    k < plat.nSlicesPort1 := by
  have hpos : 0 < plat.nSlicesPort1 := by cases plat <;> decide
  rw [missSlice, if_neg hlvl] at hk
  cases hget : s.sliceGet req plat.nSlicesPort1 with
  | some k' =>
    rw [hget] at hk
    cases hk
    exact (RabState.sliceGet_spec hget).1
  | none =>
    rw [hget] at hk
    simp only at hk
    split at hk
    · cases hk
    · cases hk
      omega

/-- The state with the slice set up -/
def mapPage (plat : Platform) (s : RabState) (req : SliceReq) (pages : PageArray) : RabState :=
  let s := s.sliceSetup req (some pages)
  s.step plat (.setMh (nextMhDate plat s.ctrl req.rabSlice) s.ctrl.mhAcp s.ctrl.mhLvl)

/-- What the handling of a page comes to -/
def pageOutcome (plat : Platform) (s : RabState) (req : SliceReq) (pages : PageArray) :
    Except Err SliceReq × RabState :=
  match missSlice plat s req with
  | none => (.error .noSlice, s)
  | some k =>
    let req := { req with rabSlice := k }
    let s := s.sliceFree req
    match s.pagePtrsGetField plat.nSlicesPort1 req.rabMapping with
    | none => (.error .eio, s)
    | some i =>
      let req := { req with pagePtrIdx := i }
      (.ok req, mapPage plat s req pages)

private theorem exec_setup (s : RabState) (req : SliceReq) (pages : PageArray)
    (hrefused : s.sliceSetupRefused req = false) :
    (driver plat).exec (sliceSetup req (some pages)) s = (.ok (), s.sliceSetup req (some pages)) := by
  change (driver plat).exec (if s.sliceSetupRefused req then Prog.fail Err.eio else Prog.ret ())
    (s.sliceSetup req (some pages)) = _
  rw [hrefused]
  rfl

private theorem exec_installPage (s : RabState) (req : SliceReq) (pages : PageArray) :
    (driver plat).exec (installPage plat pages req) s =
      match (s.sliceFree req).pagePtrsGetField plat.nSlicesPort1 req.rabMapping with
      | none => (.error .eio, s.sliceFree req)
      | some i => (.ok { req with pagePtrIdx := i },
          mapPage plat (s.sliceFree req) { req with pagePtrIdx := i } pages) := by
  change (driver plat).exec ((pagePtrsGetField plat req).bind _) (s.sliceFree req) = _
  have hview : (driver plat).view (s.sliceFree req) = s.sliceFree req := rfl
  rw [exec_bind, exec_pagePtrsGetField, hview]
  cases hi : (s.sliceFree req).pagePtrsGetField plat.nSlicesPort1 req.rabMapping with
  | none => rfl
  | some i =>
    have hrefused : (s.sliceFree req).sliceSetupRefused { req with pagePtrIdx := i } = false := by
      have hzero := (RabState.pagePtrsGetField_spec hi).2
      simp [RabState.sliceSetupRefused, hzero]
    simp only [Option.elim]
    rw [exec_bind, exec_setup _ _ _ hrefused]
    rfl

theorem exec_handlePage (s : RabState) (req : SliceReq) (start : Nat) (write : Bool) (pfn : Nat) :
    (driver plat).exec (handlePage plat req start write pfn) s =
      pageOutcome plat (s.getUserPages 1) (req.forMiss s start write pfn)
        ⟨s.kernel.nextArray, start, 1⟩ := by
  change (driver plat).exec (if s.ctrl.mhLvl = 2 then
      (Prog.ret (req.forMiss s start write pfn)).bind
        (installPage plat ⟨s.kernel.nextArray, start, 1⟩)
    else ((sliceGet plat (req.forMiss s start write pfn)).handle fun e =>
      if s.ctrl.mhLvl = 1 then Prog.fail e else
        Prog.ret { req.forMiss s start write pfn with rabSlice := plat.nSlicesPort1 - 1 }).bind
        (installPage plat ⟨s.kernel.nextArray, start, 1⟩)) (s.getUserPages 1) = _
  have hlvl : (s.getUserPages 1).ctrl.mhLvl = s.ctrl.mhLvl := rfl
  rw [pageOutcome, missSlice, hlvl]
  by_cases htwo : s.ctrl.mhLvl = 2
  · rw [if_pos htwo, if_pos htwo]
    exact exec_installPage _ _ _
  · have hget : (driver plat).exec (sliceGet plat (req.forMiss s start write pfn)) (s.getUserPages 1) =
        ((s.getUserPages 1).sliceGet (req.forMiss s start write pfn) plat.nSlicesPort1).elim
          (.error .noSlice, s.getUserPages 1)
          fun k => (.ok { req.forMiss s start write pfn with rabSlice := k }, s.getUserPages 1) :=
      exec_sliceGet _
    rw [if_neg htwo, if_neg htwo, exec_bind, Interp.exec_handle, hget]
    cases (s.getUserPages 1).sliceGet (req.forMiss s start write pfn) plat.nSlicesPort1 with
    | some k => exact exec_installPage _ _ _
    | none =>
      simp only [Option.elim]
      by_cases hone : s.ctrl.mhLvl = 1
      · rw [if_pos hone, if_pos hone]
        rfl
      · rw [if_neg hone, if_neg hone]
        exact exec_installPage _ _ _

theorem mapPage_hw (plat : Platform) (s : RabState) (req : SliceReq) (pages : PageArray)
    (hport : req.rabPort = .port1) (hactive : req.rabMapping = s.l1.mappingActive)
    (hzero : s.refCntr req.rabMapping req.pagePtrIdx = 0) (k : Nat) :
    (mapPage plat s req pages).hw .port1 k = if k = req.rabSlice then
      ⟨req.addrStart / pageSize, req.addrEnd / pageSize, req.addrOffset / pageSize, req.flagsHw⟩
    else s.hw .port1 k := by
  have hconfigures : s.configures req = true := by
    rw [hactive] at hzero
    simp [RabState.configures, RabState.takesRef, RabState.sliceSetupRefused, hport, hactive, hzero]
  change (s.sliceSetup req (some pages)).hw .port1 k = _
  rw [RabState.sliceSetup_hw]
  by_cases hk : k = req.rabSlice
  · rw [if_pos ⟨hconfigures, hport.symm, hk⟩, if_pos hk]
  · rw [if_neg fun hno => hk hno.2.2, if_neg hk]

/-- Whether a field is left once the slice of a miss is freed -/
theorem fieldLeft_iff (plat : Platform) (s : RabState) (req : SliceReq) (hport : req.rabPort = .port1)
    (hflags : req.flagsDrv = 0#8) :
    ((s.sliceFree req).pagePtrsGetField plat.nSlicesPort1 req.rabMapping).isSome = true ↔
      s.FieldLeft plat req.rabMapping req.rabSlice := by
  have hconst : req.flagsDrv.has drvConst = false := by
    rw [hflags]
    decide
  have hmanaged : s.sliceIsManagedByHost req = true ↔ s.Managed req.rabSlice := by
    simp only [RabState.sliceIsManagedByHost, RabState.Managed, hport]
    cases s.ctrl.socMhIsEna <;> simp
  have hcntr : ∀ i, (s.sliceFree req).refCntr req.rabMapping i = 0 ↔ s.refCntr req.rabMapping i =
      if s.Managed req.rabSlice ∧ i = (s.slice req.rabMapping req.rabSlice).pagePtrIdx ∧
        (s.pagePtr req.rabMapping i).isSome = true then 1 else 0 := by
    intro i
    have hsub : sub32 (s.refCntr req.rabMapping i) 1 = 0 ↔ s.refCntr req.rabMapping i = 1 := by
      rw [sub32]
      split <;> omega
    have hunrefs : s.unrefs req = true ∧ i = (s.slice req.rabMapping req.rabSlice).pagePtrIdx ↔
        s.Managed req.rabSlice ∧ i = (s.slice req.rabMapping req.rabSlice).pagePtrIdx ∧
          (s.pagePtr req.rabMapping i).isSome = true := by
      rw [← hmanaged]
      constructor
      · intro hno
        obtain ⟨hno, rfl⟩ := hno
        simpa [RabState.unrefs, RabState.pagesOld, hport, hconst] using hno
      · intro hno
        obtain ⟨hno, rfl, hsome⟩ := hno
        simp [RabState.unrefs, RabState.pagesOld, hport, hno, hsome]
    rw [RabState.sliceFree_refCntr]
    by_cases hno : s.unrefs req = true ∧ i = (s.slice req.rabMapping req.rabSlice).pagePtrIdx
    · rw [if_pos ⟨hno.1, rfl, hno.2⟩, if_pos (hunrefs.mp hno), hsub]
    · rw [if_neg fun h => hno ⟨h.1, h.2.2⟩, if_neg fun h => hno (hunrefs.mpr h)]
  rw [RabState.FieldLeft]
  simp only [← hcntr]
  rw [RabState.pagePtrsGetField, List.find?_isSome]
  simp

namespace Handler

/-- The handler once it has read a miss -/
def read (h : Handler) (m : FifoMiss) : Handler := { h with earlier := h.earlier ++ [m.addr.toNat] }

/-- What handling a miss does. -/
inductive Handles (plat : Platform) (w : AxiWidths) (h : Handler) (m : FifoMiss) :
    Handler × List Effect → Prop
  | rejected (hserved : m.served plat w = false) : Handles plat w h m (h.read m, [])
  | repeated (hserved : m.served plat w = true) (hrepeats : h.repeats m = true) :
    Handles plat w h m (h.read m, m.wakeUp w)
  | noMemory (hserved : m.served plat w = true) (hrepeats : h.repeats m = false)
    (hkmalloc : m.kmalloc = false) : Handles plat w h m (h.read m, [.report .enomem])
  | failed (hfirst : h.First plat w m)
    (hfails : ¬ ∃ k, h.takes plat w m = some k ∧ h.rab.FieldLeft plat h.rab.mappingGetActive k)
    (h' : Handler) (pins : List Pin) (e : Err) (hearlier : h'.earlier = (h.read m).earlier) :
    Handles plat w h m (h', .kmalloc :: pins.map .pin ++ [.report e])
  | mapped (hfirst : h.First plat w m) (k : Nat) (htakes : h.takes plat w m = some k)
    (hfield : h.rab.FieldLeft plat h.rab.mappingGetActive k) (h' : Handler) (p : Pin)
    (hearlier : h'.earlier = (h.read m).earlier)
    (hrest : ∀ k', k' ≠ k → h'.rab.hw .port1 k' = h.rab.hw .port1 k')
    (hset : (h'.rab.hw .port1 k).flags.has hwEn = true ∧
      (h'.rab.hw .port1 k).addrStart = (pageSlice m.start).addrStart ∧
      (h'.rab.hw .port1 k).addrEnd = (pageSlice m.start).addrEnd) :
    Handles plat w h m (h', [.kmalloc, .pin p, .map m.start k] ++ m.wakeUp w)

private theorem has_missFlags (write acp : Bool) : (missFlags write acp).has hwEn = true := by
  cases write <;> cases acp <;> decide

private theorem handles_first (hfirst : h.First plat w m) (hpage : m.page = some (write, pfn)) :
    Handles plat w h m (h.handle plat w m) := by
  let s := h.rab.getUserPages 1
  let r := h.req.forMiss h.rab m.start write pfn
  have htakes : h.takes plat w m = missSlice plat s r := by
    rw [takes, if_pos hfirst, hpage]
    rfl
  rw [handle, if_pos hfirst.1, hfirst.2.1, if_neg Bool.false_ne_true, if_pos hfirst.2.2, hpage]
  simp only
  rw [exec_handlePage, pageOutcome]
  cases hslice : missSlice plat s r with
  | none =>
    have hfails : ¬ ∃ k, h.takes plat w m = some k ∧ h.rab.FieldLeft plat h.rab.mappingGetActive k := by
      intro hno
      obtain ⟨k, hk, -⟩ := hno
      rw [htakes, hslice] at hk
      cases hk
    exact .failed hfirst hfails { h.read m with rab := s } [⟨h.rab.kernel.nextArray, 0⟩] .noSlice rfl
  | some k =>
    have hleft := fieldLeft_iff plat s { r with rabSlice := k } rfl rfl
    simp only
    cases hfield : (s.sliceFree { r with rabSlice := k }).pagePtrsGetField plat.nSlicesPort1
        r.rabMapping with
    | none =>
      have hfails : ¬ ∃ k, h.takes plat w m = some k ∧
          h.rab.FieldLeft plat h.rab.mappingGetActive k := by
        intro hno
        obtain ⟨k', hk', hno⟩ := hno
        rw [htakes, hslice] at hk'
        cases hk'
        have hsome := hleft.mpr hno
        change ((s.sliceFree { r with rabSlice := k }).pagePtrsGetField plat.nSlicesPort1
          r.rabMapping).isSome = true at hsome
        rw [hfield] at hsome
        cases hsome
      exact .failed hfirst hfails { h.read m with rab := s.sliceFree { r with rabSlice := k } }
        [⟨h.rab.kernel.nextArray, 0⟩] .eio rfl
    | some i =>
      have hzero := (RabState.pagePtrsGetField_spec hfield).2
      have hactive : r.rabMapping = (s.sliceFree { r with rabSlice := k }).l1.mappingActive :=
        (s.sliceFree_frame _).1.symm
      have hhw := mapPage_hw plat (s.sliceFree { r with rabSlice := k })
        { r with rabSlice := k, pagePtrIdx := i } ⟨h.rab.kernel.nextArray, m.start, 1⟩ rfl hactive hzero
      have hleft' : h.rab.FieldLeft plat h.rab.mappingGetActive k := by
        apply hleft.mp
        change ((s.sliceFree { r with rabSlice := k }).pagePtrsGetField plat.nSlicesPort1
          r.rabMapping).isSome = true
        rw [hfield]
        rfl
      let req : SliceReq := { r with rabSlice := k, pagePtrIdx := i }
      let t := mapPage plat (s.sliceFree { r with rabSlice := k }) req
        ⟨h.rab.kernel.nextArray, m.start, 1⟩
      have hrest : ∀ k', k' ≠ k → t.hw .port1 k' = h.rab.hw .port1 k' := by
        intro k' hk'
        rw [hhw, if_neg hk', RabState.sliceFree_hw, if_neg fun hno => hk' hno.2.2]
        rfl
      have hset : (t.hw .port1 k).flags.has hwEn = true ∧
          (t.hw .port1 k).addrStart = (pageSlice m.start).addrStart ∧
          (t.hw .port1 k).addrEnd = (pageSlice m.start).addrEnd := by
        rw [hhw, if_pos rfl]
        exact ⟨has_missFlags _ _, rfl, rfl⟩
      exact .mapped hfirst k (htakes.trans hslice) hleft' { h.read m with rab := t, req := req }
        ⟨h.rab.kernel.nextArray, 0⟩ rfl hrest hset

theorem handles (plat : Platform) (w : AxiWidths) (h : Handler) (m : FifoMiss) :
    Handles plat w h m (h.handle plat w m) := by
  cases hserved : m.served plat w with
  | false =>
    rw [handle, hserved]
    exact .rejected hserved
  | true =>
    cases hrepeats : h.repeats m with
    | true =>
      rw [handle, hserved, hrepeats]
      exact .repeated hserved hrepeats
    | false =>
      cases hkmalloc : m.kmalloc with
      | false =>
        rw [handle, hserved, hrepeats, hkmalloc]
        exact .noMemory hserved hrepeats hkmalloc
      | true =>
        have hfirst : h.First plat w m := ⟨hserved, hrepeats, hkmalloc⟩
        cases hpage : m.page with
        | some page => exact handles_first hfirst hpage
        | none =>
          have hfails : ¬ ∃ k, h.takes plat w m = some k ∧
              h.rab.FieldLeft plat h.rab.mappingGetActive k := by
            intro hno
            obtain ⟨k, hk, -⟩ := hno
            rw [takes, if_pos hfirst, hpage] at hk
            cases hk
          rw [handle, hserved, hrepeats, hkmalloc, hpage]
          exact .failed hfirst hfails (h.read m) [] .fault rfl

end Handler

/-- The hardware slices that the run has given to pages translate them, the others are as before. -/
def HoldsGiven (s₀ : RabState) (g : GivenPages) (s : RabState) : Prop := ∀ k, match g k with
  | some start => (s.hw .port1 k).flags.has hwEn = true ∧
    (s.hw .port1 k).addrStart = (pageSlice start).addrStart ∧
    (s.hw .port1 k).addrEnd = (pageSlice start).addrEnd
  | none => s.hw .port1 k = s₀.hw .port1 k

theorem HoldsGiven.translates_iff (hg : HoldsGiven s₀ g s) (plat : Platform) (inclusive : Bool)
    (a : BitVec 32) :
    Translates plat inclusive s a ↔ Backed plat inclusive s₀ g a := by
  apply exists_congr
  intro k
  apply and_congr_right
  intro _
  have hk := hg k
  cases hgk : g k with
  | none =>
    rw [hgk] at hk
    rw [hk]
  | some start =>
    rw [hgk] at hk
    obtain ⟨hen, hstart, hend⟩ := hk
    simp only [hen, true_and, HwSlice.Contains, hstart, hend]

namespace Handler

private theorem mem_wakeUp {c p : Nat} : Effect.wake c p ∈ m.wakeUp w ↔
    m.axuser w = 0#32 ∧ c = m.idCluster w ∧ p = m.idPe w := by
  rw [FifoMiss.wakeUp]
  split
  · next hzero => simp [hzero]
  · next hzero => simp [hzero]

private theorem report_wakeUp {e : Err} : Effect.report e ∉ m.wakeUp w := by
  rw [FifoMiss.wakeUp]
  split <;> simp

private theorem mapped_wakeUp : ((m.wakeUp w).filterMap fun
    | .map start _ => some start
    | _ => none) = ([] : List Nat) := by
  rw [FifoMiss.wakeUp]
  split <;> rfl

/-- A miss that takes no slice -/
theorem given_of_not_first (hfirst : ¬ h.First plat w m) : h.given plat w g m = g := by
  rw [given, takes, if_neg hfirst]

/-- On the first level, a slice is there for the page of the first miss to it. -/
theorem backed_of_takes (hlvl : h.rab.ctrl.mhLvl ≠ 2) (hlast : m.start + pageSize < 2 ^ 32)
    (htakes : h.takes plat w m = some k) : Backed plat inclusive s₀ (h.given plat w g m) m.addr := by
  have hslice : ∃ page : Bool × Nat, missSlice plat h.rab (h.req.forMiss h.rab m.start page.1 page.2) = some k := by
    rw [takes] at htakes
    split at htakes
    · obtain ⟨page, -, hpage⟩ := Option.bind_eq_some_iff.mp htakes
      exact ⟨page, hpage⟩
    · cases htakes
  obtain ⟨page, hpage⟩ := hslice
  refine ⟨k, missSlice_lt hlvl hpage, ?_⟩
  have hgiven : h.given plat w g m k = some m.start := by
    rw [given, htakes]
    exact Function.update_self ..
  rw [hgiven]
  have hstart : m.start = m.addr.toNat / pageSize * pageSize := rfl
  have hend : (m.start + pageSize) / pageSize = m.addr.toNat / pageSize + 1 := by
    rw [hstart, ← Nat.succ_mul, Nat.mul_div_cancel _ (by decide)]
  have hpageSlice : pageSlice m.start =
      ⟨m.addr.toNat / pageSize, m.addr.toNat / pageSize + 1, 0, 0#8⟩ := by
    rw [pageSlice, u32, Nat.mod_eq_of_lt hlast, hend, hstart, Nat.mul_div_cancel _ (by decide)]
  change (pageSlice m.start).Contains inclusive m.addr
  rw [hpageSlice]
  refine ⟨le_rfl, ?_⟩
  split <;> simp

/-- What the run has given away after a miss -/
theorem holdsGiven_handle (plat : Platform) (w : AxiWidths) (m : FifoMiss) (hg : HoldsGiven s₀ g h.rab)
    (hok : h.First plat w m → ∃ k, h.takes plat w m = some k ∧ h.rab.FieldLeft plat h.rab.mappingGetActive k) :
    HoldsGiven s₀ (h.given plat w g m) (h.handle plat w m).1.rab := by
  have hcases := h.handles plat w m
  generalize h.handle plat w m = out at hcases ⊢
  cases hcases with
  | rejected hserved =>
    rw [given_of_not_first fun hno => by rw [hno.1] at hserved; cases hserved]
    exact hg
  | repeated hserved hrepeats =>
    rw [given_of_not_first fun hno => by rw [hno.2.1] at hrepeats; cases hrepeats]
    exact hg
  | noMemory hserved hrepeats hkmalloc =>
    rw [given_of_not_first fun hno => by rw [hno.2.2] at hkmalloc; cases hkmalloc]
    exact hg
  | failed hfirst hfails => exact absurd (hok hfirst) hfails
  | mapped hfirst k htakes hfield h' p hearlier hrest hset =>
    have hgiven : h.given plat w g m = Function.update g k (some m.start) := by rw [given, htakes]
    rw [hgiven]
    intro k'
    by_cases hk : k' = k
    · subst hk
      rw [Function.update_self]
      exact hset
    · rw [Function.update_of_ne hk, hrest k' hk]
      exact hg k'

/-- A miss is answered soundly and keeps nothing exactly if it is all right. -/
theorem handle_iff (hg : HoldsGiven s₀ g h.rab) :
    (Handled.WakesTranslated plat w inclusive ⟨m, (h.handle plat w m).2, (h.handle plat w m).1.rab⟩ ∧
      Handled.GivesBack ⟨m, (h.handle plat w m).2, (h.handle plat w m).1.rab⟩) ↔
      h.MissOk plat w inclusive s₀ g m := by
  have hafter := holdsGiven_handle plat w m hg
  have hcases := h.handles plat w m
  generalize h.handle plat w m = out at hcases hafter ⊢
  cases hcases with
  | rejected hserved =>
    have hfirst : ¬ h.First plat w m := fun hno => by rw [hno.1] at hserved; cases hserved
    refine iff_of_true ⟨?_, ?_⟩ ⟨fun hno => absurd hno hfirst, fun hno => ?_⟩
    · intro c p hwake
      cases hwake
    · intro hreport
      obtain ⟨e, hreport⟩ := hreport
      cases hreport
    · rw [hserved] at hno
      cases hno
  | repeated hserved hrepeats =>
    have hfirst : ¬ h.First plat w m := fun hno => by rw [hno.2.1] at hrepeats; cases hrepeats
    have htranslates := (hafter fun hno => absurd hno hfirst).translates_iff plat inclusive
      m.addr
    constructor
    · intro hsound
      refine ⟨fun hno => absurd hno hfirst, ?_⟩
      intro _ hzero _
      exact htranslates.mp (hsound.1 _ _ (mem_wakeUp.mpr ⟨hzero, rfl, rfl⟩)).2.2
    · intro hok
      refine ⟨?_, ?_⟩
      · intro c p hwake
        obtain ⟨hzero, hc, hp⟩ := mem_wakeUp.mp hwake
        exact ⟨hc, hp, htranslates.mpr (hok.backed hserved hzero (Or.inl hrepeats))⟩
      · intro hreport
        obtain ⟨e, hreport⟩ := hreport
        exact absurd hreport report_wakeUp
  | noMemory hserved hrepeats hkmalloc =>
    have hfirst : ¬ h.First plat w m := fun hno => by rw [hno.2.2] at hkmalloc; cases hkmalloc
    refine iff_of_true ⟨?_, ?_⟩ ⟨fun hno => absurd hno hfirst, fun _ _ hno => ?_⟩
    · intro c p hwake
      simp at hwake
    · intro _
      simp
    · rw [hrepeats, hkmalloc] at hno
      simp at hno
  | failed hfirst hfails h' pins e =>
    refine iff_of_false ?_ fun hok => hfails (hok.completes hfirst)
    intro hsound
    have hgone := (hsound.2 ⟨e, by simp⟩).1 (by simp)
    simp at hgone
  | mapped hfirst k htakes hfield h' p hearlier hrest hset =>
    have htranslates := (hafter fun _ => ⟨k, htakes, hfield⟩).translates_iff plat inclusive
      m.addr
    constructor
    · intro hsound
      refine ⟨fun _ => ⟨k, htakes, hfield⟩, ?_⟩
      intro _ hzero _
      have hwake : Effect.wake (m.idCluster w) (m.idPe w) ∈
          [.kmalloc, .pin p, .map m.start k] ++ m.wakeUp w :=
        List.mem_append_right _ (mem_wakeUp.mpr ⟨hzero, rfl, rfl⟩)
      exact htranslates.mp (hsound.1 _ _ hwake).2.2
    · intro hok
      refine ⟨?_, ?_⟩
      · intro c q hwake
        have hwake' : Effect.wake c q ∈ m.wakeUp w := by simpa using hwake
        obtain ⟨hzero, hc, hq⟩ := mem_wakeUp.mp hwake'
        exact ⟨hc, hq, htranslates.mpr (hok.backed hfirst.1 hzero (Or.inr hfirst.2.2))⟩
      · intro hreport
        obtain ⟨e, hreport⟩ := hreport
        have hreport' : Effect.report e ∈ m.wakeUp w := by simpa using hreport
        exact absurd hreport' report_wakeUp

/-- A run is sound and keeps nothing exactly if its misses are all right. -/
theorem run_iff (ms : List FifoMiss) (hg : HoldsGiven s₀ g h.rab) :
    (∀ x ∈ h.run plat w ms, x.WakesTranslated plat w inclusive ∧ x.GivesBack) ↔
      RunOk plat w inclusive s₀ h g ms := by
  induction ms generalizing h g with
  | nil => exact iff_of_true (fun x hx => by cases hx) trivial
  | cons m ms ih =>
    rw [run, List.forall_mem_cons, RunOk, handle_iff hg]
    apply and_congr_right
    intro hok
    exact ih (holdsGiven_handle plat w m hg hok.completes)

theorem repeats_eq_false : h.repeats m = false ↔ ∀ addr ∈ h.earlier, pageBase addr ≠ m.start := by
  simp [repeats]

/-- A miss maps its own page, and only if it is the first one to it. -/
theorem mapped_handle (h : Handler) (m : FifoMiss) (after : RabState) :
    Handled.mapped ⟨m, (h.handle plat w m).2, after⟩ = [] ∨
      Handled.mapped ⟨m, (h.handle plat w m).2, after⟩ = [m.start] ∧ h.repeats m = false ∧
        (m.axuser w = 0#32 → .wake (m.idCluster w) (m.idPe w) ∈ (h.handle plat w m).2) := by
  have hcases := h.handles plat w m
  generalize h.handle plat w m = out at hcases ⊢
  cases hcases with
  | rejected hserved => exact Or.inl rfl
  | repeated hserved hrepeats => exact Or.inl mapped_wakeUp
  | noMemory hserved hrepeats hkmalloc => exact Or.inl rfl
  | failed hfirst hfails h' pins e => exact Or.inl (by simp [Handled.mapped, List.filterMap_append])
  | mapped hfirst k htakes hfield h' p hearlier hrest hset =>
    refine Or.inr ⟨?_, hfirst.2.1, ?_⟩
    · rw [Handled.mapped, List.filterMap_append, mapped_wakeUp]
      rfl
    · intro hzero
      exact List.mem_append_right _ (mem_wakeUp.mpr ⟨hzero, rfl, rfl⟩)

theorem earlier_handle (h : Handler) (m : FifoMiss) :
    (h.handle plat w m).1.earlier = h.earlier ++ [m.addr.toNat] := by
  have hcases := h.handles plat w m
  generalize h.handle plat w m = out at hcases ⊢
  cases hcases with
  | failed hfirst hfails h' pins e hearlier => exact hearlier
  | mapped hfirst k htakes hfield h' p hearlier => exact hearlier
  | _ => rfl

/-- No page is mapped that has been missed before. -/
theorem run_fresh (h : Handler) (ms : List FifoMiss) {start addr : Nat}
    (hstart : start ∈ (h.run plat w ms).flatMap Handled.mapped) (haddr : addr ∈ h.earlier) :
    pageBase addr ≠ start := by
  induction ms generalizing h with
  | nil => cases hstart
  | cons m ms ih =>
    rw [run, List.flatMap_cons, List.mem_append] at hstart
    cases hstart with
    | inl hfirst =>
      cases h.mapped_handle m _ with
      | inl hnone =>
        rw [hnone] at hfirst
        cases hfirst
      | inr hone =>
        rw [hone.1, List.mem_singleton] at hfirst
        rw [hfirst]
        exact repeats_eq_false.mp hone.2.1 addr haddr
    | inr hrest =>
      apply ih (h.handle plat w m).1 hrest
      rw [earlier_handle]
      exact List.mem_append_left _ haddr

theorem run_once (h : Handler) (ms : List FifoMiss) :
    ((h.run plat w ms).flatMap Handled.mapped).Nodup := by
  induction ms generalizing h with
  | nil => exact List.nodup_nil
  | cons m ms ih =>
    rw [run, List.flatMap_cons]
    cases h.mapped_handle m _ with
    | inl hnone =>
      rw [hnone, List.nil_append]
      exact ih _
    | inr hone =>
      rw [hone.1, List.singleton_append, List.nodup_cons]
      refine ⟨?_, ih _⟩
      intro hrest
      have haddr : m.addr.toNat ∈ (h.handle plat w m).1.earlier := by
        rw [earlier_handle]
        exact List.mem_append_right _ List.mem_cons_self
      exact run_fresh _ ms hrest haddr rfl

/-- A miss to a page that has been missed before is answered at once. -/
theorem run_repeated (h : Handler) (ms : List FifoMiss) {x : Handled} (hx : x ∈ h.run plat w ms)
    (hserved : x.miss.served plat w = true) {addr : Nat} (haddr : addr ∈ h.earlier)
    (hpage : pageBase addr = x.miss.start) : x.effects = x.miss.wakeUp w := by
  induction ms generalizing h with
  | nil => cases hx
  | cons m ms ih =>
    rw [run, List.mem_cons] at hx
    cases hx with
    | inl hx =>
      subst hx
      have hrepeats : h.repeats m = true := by
        rw [← Bool.not_eq_false, repeats_eq_false]
        exact fun hno => hno addr haddr hpage
      change (h.handle plat w m).2 = m.wakeUp w
      rw [handle, if_pos hserved, if_pos hrepeats]
    | inr hx =>
      apply ih (h.handle plat w m).1 hx
      rw [earlier_handle]
      exact List.mem_append_left _ haddr

theorem run_wakes (h : Handler) (ms : List FifoMiss) {x : Handled} (hx : x ∈ h.run plat w ms)
    (hserved : x.miss.served plat w = true) (hzero : x.miss.axuser w = 0#32)
    (hmapped : x.miss.start ∈ (h.run plat w ms).flatMap Handled.mapped) :
    .wake (x.miss.idCluster w) (x.miss.idPe w) ∈ x.effects := by
  induction ms generalizing h with
  | nil => cases hx
  | cons m ms ih =>
    have haddr : m.addr.toNat ∈ (h.handle plat w m).1.earlier := by
      rw [earlier_handle]
      exact List.mem_append_right _ List.mem_cons_self
    rw [run, List.flatMap_cons, List.mem_append] at hmapped
    rw [run, List.mem_cons] at hx
    cases hx with
    | inl hx =>
      subst hx
      cases hmapped with
      | inl hmapped =>
        cases h.mapped_handle m _ with
        | inl hnone =>
          rw [hnone] at hmapped
          cases hmapped
        | inr hone => exact hone.2.2 hzero
      | inr hmapped => exact absurd rfl (run_fresh _ ms hmapped haddr)
    | inr hx =>
      cases hmapped with
      | inl hmapped =>
        cases h.mapped_handle m _ with
        | inl hnone =>
          rw [hnone] at hmapped
          cases hmapped
        | inr hone =>
          rw [hone.1, List.mem_singleton] at hmapped
          rw [run_repeated _ ms hx hserved haddr hmapped.symm]
          exact mem_wakeUp.mpr ⟨hzero, rfl, rfl⟩
      | inr hmapped => exact ih _ hx hmapped

end Handler

end

/-- A run of the handler wakes cores soundly if and only if all its misses are all right: the first one to
each page succeeds once it has acquired memory, and where a core is woken the run has given a slice to its
page, or left it the one it had. -/
theorem wakesSoundly_iff (plat : Platform) (w : AxiWidths) (inclusive : Bool) (stack : SliceReq)
    (s : RabState) (fifo : List FifoMiss) :
    WakesSoundly plat w inclusive (rabHandleFifo plat w stack s fifo) ↔
      Handler.RunOk plat w inclusive s ⟨s, stack, []⟩ (fun _ => none) (readMisses plat fifo) := by
  have hg : HoldsGiven s (fun _ => none) s := fun _ => rfl
  rw [← Handler.run_iff (readMisses plat fifo) hg]
  constructor
  · exact fun h x hx => ⟨h.sound x hx, h.givesBack x hx⟩
  · intro h
    refine ⟨fun x hx => (h x hx).1, Handler.run_once _ _, ?_, fun x hx => (h x hx).2⟩
    exact fun x hx hserved hzero hmapped => Handler.run_wakes _ _ hx hserved hzero hmapped

/-- The widths on Juno -/
def AxiWidths.bigpulp : AxiWidths := ⟨4, 2, 3, 6⟩

/-- A miss of a core of the first cluster, to a page in the given frame -/
def FifoMiss.ofCore (pe : BitVec 32) (addr : BitVec 32) (pinWrite : Pinning) : FifoMiss :=
  ⟨0x220#32 ||| pe, addr, true, pinWrite, .failed⟩

/-- A miss from another port of the cluster -/
def FifoMiss.foreign (addr : BitVec 32) : FifoMiss := ⟨0x200#32, addr, true, .failed, .failed⟩

/-- A run of the handler on Juno that serves misses on the first level -/
def handledOnJuno (fifo : List FifoMiss) : List Handled :=
  rabHandleFifo .juno .bigpulp .blank ((afterSetup .juno).mhEna .juno false) fifo

/-- After a miss to its page that is not handled, a core is woken without a translation; a miss that
cannot be pinned keeps its list. -/
theorem not_wakesSoundly :
    (¬ ∃ inclusive, WakesSoundly .juno .bigpulp inclusive
      (handledOnJuno [.foreign 0x10000#32, .ofCore 0#32 0x10000#32 (.pinned 5)])) ∧
    ¬ ∃ inclusive, WakesSoundly .juno .bigpulp inclusive
      (handledOnJuno [.ofCore 0#32 0x10000#32 .failed]) := by
  constructor
  · intro h
    obtain ⟨inclusive, h⟩ := h
    have hwoken : ∃ x ∈ handledOnJuno [.foreign 0x10000#32, .ofCore 0#32 0x10000#32 (.pinned 5)],
        .wake 0 0 ∈ x.effects ∧ ∀ inclusive, ¬ Translates .juno inclusive x.after x.miss.addr := by
      decide +kernel
    obtain ⟨x, hx, hwake, hno⟩ := hwoken
    exact hno inclusive (h.sound x hx 0 0 hwake).2.2
  · intro h
    obtain ⟨inclusive, h⟩ := h
    have hkept : ∃ x ∈ handledOnJuno [.ofCore 0#32 0x10000#32 .failed],
        .report .fault ∈ x.effects ∧ .kmalloc ∈ x.effects ∧ .kfree ∉ x.effects := by
      decide +kernel
    obtain ⟨x, hx, hreport, hkmalloc, hno⟩ := hkept
    exact hno ((h.givesBack x hx ⟨.fault, hreport⟩).1 hkmalloc)

end Hero.Rab
