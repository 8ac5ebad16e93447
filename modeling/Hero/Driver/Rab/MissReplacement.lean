import Hero.Driver.Rab.Rules
import Hero.Framework.RoundRobin

/-!
# Replacement by the miss handler

The host handles misses on the first level.  It replaces the slices of the active mapping in turn,
as long as the last slice is one of them: the date advances only with the last slice.
-/

namespace Hero.Rab

open Driver Flags Interp RoundRobin

/-- A slice that is fixed, or that expires at none of the dates of misses. -/
def L1EntryPort0.Blocked (e : L1EntryPort0) : Prop := e.fixed = true ∨ maxDateMh < e.dateExp

instance (e : L1EntryPort0) : Decidable e.Blocked := inferInstanceAs (Decidable (_ ∨ _))

/-- A slice of the active mapping that misses may replace. -/
def Replaceable (plat : Platform) (s : RabState) (k : Nat) : Prop :=
  k < plat.nSlicesPort1 ∧ ¬ (s.slice s.mappingGetActive k).Blocked

instance (plat : Platform) (s : RabState) (k : Nat) : Decidable (Replaceable plat s k) :=
  inferInstanceAs (Decidable (_ ∧ _))

/-- The driver with the slices that were set up for misses, the last one first. -/
structure Replacing where
  rab : RabState
  order : List Nat

namespace Replacing

def step (plat : Platform) (g : Replacing) (c : Call) : Replacing :=
  ⟨g.rab.step plat c, match c with
    | .sliceSetup req _ => req.rabSlice :: g.order
    | _ => g.order⟩

/-- A slice is found for every miss, and the slices that may be replaced are replaced in turn. -/
def Cyclic (p : Nat → Prop) (g : Replacing) : Call → Prop
  | .sliceFree req | .sliceSetup req _ => req.rabPort = .port1 ∧
    req.rabMapping = g.rab.mappingGetActive ∧ InTurn p g.order req.rabSlice
  | .report e => e ≠ .noSlice
  | _ => True

end Replacing

def replacing (plat : Platform) : Interp RabState Call Replacing := ⟨Replacing.rab, Replacing.step plat⟩

/-- Misses that are handled in any number of runs of the handler. -/
def missRuns (plat : Platform) (runs : List (SliceReq × List Miss)) : Op Unit :=
  Prog.session (runs.map fun (stack, misses) => rabHandleMiss plat stack misses)

/-- The host handles all misses on the first level from now on. -/
def RabState.mhEna (plat : Platform) (s : RabState) (acp : Bool) : RabState :=
  ((driver plat).exec (rabMhEna acp 1) s).2

/-- All misses are served, by replacing slices in turn. -/
def ReplacesInTurn (plat : Platform) (s : RabState) (acp : Bool) : Prop :=
  ∀ runs, (replacing plat).Along (fun g c => g.Cyclic (Replaceable plat s) c) (missRuns plat runs)
    ⟨s.mhEna plat acp, []⟩

/-- The host manages all slices, and those that may be replaced are not in use. -/
structure MissStart (plat : Platform) (s : RabState) : Prop where
  host : s.ctrl.socMhIsEna = false
  free : ∀ k, Replaceable plat s k → (s.slice s.mappingGetActive k).dateExp = 0

/-- The fields for lists of pages that no slice refers to. -/
def freeFields (plat : Platform) (s : RabState) (m : Nat) : Finset Nat :=
  (Finset.range plat.nSlicesPort1).filter fun i => s.refCntr m i = 0

/-- There is a field for each slice that may be replaced, and freeing them changes no field. -/
structure FieldsSuffice (plat : Platform) (s : RabState) : Prop where
  unlisted : ∀ k, Replaceable plat s k →
    s.pagePtr s.mappingGetActive (s.slice s.mappingGetActive k).pagePtrIdx = none
  enough : (remaining (Replaceable plat s) plat.nSlicesPort1 0).card ≤
    (freeFields plat s s.mappingGetActive).card

section

variable {plat : Platform} {s : RabState} {req : SliceReq}

/-- What handling a page returns and leaves, on the first level. -/
private inductive PageOutcome (plat : Platform) (g : Replacing) (req : SliceReq) (pages : PageArray) :
    Except Err SliceReq → Replacing → Prop
  | noSlice (hget : g.rab.sliceGet req plat.nSlicesPort1 = none) :
    PageOutcome plat g req pages (.error .noSlice) ⟨g.rab, g.order⟩
  | noField (k : Nat) (hget : g.rab.sliceGet req plat.nSlicesPort1 = some k)
    (hfield : (g.rab.sliceFree { req with rabSlice := k }).pagePtrsGetField plat.nSlicesPort1
      req.rabMapping = none) :
    PageOutcome plat g req pages (.error .eio)
      ⟨g.rab.sliceFree { req with rabSlice := k }, g.order⟩
  | mapped (k i : Nat) (s : RabState) (hget : g.rab.sliceGet req plat.nSlicesPort1 = some k)
    (hfield : (g.rab.sliceFree { req with rabSlice := k }).pagePtrsGetField plat.nSlicesPort1
      req.rabMapping = some i)
    (hs : s = (g.rab.sliceFree { req with rabSlice := k }).sliceSetup
      { req with rabSlice := k, pagePtrIdx := i } (some pages)) :
    PageOutcome plat g req pages (.ok { req with rabSlice := k, pagePtrIdx := i })
      ⟨s.step plat (.setMh (nextMhDate plat s.ctrl k) s.ctrl.mhAcp s.ctrl.mhLvl), k :: g.order⟩

/-- Free the slice and set it up for the page. -/
def installPage (plat : Platform) (pages : PageArray) (req : SliceReq) : Op SliceReq :=
  Prog.call (.sliceFree req) ((pagePtrsGetField plat req).bind fun req =>
    (sliceSetup req (some pages)).bind fun _ => Prog.read fun s =>
      Prog.call (.setMh (nextMhDate plat s.ctrl req.rabSlice) s.ctrl.mhAcp s.ctrl.mhLvl) (Prog.ret req))

private theorem triple_installPage {p : Nat → Prop} {g : Replacing} {k : Nat} {pages : PageArray}
    (hport : req.rabPort = .port1) (hactive : req.rabMapping = g.rab.mappingGetActive)
    (hget : g.rab.sliceGet req plat.nSlicesPort1 = some k) (hturn : InTurn p g.order k) :
    (replacing plat).Triple always (fun g c => g.Cyclic p c) (fun g' => g' = g)
      (installPage plat pages { req with rabSlice := k }) (PageOutcome plat g req pages) := by
  apply Triple.call
  · rintro g' rfl -
    exact ⟨hport, hactive, hturn⟩
  apply Triple.bind (R := fun req' g' => ∃ i, g' = ⟨g.rab.sliceFree { req with rabSlice := k }, g.order⟩ ∧
    (g.rab.sliceFree { req with rabSlice := k }).pagePtrsGetField plat.nSlicesPort1 req.rabMapping =
      some i ∧ req' = { req with rabSlice := k, pagePtrIdx := i })
  · apply triple_pagePtrsGetField
    · rintro g' i ⟨_, rfl, -, rfl⟩ hi
      exact ⟨i, rfl, hi, rfl⟩
    · rintro g' ⟨_, rfl, -, rfl⟩ hnone
      exact .noField k hget hnone
  · intro req'
    apply Triple.of_states
    rintro g' ⟨i, rfl, hi, rfl⟩
    have hrefused : (g.rab.sliceFree { req with rabSlice := k }).sliceSetupRefused
        { req with rabSlice := k, pagePtrIdx := i } = false := by
      have hzero := (RabState.pagePtrsGetField_spec hi).2
      simp [RabState.sliceSetupRefused, hzero]
    apply Triple.bind (R := fun _ g' => g' = ⟨(g.rab.sliceFree { req with rabSlice := k }).sliceSetup
      { req with rabSlice := k, pagePtrIdx := i } (some pages), k :: g.order⟩)
    · apply triple_sliceSetup
      · rintro g' rfl -
        refine ⟨hport, ?_, hturn⟩
        exact hactive.trans (g.rab.sliceFree_frame _).1.symm
      · rintro g' rfl -
        rw [show ((replacing plat).view ⟨g.rab.sliceFree { req with rabSlice := k }, g.order⟩).sliceSetupRefused
          { req with rabSlice := k, pagePtrIdx := i } = false from hrefused]
        rfl
    · intro _
      apply Triple.read
      intro s
      apply Triple.call fun _ _ _ => trivial
      apply Triple.ret
      rintro g' ⟨_, ⟨rfl, rfl⟩, -, rfl⟩
      exact .mapped k i _ hget hi rfl

/-- The state with the page pinned. -/
private def Replacing.pin (g : Replacing) : Replacing := ⟨g.rab.getUserPages 1, g.order⟩

private theorem triple_handlePage {p : Nat → Prop} {g : Replacing} {start pfn : Nat} {write : Bool}
    (hlvl : g.rab.ctrl.mhLvl = 1)
    (hturn : ∀ k, g.pin.rab.sliceGet (req.forMiss g.pin.rab start write pfn) plat.nSlicesPort1 = some k →
      InTurn p g.order k) :
    (replacing plat).Triple always (fun g c => g.Cyclic p c) (fun g' => g' = g)
      (handlePage plat req start write pfn)
      (PageOutcome plat g.pin (req.forMiss g.pin.rab start write pfn)
        ⟨g.rab.kernel.nextArray, start, 1⟩) := by
  change (replacing plat).Triple _ _ _ (Prog.read fun s₀ => Prog.call (.getUserPages 1 (min 1 1))
    (Prog.read fun s => if s.ctrl.mhLvl = 2 then
        (Prog.ret (req.forMiss s start write pfn)).bind
          (installPage plat ⟨s₀.kernel.nextArray, start, 1⟩)
      else ((sliceGet plat (req.forMiss s start write pfn)).handle fun e =>
        if s.ctrl.mhLvl = 1 then Prog.fail e else
          Prog.ret { req.forMiss s start write pfn with rabSlice := plat.nSlicesPort1 - 1 }).bind
          (installPage plat ⟨s₀.kernel.nextArray, start, 1⟩))) _
  apply Triple.read
  intro s₀
  apply Triple.call fun _ _ _ => trivial
  apply Triple.read
  intro s
  apply Triple.of_states
  rintro u ⟨⟨g, ⟨rfl, rfl⟩, -, rfl⟩, rfl⟩
  have hpin : (replacing plat).step g (.getUserPages 1 (min 1 1)) = g.pin := rfl
  have hlvl' : ((replacing plat).view g.pin).ctrl.mhLvl = 1 := hlvl
  rw [hpin, if_neg (show ¬ ((replacing plat).view g.pin).ctrl.mhLvl = 2 by rw [hlvl']; decide)]
  apply Triple.bind (R := fun req' t => t = g.pin ∧ ∃ k,
    g.pin.rab.sliceGet (req.forMiss g.pin.rab start write pfn) plat.nSlicesPort1 = some k ∧
      req' = { req.forMiss g.pin.rab start write pfn with rabSlice := k })
  · apply Triple.handle (R := fun e t => t = g.pin ∧ e = .noSlice ∧
      g.pin.rab.sliceGet (req.forMiss g.pin.rab start write pfn) plat.nSlicesPort1 = none)
    · apply triple_sliceGet
      · rintro t k rfl hk
        exact ⟨rfl, k, hk, rfl⟩
      · rintro t rfl hnone
        exact ⟨rfl, rfl, hnone⟩
    · intro e
      rw [if_pos hlvl']
      apply Triple.fail
      rintro t ⟨rfl, rfl, hnone⟩
      exact .noSlice hnone
  · intro req'
    apply Triple.of_states
    rintro t ⟨rfl, k, hk, rfl⟩
    exact triple_installPage rfl rfl hk (hturn k hk)

/-- A field for a list of pages that is free, or that a single slice refers to. -/
def Single (plat : Platform) (s : RabState) (m i : Nat) : Prop :=
  i < plat.nSlicesPort1 ∧ (s.refCntr m i = 0 ∧ s.pagePtr m i = none ∨
    s.refCntr m i = 1 ∧ (s.pagePtr m i).isSome = true)

/-- A request of the miss handler for the active mapping. -/
private structure SliceReq.Missed (s : RabState) (req : SliceReq) : Prop where
  port : req.rabPort = .port1
  active : req.rabMapping = s.l1.mappingActive
  flags : req.flagsDrv = 0#8
  host : s.ctrl.socMhIsEna = false

namespace SliceReq.Missed

private theorem forMiss (hhost : s.ctrl.socMhIsEna = false) (req : SliceReq) (start : Nat) (write : Bool)
    (pfn k : Nat) : SliceReq.Missed s { req.forMiss s start write pfn with rabSlice := k } :=
  ⟨rfl, rfl, rfl, hhost⟩

private theorem managed (h : req.Missed s) : s.sliceIsManagedByHost req = true := by
  simp [RabState.sliceIsManagedByHost, h.host]

private theorem pagesOld (h : req.Missed s) : s.pagesOld req =
    s.pagePtr req.rabMapping (s.slice req.rabMapping req.rabSlice).pagePtrIdx := by
  simp [RabState.pagesOld, h.port]

private theorem unrefs (h : req.Missed s) : s.unrefs req = (s.pagesOld req).isSome := by
  have hconst : req.flagsDrv.has drvConst = false := by
    rw [h.flags]
    decide
  simp [RabState.unrefs, h.managed, h.port, hconst]

/-- Freeing a slice keeps what is known about fields, and makes the field of the slice free. -/
private theorem free_single (h : req.Missed s) {i : Nat} (hi : Single plat s req.rabMapping i) :
    Single plat (s.sliceFree req) req.rabMapping i ∧
      (i = (s.slice req.rabMapping req.rabSlice).pagePtrIdx →
        (s.sliceFree req).refCntr req.rabMapping i = 0) := by
  have hcntr := s.sliceFree_refCntr req req.rabMapping i
  have hptr := s.sliceFree_pagePtr req req.rabMapping i
  rw [h.unrefs] at hcntr
  obtain ⟨hlt, hfree | hused⟩ := hi
  · have hkeep : ¬ ((s.pagesOld req).isSome = true ∧
        i = (s.slice req.rabMapping req.rabSlice).pagePtrIdx) := by
      rintro ⟨hsome, rfl⟩
      rw [h.pagesOld, hfree.2] at hsome
      cases hsome
    rw [if_neg fun hno => hkeep ⟨hno.1, hno.2.2⟩, hfree.1] at hcntr
    rw [if_neg fun hno => hkeep ⟨hno.2.2.1, hno.2.2.2.1⟩, hfree.2] at hptr
    exact ⟨⟨hlt, Or.inl ⟨hcntr, hptr⟩⟩, fun _ => hcntr⟩
  · by_cases hidx : i = (s.slice req.rabMapping req.rabSlice).pagePtrIdx
    · have hsome : (s.pagesOld req).isSome = true := by
        rw [h.pagesOld, ← hidx]
        exact hused.2
      have hzero : sub32 (s.refCntr req.rabMapping i) 1 = 0 := by
        rw [hused.1]
        rfl
      rw [if_pos ⟨hsome, rfl, hidx⟩, hzero] at hcntr
      rw [if_pos ⟨h.managed, rfl, hsome, hidx, hzero⟩] at hptr
      exact ⟨⟨hlt, Or.inl ⟨hcntr, hptr⟩⟩, fun _ => hcntr⟩
    · rw [if_neg fun hno => hidx hno.2.2, hused.1] at hcntr
      rw [if_neg fun hno => hidx hno.2.2.2.1] at hptr
      rw [← hptr] at hused
      exact ⟨⟨hlt, Or.inr ⟨hcntr, hused.2⟩⟩, fun hno => absurd hno hidx⟩

/-- Setting up a slice with a free field. -/
private theorem setup_single (h : req.Missed s) (pages : PageArray) {i : Nat}
    (hzero : s.refCntr req.rabMapping req.pagePtrIdx = 0)
    (hi : i ≠ req.pagePtrIdx → Single plat s req.rabMapping i) (hlt : i < plat.nSlicesPort1) :
    Single plat (s.sliceSetup req (some pages)) req.rabMapping i := by
  have hcntr := s.sliceSetup_refCntr req (some pages) req.rabMapping i
  have hptr := s.sliceSetup_pagePtr req (some pages) req.rabMapping i
  have htakes : s.takesRef req = true := by
    simp [RabState.takesRef, RabState.sliceSetupRefused, h.port, hzero]
  have hconst : ¬ req.flagsDrv.has drvConst = true := by
    rw [h.flags]
    decide
  by_cases hidx : i = req.pagePtrIdx
  · subst hidx
    rw [if_pos ⟨htakes, rfl, rfl⟩, hzero] at hcntr
    rw [if_pos ⟨htakes, rfl, rfl⟩, if_neg hconst] at hptr
    exact ⟨hlt, Or.inr ⟨hcntr, by rw [hptr]; rfl⟩⟩
  · rw [if_neg fun hno => hidx hno.2.2] at hcntr hptr
    rw [Single, hcntr, hptr]
    exact hi hidx

end SliceReq.Missed

/-- The date of misses before a date. -/
def prevMhDate (d : Nat) : Nat := if d = 0 then maxDateMh else d - 1

/-- Of the slices that may be replaced, those before `q` have been replaced at the date `d`, and the
others at the date before; only at the first date others are not in use yet. -/
private structure Replacing.Inv (plat : Platform) (p : Nat → Prop) (m d q : Nat) (g : Replacing) :
    Prop where
  active : g.rab.l1.mappingActive = m
  host : g.rab.ctrl.socMhIsEna = false
  lvl : g.rab.ctrl.mhLvl = 1
  date : g.rab.ctrl.mhDate = d
  dateLe : d ≤ maxDateMh
  place : ∀ k, p k → k < plat.nSlicesPort1 ∧ (g.rab.slice m k).fixed = false
  dateExp : ∀ k, p k → (g.rab.slice m k).dateExp = if k < q then d else prevMhDate d
  blocked : ∀ k, k < plat.nSlicesPort1 → ¬ p k → (g.rab.slice m k).Blocked
  single : ∀ k, p k → Single plat g.rab m (g.rab.slice m k).pagePtrIdx ∨ q ≤ k ∧ d = 1
  turns : Turns p q g.order

private theorem expired_prevMhDate (d : Nat) : Expired d (prevMhDate d) := by
  rw [prevMhDate]
  split
  · next hzero => exact Or.inr ⟨hzero, rfl⟩
  · exact Or.inl (by omega)

private theorem not_expired_self (d : Nat) : ¬ Expired d d := by
  rintro (hgt | ⟨hzero, hmax⟩)
  · omega
  · rw [hzero] at hmax
    cases hmax

private theorem not_expired_blocked {d exp : Nat} (hd : d ≤ maxDateMh) (hexp : maxDateMh < exp) :
    ¬ Expired d exp := by
  rintro (hgt | ⟨-, hmax⟩)
  · exact absurd (hgt.trans_le hd) (Nat.not_lt.mpr hexp.le)
  · exact absurd hmax hexp.ne'

section

variable {p : Nat → Prop} {m d q k : Nat} {g : Replacing} {start pfn : Nat} {write : Bool}

namespace Replacing.Inv

private theorem pin (h : g.Inv plat p m d q) : g.pin.Inv plat p m d q :=
  ⟨h.active, h.host, h.lvl, h.date, h.dateLe, h.place, h.dateExp, h.blocked, h.single, h.turns⟩

private theorem forMiss_date (h : g.Inv plat p m d q) :
    (req.forMiss g.rab start write pfn).dateCur = d ∧
      (req.forMiss g.rab start write pfn).dateExp = d := by
  have hu8 : u8 g.rab.ctrl.mhDate = d := by
    rw [h.date]
    exact Nat.mod_eq_of_lt (h.dateLe.trans_lt (by decide))
  exact ⟨hu8, hu8⟩

/-- The slices that a miss may take are those that have not been replaced at its date. -/
private theorem check_iff (h : g.Inv plat p m d q) {k : Nat} (hk : k < plat.nSlicesPort1) :
    g.rab.sliceCheck { req.forMiss g.rab start write pfn with rabSlice := k } = true ↔ p k ∧ q ≤ k := by
  have hslice : g.rab.slice g.rab.mappingGetActive k = g.rab.slice m k := by
    rw [RabState.mappingGetActive, h.active]
  rw [sliceCheck_unfixed_iff rfl (by decide : Flags.has 0#8 drvFixed = false)]
  change Expired (req.forMiss g.rab start write pfn).dateCur (g.rab.slice g.rab.mappingGetActive k).dateExp ∧
    (g.rab.slice g.rab.mappingGetActive k).fixed = false ↔ _
  rw [h.forMiss_date.1, hslice]
  by_cases hp : p k
  · rw [h.dateExp k hp]
    split
    · next hlt =>
      constructor
      · exact fun hno => absurd hno.1 (not_expired_self d)
      · exact fun hno => absurd hlt (by omega)
    · next hge => exact ⟨fun _ => ⟨hp, by omega⟩, fun _ => ⟨expired_prevMhDate d, (h.place k hp).2⟩⟩
  · constructor
    · rintro ⟨hexpired, hunfixed⟩
      rcases h.blocked k hk hp with hfixed | hdate
      · rw [hunfixed] at hfixed
        cases hfixed
      · exact absurd hexpired (not_expired_blocked h.dateLe hdate)
    · exact fun hno => absurd hno.1 hp

private theorem managed (h : g.Inv plat p m d q) (req : SliceReq) :
    g.rab.sliceIsManagedByHost req = true := by
  simp [RabState.sliceIsManagedByHost, h.host]

private theorem get_some (h : g.Inv plat p m d q) {k : Nat}
    (hk : g.rab.sliceGet (req.forMiss g.rab start write pfn) plat.nSlicesPort1 = some k) :
    p k ∧ q ≤ k ∧ ∀ r, p r → r < k → r < q := by
  obtain ⟨hlt, hcheck, -⟩ := RabState.sliceGet_spec hk
  obtain ⟨hp, hq⟩ := (h.check_iff hlt).mp hcheck
  refine ⟨hp, hq, fun r hr hrk => ?_⟩
  by_contra hge
  have hno := RabState.sliceGet_first hk hrk (h.managed _)
  rw [(h.check_iff (hrk.trans hlt)).mpr ⟨hr, by omega⟩] at hno
  cases hno

private theorem get_none (h : g.Inv plat p m d q)
    (hk : g.rab.sliceGet (req.forMiss g.rab start write pfn) plat.nSlicesPort1 = none) {r : Nat}
    (hr : p r) : r < q := by
  by_contra hge
  have hno := RabState.sliceGet_none hk (h.place r hr).1 (h.managed _)
  rw [(h.check_iff (h.place r hr).1).mpr ⟨hr, by omega⟩] at hno
  cases hno

/-- The slices after one of them was freed. -/
private theorem free_slice (hreq : req.Missed g.rab) (k : Nat) :
    (g.rab.sliceFree req).slice req.rabMapping k = if k = req.rabSlice then
      (g.rab.slice req.rabMapping k).cleared else g.rab.slice req.rabMapping k := by
  rw [RabState.sliceFree_slice]
  simp only [hreq.managed, hreq.port, true_and]

/-- The slices after one of them was freed and set up with another field. -/
private theorem replace_slice (hreq : req.Missed g.rab) (i : Nat) (pages : PageArray) (k : Nat) :
    ((g.rab.sliceFree req).sliceSetup { req with pagePtrIdx := i } (some pages)).slice
      req.rabMapping k = if k = req.rabSlice then SliceReq.entry { req with pagePtrIdx := i }
        else g.rab.slice req.rabMapping k := by
  rw [RabState.sliceSetup_slice, free_slice hreq]
  by_cases hk : k = req.rabSlice
  · rw [if_pos ⟨hreq.port, rfl, hk⟩, if_pos hk]
  · rw [if_neg fun hno => hk hno.2.2, if_neg hk, if_neg hk]

private theorem freed_missed (hreq : req.Missed g.rab) (i : Nat) :
    SliceReq.Missed (g.rab.sliceFree req) { req with pagePtrIdx := i } := by
  obtain ⟨hactive, hctrl, -, -⟩ := g.rab.sliceFree_frame req
  exact ⟨hreq.port, hreq.active.trans hactive.symm, hreq.flags, by rw [hctrl]; exact hreq.host⟩

/-- A slice that is freed and finds no field stays free. -/
private theorem freed (h : g.Inv plat p m d q) (hreq : req.Missed g.rab) (hp : p req.rabSlice)
    (hq : q ≤ req.rabSlice)
    (hfield : (g.rab.sliceFree req).pagePtrsGetField plat.nSlicesPort1 req.rabMapping = none) :
    Replacing.Inv plat p m d q ⟨g.rab.sliceFree req, g.order⟩ := by
  obtain rfl : req.rabMapping = m := hreq.active.trans h.active
  obtain ⟨hactive, hctrl, -, -⟩ := g.rab.sliceFree_frame req
  have hfirst : d = 1 := by
    rcases h.single _ hp with hsingle | hd
    · have hzero := (hreq.free_single hsingle).2 rfl
      rw [RabState.pagePtrsGetField, List.find?_eq_none] at hfield
      exact absurd (decide_eq_true hzero) (hfield _ (List.mem_range.mpr hsingle.1))
    · exact hd.2
  refine ⟨hactive.trans h.active, ?_, ?_, ?_, h.dateLe, ?_, ?_, ?_, ?_, h.turns⟩
  · rw [hctrl]
    exact h.host
  · rw [hctrl]
    exact h.lvl
  · rw [hctrl]
    exact h.date
  · intro k hk
    rw [free_slice hreq]
    split <;> exact h.place k hk
  · intro k hk
    rw [free_slice hreq]
    split
    · next heq =>
      rw [if_neg (by omega), hfirst]
      rfl
    · exact h.dateExp k hk
  · intro k hlt hk
    have hne : k ≠ req.rabSlice := fun heq => hk (heq ▸ hp)
    rw [free_slice hreq, if_neg hne]
    exact h.blocked k hlt hk
  · intro k hk
    rw [free_slice hreq]
    split
    · next heq => exact Or.inr ⟨by omega, hfirst⟩
    · exact (h.single k hk).imp_left fun hsingle => (hreq.free_single hsingle).1

/-- A slice that is replaced. -/
private theorem replaced (h : g.Inv plat p m d q) (hreq : req.Missed g.rab) (hp : p req.rabSlice)
    (hq : q ≤ req.rabSlice) (hfirst : ∀ r, p r → r < req.rabSlice → r < q) (hdate : req.dateExp = d)
    {i : Nat} (pages : PageArray)
    (hfield : (g.rab.sliceFree req).pagePtrsGetField plat.nSlicesPort1 req.rabMapping = some i) :
    Replacing.Inv plat p m d (req.rabSlice + 1)
      ⟨(g.rab.sliceFree req).sliceSetup { req with pagePtrIdx := i } (some pages),
        req.rabSlice :: g.order⟩ := by
  obtain rfl : req.rabMapping = m := hreq.active.trans h.active
  obtain ⟨hactive, hctrl, -, -⟩ := g.rab.sliceFree_frame req
  obtain ⟨hactive', hctrl', -⟩ :=
    (g.rab.sliceFree req).sliceSetup_frame { req with pagePtrIdx := i } (some pages)
  have hreq' := freed_missed hreq i
  obtain ⟨hlt, hzero⟩ := RabState.pagePtrsGetField_spec hfield
  have hslice := replace_slice hreq i pages
  refine ⟨hactive'.trans (hactive.trans h.active), ?_, ?_, ?_, h.dateLe, ?_, ?_, ?_, ?_, ?_⟩
  · rw [hctrl', hctrl]
    exact h.host
  · rw [hctrl', hctrl]
    exact h.lvl
  · rw [hctrl', hctrl]
    exact h.date
  · intro k hk
    rw [hslice]
    split
    · refine ⟨(h.place k hk).1, ?_⟩
      change req.flagsDrv.has drvFixed = false
      rw [hreq.flags]
      decide
    · exact h.place k hk
  · intro k hk
    rw [hslice]
    split
    · next heq =>
      rw [if_pos (by omega)]
      exact hdate
    · next hne =>
      rw [h.dateExp k hk]
      by_cases hlt : k < req.rabSlice
      · rw [if_pos (hfirst k hk hlt), if_pos (by omega)]
      · rw [if_neg (by omega), if_neg (by omega)]
  · intro k hlt hk
    have hne : k ≠ req.rabSlice := fun heq => hk (heq ▸ hp)
    rw [hslice, if_neg hne]
    exact h.blocked k hlt hk
  · intro k hk
    rw [hslice]
    split
    · exact Or.inl (hreq'.setup_single pages hzero (fun hno => absurd rfl hno) hlt)
    · next hne =>
      rcases h.single k hk with hsingle | ⟨hge, hd⟩
      · exact Or.inl (hreq'.setup_single pages hzero (fun _ => (hreq.free_single hsingle).1) hsingle.1)
      · refine Or.inr ⟨?_, hd⟩
        by_contra hno
        have := hfirst k hk (by omega)
        omega
  · exact h.turns.advance hq hfirst

/-- The date advances with the last slice, and the hand starts anew. -/
private theorem nextDate (h : g.Inv plat p m d (k + 1)) :
    ∃ d' q', Replacing.Inv plat p m d' q' ⟨g.rab.step plat
      (.setMh (nextMhDate plat g.rab.ctrl k) g.rab.ctrl.mhAcp g.rab.ctrl.mhLvl), g.order⟩ ∧
      if k + 1 = plat.nSlicesPort1 then q' = 0 else d' = d ∧ q' = k + 1 := by
  by_cases hlast : k + 1 = plat.nSlicesPort1
  · have hnext : nextMhDate plat g.rab.ctrl k = if d + 1 > maxDateMh then 0 else d + 1 := by
      rw [nextMhDate, if_pos ⟨h.lvl, hlast⟩, h.date]
    refine ⟨nextMhDate plat g.rab.ctrl k, 0, ?_, by rw [if_pos hlast]⟩
    refine ⟨h.active, h.host, h.lvl, rfl, ?_, h.place, ?_, h.blocked, ?_, ?_⟩
    · rw [hnext]
      split <;> omega
    · intro r hr
      have hdate := h.dateExp r hr
      rw [if_pos (hlast ▸ (h.place r hr).1)] at hdate
      rw [if_neg (Nat.not_lt_zero r), hnext]
      refine hdate.trans ?_
      have hle := h.dateLe
      split
      · exact (by omega : d = maxDateMh)
      · rw [prevMhDate, if_neg (Nat.succ_ne_zero d)]
        rfl
    · intro r hr
      rcases h.single r hr with hsingle | ⟨hge, -⟩
      · exact Or.inl hsingle
      · have := (h.place r hr).1
        omega
    · apply h.turns.wrap
      intro r hr
      exact hlast ▸ (h.place r hr).1
  · have hsame : nextMhDate plat g.rab.ctrl k = d := by
      rw [nextMhDate, if_neg fun hno => hlast hno.2, h.date]
    refine ⟨d, k + 1, ?_, by rw [if_neg hlast]; exact ⟨rfl, rfl⟩⟩
    exact ⟨h.active, h.host, h.lvl, hsame, h.dateLe, h.place, h.dateExp, h.blocked, h.single, h.turns⟩

end Replacing.Inv

/-- Before the next miss the hand is at a slice. -/
private def Replacing.AtRest (plat : Platform) (p : Nat → Prop) (m : Nat) (g : Replacing) : Prop :=
  ∃ d q, q < plat.nSlicesPort1 ∧ g.Inv plat p m d q

private theorem triple_handlePage_rest (hlast : p (plat.nSlicesPort1 - 1)) :
    (replacing plat).Triple always (fun g c => g.Cyclic p c) (fun g => g.AtRest plat p m)
      (handlePage plat req start write pfn) fun r g => g.AtRest plat p m ∧ r ≠ .error .noSlice := by
  apply Triple.of_states
  rintro g ⟨d, q, hq, h⟩
  have hturn : ∀ k, g.pin.rab.sliceGet (req.forMiss g.pin.rab start write pfn) plat.nSlicesPort1 =
      some k → InTurn p g.order k := by
    intro k hk
    obtain ⟨hp, hqk, hfirst⟩ := h.pin.get_some hk
    exact h.turns.inTurn hp hqk hfirst
  apply (triple_handlePage h.lvl hturn).conseq fun _ h => h
  intro r g' hout
  cases hout with
  | noSlice hget =>
    have := h.pin.get_none hget hlast
    omega
  | noField k hget hfield =>
    obtain ⟨hp, hqk, -⟩ := h.pin.get_some hget
    have hreq := SliceReq.Missed.forMiss h.pin.host req start write pfn k
    exact ⟨⟨d, q, hq, h.pin.freed hreq hp hqk hfield⟩, by simp⟩
  | mapped k i s hget hfield hs =>
    obtain ⟨hp, hqk, hfirst⟩ := h.pin.get_some hget
    have hreq := SliceReq.Missed.forMiss h.pin.host req start write pfn k
    have hdate : (req.forMiss g.pin.rab start write pfn).dateExp = d := h.pin.forMiss_date.2
    have hnext : Replacing.Inv plat p m d (k + 1) ⟨s, k :: g.order⟩ := by
      rw [hs]
      exact h.pin.replaced hreq hp hqk hfirst hdate ⟨g.rab.kernel.nextArray, start, 1⟩ hfield
    obtain ⟨d', q', hinv, hhand⟩ := hnext.nextDate
    refine ⟨⟨d', q', ?_, hinv⟩, by simp⟩
    have hlt := (h.place k hp).1
    split at hhand <;> omega

private theorem triple_handleMisses (hlast : p (plat.nSlicesPort1 - 1)) (earlier : List Nat)
    (misses : List Miss) :
    (replacing plat).Triple always (fun g c => g.Cyclic p c) (fun g => g.AtRest plat p m)
      (handleMisses plat req earlier misses) fun _ g => g.AtRest plat p m := by
  induction misses generalizing req earlier with
  | nil => exact Triple.ret fun _ h => h
  | cons miss misses ih =>
    rw [handleMisses]
    apply Triple.bind (R := fun _ g => g.AtRest plat p m)
    · split
      · split
        · apply Triple.handle (R := fun e g => g.AtRest plat p m ∧ e ≠ .noSlice)
          · apply (triple_handlePage_rest hlast).conseq fun _ h => h
            rintro r g ⟨hrest, hne⟩
            cases r with
            | ok r => exact hrest
            | error e => exact ⟨hrest, fun heq => hne (heq ▸ rfl)⟩
          · intro e
            apply Triple.call fun g hg _ => hg.2
            apply Triple.ret
            rintro g' ⟨g, ⟨hrest, -⟩, -, rfl⟩
            exact hrest
        · exact Triple.ret fun _ h => h
      · exact Triple.ret fun _ h => h
    · exact fun req' => ih (earlier ++ [miss.addr])

/-- If the last slice may be replaced, so are all, in turn. -/
private theorem triple_missRuns (hlast : p (plat.nSlicesPort1 - 1)) (runs : List (SliceReq × List Miss)) :
    (replacing plat).Triple always (fun g c => g.Cyclic p c) (fun g => g.AtRest plat p m)
      (missRuns plat runs) fun _ g => g.AtRest plat p m := by
  apply Triple.session
  intro prog hprog
  obtain ⟨⟨stack, misses⟩, -, rfl⟩ := List.mem_map.mp hprog
  exact triple_handleMisses hlast [] misses

/-- What is known of the fields while slices are used for the first time. -/
private structure Replacing.Spare (plat : Platform) (p : Nat → Prop) [DecidablePred p] (m q : Nat)
    (g : Replacing) : Prop where
  fields : ∀ k, p k → q ≤ k → g.rab.pagePtr m (g.rab.slice m k).pagePtrIdx = none ∨
    Single plat g.rab m (g.rab.slice m k).pagePtrIdx
  enough : (remaining p plat.nSlicesPort1 q).card ≤ (freeFields plat g.rab m).card

/-- Freeing a slice keeps free fields free. -/
private theorem SliceReq.Missed.free_field (hreq : req.Missed s)
    (hfield : s.pagePtr req.rabMapping (s.slice req.rabMapping req.rabSlice).pagePtrIdx = none ∨
      Single plat s req.rabMapping (s.slice req.rabMapping req.rabSlice).pagePtrIdx) {i : Nat}
    (hi : s.refCntr req.rabMapping i = 0) : (s.sliceFree req).refCntr req.rabMapping i = 0 := by
  rw [RabState.sliceFree_refCntr, hreq.unrefs, hreq.pagesOld]
  split
  · next h =>
    obtain ⟨hsome, -, rfl⟩ := h
    rcases hfield with hnone | ⟨-, hfree | hused⟩
    · rw [hnone] at hsome
      cases hsome
    · rw [hfree.2] at hsome
      cases hsome
    · rw [hused.1] at hi
      cases hi
  · exact hi

private theorem Replacing.Spare.replaced [DecidablePred p] (h : g.Spare plat p req.rabMapping q)
    (hreq : req.Missed g.rab) (hp : p req.rabSlice) (hq : q ≤ req.rabSlice)
    (hslot : req.rabSlice < plat.nSlicesPort1) {i : Nat} (pages : PageArray)
    (hfield : (g.rab.sliceFree req).pagePtrsGetField plat.nSlicesPort1 req.rabMapping = some i) :
    Replacing.Spare plat p req.rabMapping (req.rabSlice + 1)
      ⟨(g.rab.sliceFree req).sliceSetup { req with pagePtrIdx := i } (some pages),
        req.rabSlice :: g.order⟩ := by
  have hreq' := Replacing.Inv.freed_missed hreq i
  obtain ⟨hlt, hzero⟩ := RabState.pagePtrsGetField_spec hfield
  refine ⟨?_, ?_⟩
  · intro k hk hge
    rw [Replacing.Inv.replace_slice hreq, if_neg (by omega)]
    rcases h.fields k hk (by omega) with hnone | hsingle
    · by_cases hidx : (g.rab.slice req.rabMapping k).pagePtrIdx = i
      · exact Or.inr (hreq'.setup_single pages hzero (fun hno => absurd hidx hno) (hidx ▸ hlt))
      · refine Or.inl ?_
        rw [RabState.sliceSetup_pagePtr, if_neg fun hno => hidx hno.2.2, RabState.sliceFree_pagePtr]
        split
        · rfl
        · exact hnone
    · exact Or.inr (hreq'.setup_single pages hzero (fun _ => (hreq.free_single hsingle).1) hsingle.1)
  · have hadvance := card_remaining_advance (mem_remaining.mpr ⟨hslot, hp, hq⟩)
    have hsubset : freeFields plat g.rab req.rabMapping ⊆ insert i (freeFields plat
        ((g.rab.sliceFree req).sliceSetup { req with pagePtrIdx := i } (some pages)) req.rabMapping) := by
      intro j hj
      rw [freeFields, Finset.mem_filter, Finset.mem_range] at hj
      rw [Finset.mem_insert]
      by_cases hji : j = i
      · exact Or.inl hji
      · refine Or.inr (Finset.mem_filter.mpr ⟨Finset.mem_range.mpr hj.1, ?_⟩)
        rw [RabState.sliceSetup_refCntr, if_neg fun hno => hji hno.2.2]
        exact hreq.free_field (h.fields _ hp hq) hj.2
    have hcard := (Finset.card_le_card hsubset).trans (Finset.card_insert_le _ _)
    have := h.enough
    change (remaining p plat.nSlicesPort1 (req.rabSlice + 1)).card ≤ (freeFields plat
      ((g.rab.sliceFree req).sliceSetup { req with pagePtrIdx := i } (some pages)) req.rabMapping).card
    omega

/-- A miss to the first page of the address space. -/
private def firstMiss : Miss := ⟨0, true, some (true, 0)⟩

/-- If the last slice may not be replaced, each miss uses one slice more at the first date, or none is
found. -/
private theorem missRun_advance [DecidablePred p] (hlast : ¬ p (plat.nSlicesPort1 - 1))
    (h : g.Inv plat p m 1 q) (hspare : g.Spare plat p m q)
    (halong : (replacing plat).Along (fun g c => g.Cyclic p c)
      (rabHandleMiss plat .blank [firstMiss]) g) :
    ∃ k ∈ remaining p plat.nSlicesPort1 q, ∀ g', g' = ((replacing plat).exec
      (rabHandleMiss plat .blank [firstMiss]) g).2 →
        g'.Inv plat p m 1 (k + 1) ∧ g'.Spare plat p m (k + 1) := by
  have hturn : ∀ k, g.pin.rab.sliceGet (SliceReq.blank.forMiss g.pin.rab (pageBase 0) true 0)
      plat.nSlicesPort1 = some k → InTurn p g.order k := by
    intro k hk
    obtain ⟨hp, hqk, hfirst⟩ := h.pin.get_some hk
    exact h.turns.inTurn hp hqk hfirst
  have hout := ((triple_handlePage h.lvl hturn).run rfl).2
  have hprog : rabHandleMiss plat .blank [firstMiss] =
      (((handlePage plat .blank (pageBase 0) true 0).handle fun e =>
        (Prog.issue (.report e)).bind fun _ => Prog.ret .blank).bind fun _ => Prog.ret ()) := rfl
  rw [hprog, along_bind, along_handle] at halong
  rw [hprog, exec_bind, exec_handle]
  have hpin : g.pin.Spare plat p m q := ⟨hspare.fields, hspare.enough⟩
  generalize (replacing plat).exec (handlePage plat .blank (pageBase 0) true 0) g = out at hout halong
  obtain ⟨r, g₁⟩ := out
  cases hout with
  | noSlice hget => exact absurd rfl (halong.1.2 _ _ rfl).1
  | noField k hget hfield =>
    obtain ⟨hp, hqk, -⟩ := h.pin.get_some hget
    have hreq := SliceReq.Missed.forMiss h.pin.host .blank (pageBase 0) true 0 k
    obtain rfl : g.pin.rab.mappingGetActive = m := h.pin.active
    have hmem := mem_remaining.mpr ⟨(h.place k hp).1, hp, hqk⟩
    have hpos := (Finset.card_pos.mpr ⟨k, hmem⟩).trans_le hpin.enough
    obtain ⟨i, hi⟩ := Finset.card_pos.mp hpos
    rw [freeFields, Finset.mem_filter] at hi
    rw [RabState.pagePtrsGetField, List.find?_eq_none] at hfield
    have hfree := hreq.free_field (hpin.fields k hp hqk) hi.2
    exact absurd (decide_eq_true hfree) (hfield i (List.mem_range.mpr (Finset.mem_range.mp hi.1)))
  | mapped k i s hget hfield hs =>
    obtain ⟨hp, hqk, hfirst⟩ := h.pin.get_some hget
    have hreq := SliceReq.Missed.forMiss h.pin.host .blank (pageBase 0) true 0 k
    obtain rfl : g.pin.rab.mappingGetActive = m := h.pin.active
    have hlt := (h.place k hp).1
    refine ⟨k, mem_remaining.mpr ⟨hlt, hp, hqk⟩, ?_⟩
    rintro g' rfl
    have hdate : (SliceReq.blank.forMiss g.pin.rab (pageBase 0) true 0).dateExp = 1 :=
      h.pin.forMiss_date.2
    have hnext : Replacing.Inv plat p g.pin.rab.mappingGetActive 1 (k + 1) ⟨s, k :: g.order⟩ := by
      rw [hs]
      exact h.pin.replaced hreq hp hqk hfirst hdate ⟨g.rab.kernel.nextArray, pageBase 0, 1⟩ hfield
    have hspare' : Replacing.Spare plat p g.pin.rab.mappingGetActive (k + 1) ⟨s, k :: g.order⟩ := by
      rw [hs]
      exact hpin.replaced hreq hp hqk hlt ⟨g.rab.kernel.nextArray, pageBase 0, 1⟩ hfield
    obtain ⟨d', q', hinv, hhand⟩ := hnext.nextDate
    have hne : ¬ k + 1 = plat.nSlicesPort1 := by
      intro heq
      rw [show k = plat.nSlicesPort1 - 1 by omega] at hp
      exact hlast hp
    rw [if_neg hne] at hhand
    obtain ⟨rfl, rfl⟩ := hhand
    exact ⟨hinv, hspare'.fields, hspare'.enough⟩

/-- If the last slice may not be replaced, the others are used up. -/
private theorem not_along_missRuns [DecidablePred p] (hlast : ¬ p (plat.nSlicesPort1 - 1)) (n : Nat)
    (hn : (remaining p plat.nSlicesPort1 q).card ≤ n) (h : g.Inv plat p m 1 q)
    (hspare : g.Spare plat p m q) :
    ∃ runs, ¬ (replacing plat).Along (fun g c => g.Cyclic p c) (missRuns plat runs) g := by
  induction n generalizing q g with
  | zero =>
    refine ⟨[(.blank, [firstMiss])], fun halong => ?_⟩
    rw [missRuns, List.map_singleton, Prog.session, along_andThen] at halong
    obtain ⟨k, hk, -⟩ := missRun_advance hlast h hspare halong.1
    have := Finset.card_pos.mpr ⟨k, hk⟩
    omega
  | succ n ih =>
    by_cases halong : (replacing plat).Along (fun g c => g.Cyclic p c)
        (rabHandleMiss plat .blank [firstMiss]) g
    · obtain ⟨k, hk, hnext⟩ := missRun_advance hlast h hspare halong
      obtain ⟨hinv, hspare'⟩ := hnext _ rfl
      have hcard := card_remaining_advance hk
      obtain ⟨runs, hruns⟩ := ih (by omega) hinv hspare'
      refine ⟨(.blank, [firstMiss]) :: runs, fun hall => hruns ?_⟩
      rw [missRuns, List.map_cons, Prog.session, along_andThen] at hall
      exact hall.2
    · refine ⟨[(.blank, [firstMiss])], fun hall => halong ?_⟩
      rw [missRuns, List.map_singleton, Prog.session, along_andThen] at hall
      exact hall.1

end

private theorem MissStart.inv (h : MissStart plat s) (acp : Bool) :
    Replacing.Inv plat (Replaceable plat s) s.mappingGetActive 1 0 ⟨s.mhEna plat acp, []⟩ := by
  refine ⟨rfl, h.host, rfl, rfl, by decide, ?_, ?_, ?_, ?_, Turns.nil 0⟩
  · intro k hk
    have hfixed : (s.slice s.mappingGetActive k).fixed = false := by
      rw [← Bool.not_eq_true]
      exact fun hfixed => hk.2 (Or.inl hfixed)
    exact ⟨hk.1, hfixed⟩
  · intro k hk
    rw [if_neg (Nat.not_lt_zero k)]
    exact h.free k hk
  · intro k hlt hk
    by_contra hno
    exact hk ⟨hlt, hno⟩
  · exact fun k _ => Or.inr ⟨Nat.zero_le k, rfl⟩

private theorem MissStart.of_check (hhost : s.ctrl.socMhIsEna = false) (n : Nat)
    (hn : plat.nSlicesPort1 = n) (hfree : ∀ k < n, ¬ (s.slice s.mappingGetActive k).Blocked →
      (s.slice s.mappingGetActive k).dateExp = 0) : MissStart plat s :=
  ⟨hhost, fun k hk => hfree k (hn ▸ hk.1) hk.2⟩

private theorem FieldsSuffice.spare (h : FieldsSuffice plat s) (acp : Bool) :
    Replacing.Spare plat (Replaceable plat s) s.mappingGetActive 0 ⟨s.mhEna plat acp, []⟩ :=
  ⟨fun k hk _ => Or.inl (h.unlisted k hk), h.enough⟩

end

/-- All misses are served by replacing the slices that may be replaced in turn if and only if the last
slice is one of them. -/
theorem replacesInTurn_iff (plat : Platform) (s : RabState) (acp : Bool) (h : MissStart plat s) :
    (Replaceable plat s (plat.nSlicesPort1 - 1) → ReplacesInTurn plat s acp) ∧
      (FieldsSuffice plat s →
        (ReplacesInTurn plat s acp ↔ Replaceable plat s (plat.nSlicesPort1 - 1))) := by
  have hserves : Replaceable plat s (plat.nSlicesPort1 - 1) → ReplacesInTurn plat s acp := by
    intro hlast runs
    have hpos : 0 < plat.nSlicesPort1 := (Nat.zero_le _).trans_lt hlast.1
    exact ((triple_missRuns hlast runs).run ⟨1, 0, hpos, h.inv acp⟩).1
  refine ⟨hserves, fun hfields => ⟨fun hturn => ?_, hserves⟩⟩
  by_contra hlast
  obtain ⟨runs, hruns⟩ := not_along_missRuns hlast _ le_rfl (h.inv acp) (hfields.spare acp)
  exact hruns (hturn runs)

/-- The slices that the initialisation leaves are replaced in turn. -/
theorem replacesInTurn_afterSetup : ReplacesInTurn .zedboard (afterSetup .zedboard) false :=
  (replacesInTurn_iff .zedboard (afterSetup .zedboard) false
    (.of_check (by decide +kernel) 8 rfl (by decide +kernel))).1 (by decide +kernel)

/-- A request for one page. -/
def oneMappedPage (k dateExp : Nat) : Action :=
  .req ⟨true, 1, fun _ => k⟩ { SliceReq.blank with
    dateCur := 1, dateExp := dateExp, rabPort := .port1, addrStart := 0x10000 * k
    addrEnd := 0x10000 * k + 0x1000, flagsHw := 7#8 }

/-- Six slices are freed again; the last slice never expires. -/
def lastSliceTaken : RabState :=
  ((driver .zedboard).exec (runProg .zedboard .blank [oneMappedPage 1 1, oneMappedPage 2 1, oneMappedPage 3 1,
    oneMappedPage 4 1, oneMappedPage 5 1, oneMappedPage 6 1, oneMappedPage 7 255, .free .blank 2 false])
    (RabState.reset .zedboard)).2

private theorem lastSliceTaken_start : MissStart .zedboard lastSliceTaken :=
  .of_check (by decide +kernel) 8 rfl (by decide +kernel)

/-- Misses to seven pages. -/
def sevenMisses : List (SliceReq × List Miss) :=
  [(.blank, (List.range 7).map fun i => ⟨pageSize * i, true, some (true, i)⟩)]

private theorem lastSliceTaken_noSlice : ¬ (replacing .zedboard).Along
    (fun _ c => c ≠ Call.report .noSlice) (missRuns .zedboard sevenMisses)
    ⟨lastSliceTaken.mhEna .zedboard false, []⟩ := by
  decide +kernel

/-- Although six slices may be replaced, no slice is found for the seventh miss. -/
theorem not_replacesInTurn_lastSliceTaken : MissStart .zedboard lastSliceTaken ∧
    Replaceable .zedboard lastSliceTaken 1 ∧ ¬ ReplacesInTurn .zedboard lastSliceTaken false := by
  refine ⟨lastSliceTaken_start, by decide +kernel, fun hturn => lastSliceTaken_noSlice ?_⟩
  apply along_mono ?_ _ (hturn sevenMisses)
  rintro g c hc rfl
  exact hc rfl

end Hero.Rab
