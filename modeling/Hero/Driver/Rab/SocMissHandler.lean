import Hero.Driver.Rab.MissMode

/-!
# Enabling the miss handler on the SoC

`pulp_rab_soc_mh_ena` frees the slices for the SoC and maps the page tables, or it fails.
-/

namespace Hero.Rab

open Driver Flags Interp

section

variable {plat : Platform} {s s' : RabState} {req : SliceReq} {m k i r : Nat}

/-- A list of pages that no slice refers to is gone. -/
def RabState.Unlisted (s : RabState) (i : Nat) : Prop :=
  s.refCntr 0 i = 0 → s.pagePtr 0 i = none

/-- Freeing a slice leaves lists without references gone, and does not refer to them. -/
private theorem RabState.Unlisted.sliceFree (h : s.Unlisted i) (req : SliceReq) :
    (s.sliceFree req).Unlisted i ∧ (s.refCntr 0 i = 0 → (s.sliceFree req).refCntr 0 i = 0) := by
  rw [RabState.Unlisted, RabState.sliceFree_refCntr, RabState.sliceFree_pagePtr]
  by_cases hun : s.unrefs req = true ∧ 0 = req.rabMapping ∧
      i = (s.slice req.rabMapping req.rabSlice).pagePtrIdx
  · obtain ⟨hun, hm, hi⟩ := hun
    have hptr : req.rabPort = .port1 → s.pagesOld req = s.pagePtr 0 i := by
      intro hport
      simp only [RabState.pagesOld, hport, ← hm, hi]
    simp only [RabState.unrefs, Bool.and_eq_true, decide_eq_true_eq] at hun
    obtain ⟨⟨hhost, hport⟩, hrefs⟩ := hun
    rw [hptr hport, ← hm] at hrefs
    rw [← hm] at hi
    rw [hptr hport, ← hm]
    cases hpages : s.pagePtr 0 i with
    | none =>
      have hne : s.refCntr 0 i ≠ 0 := by
        simp only [hpages, ← hi, Option.isSome_none, Bool.false_or, Bool.and_eq_true,
          decide_eq_true_eq] at hrefs
        exact hrefs.2
      exact ⟨fun _ => by split <;> rfl, fun hzero => absurd hzero hne⟩
    | some pages =>
      have hne : s.refCntr 0 i ≠ 0 := by
        intro hzero
        have hgone := h hzero
        rw [hpages] at hgone
        cases hgone
      refine ⟨?_, fun hzero => absurd hzero hne⟩
      intro hzero
      rw [if_pos ⟨by simp [RabState.unrefs, hhost, hport, hptr hport, hpages], rfl, hi⟩] at hzero
      rw [if_pos ⟨hhost, rfl, rfl, hi, hzero⟩]
  · rw [if_neg hun]
    refine ⟨?_, fun hzero => hzero⟩
    intro hzero
    split
    · rfl
    · exact h hzero

/-- Freeing a slice that the host manages in the active mapping disables it in hardware. -/
private theorem free_hw_flags (hport : req.rabPort = .port1)
    (hhost : s.sliceIsManagedByHost req = true) (hactive : s.l1.mappingActive = req.rabMapping) :
    ((s.sliceFree req).hw .port1 req.rabSlice).flags = 0#8 := by
  rw [RabState.sliceFree_hw]
  cases hclears : s.clearsHw req with
  | true =>
    rw [if_pos ⟨rfl, hport.symm, rfl⟩]
    rfl
  | false =>
    rw [if_neg fun hno => Bool.noConfusion hno.1]
    rw [RabState.clearsHw, hhost, Bool.true_and] at hclears
    split at hclears
    · simp [hactive] at hclears
    · simpa [hport] using hclears

/-- What `rab_is_ready_for_soc_mh` returns and leaves. -/
private structure ReadyOutcome (stack : SliceReq) (s : RabState) (ks : List Nat) (ready : Bool)
    (s' : RabState) : Prop where
  ctrl : s'.ctrl = s.ctrl
  active : s'.l1.mappingActive = 0
  slice : ∀ m k, ¬ (m = 0 ∧ k ∈ ks ∧ s.sliceCheck (readyReq stack k) = true) →
    s'.slice m k = s.slice m k
  hw : ∀ k, ¬ (k ∈ ks ∧ s.sliceCheck (readyReq stack k) = true) → s'.hw .port1 k = s.hw .port1 k
  iff : ready = true ↔ ∀ k ∈ ks, s.sliceCheck (readyReq stack k) = true
  freed : ready = true → ∀ k ∈ ks, s'.FreeForSoc k
  fields : ∀ i, s.Unlisted i → s'.Unlisted i ∧ (s.refCntr 0 i = 0 → s'.refCntr 0 i = 0)

private theorem sliceCheck_congr (h : s'.slice 0 k = s.slice 0 k) (stack : SliceReq) :
    s'.sliceCheck (readyReq stack k) = s.sliceCheck (readyReq stack k) := by
  have hentry : s'.entry (readyReq stack k) = s.entry (readyReq stack k) :=
    congrArg L1EntryPort1.toL1EntryPort0 h
  simp only [RabState.sliceCheck, hentry]

private theorem ready_outcome (stack : SliceReq) {ks : List Nat} (hnodup : ks.Nodup)
    (hactive : s.l1.mappingActive = 0) (hhost : s.ctrl.socMhIsEna = false) :
    ∃ ready s', (driver plat).exec (rabIsReadyForSocMh stack ks) s = (.ok ready, s') ∧
      ReadyOutcome stack s ks ready s' := by
  induction ks generalizing s with
  | nil =>
    refine ⟨true, s, rfl, rfl, hactive, fun _ _ _ => rfl, fun _ _ => rfl, ?_, ?_, ?_⟩
    · exact ⟨fun _ k hk => absurd hk List.not_mem_nil, fun _ => rfl⟩
    · exact fun _ k hk => absurd hk List.not_mem_nil
    · exact fun i hi => ⟨hi, fun hzero => hzero⟩
  | cons k ks ih =>
    obtain ⟨hk, hks⟩ := List.nodup_cons.mp hnodup
    cases hcheck : s.sliceCheck (readyReq stack k) with
    | false =>
      have hexec : (driver plat).exec (rabIsReadyForSocMh stack (k :: ks)) s = (.ok false, s) := by
        change (driver plat).exec (if s.sliceCheck (readyReq stack k) then _ else _) s = _
        rw [hcheck]
        rfl
      refine ⟨false, s, hexec, rfl, hactive, fun _ _ _ => rfl, fun _ _ => rfl, ?_, ?_, ?_⟩
      · refine ⟨fun hno => Bool.noConfusion hno, ?_⟩
        intro hall
        rw [← hcheck]
        exact hall k List.mem_cons_self
      · exact fun hno => Bool.noConfusion hno
      · exact fun i hi => ⟨hi, fun hzero => hzero⟩
    | true =>
      have hframe := s.sliceFree_frame (readyReq stack k)
      have hmanaged : s.sliceIsManagedByHost (readyReq stack k) = true := by
        simp [RabState.sliceIsManagedByHost, hhost]
      have hslice : ∀ m j, ¬ (m = 0 ∧ j = k) →
          (s.sliceFree (readyReq stack k)).slice m j = s.slice m j := by
        intro m j hne
        rw [RabState.sliceFree_slice, if_neg fun hno => hne hno.2.2]
      have hhw : ∀ j, j ≠ k →
          (s.sliceFree (readyReq stack k)).hw .port1 j = s.hw .port1 j := by
        intro j hne
        rw [RabState.sliceFree_hw, if_neg fun hno => hne hno.2.2]
      obtain ⟨ready, s', hexec, hout⟩ := ih (s := s.sliceFree (readyReq stack k)) hks
        (hframe.1.trans hactive) (by rw [hframe.2.1, hhost])
      have hother : ∀ j, j ≠ k → (s.sliceFree (readyReq stack k)).sliceCheck (readyReq stack j) =
          s.sliceCheck (readyReq stack j) := by
        intro j hne
        exact sliceCheck_congr (hslice 0 j fun hno => hne hno.2) stack
      have hne : ∀ j ∈ ks, j ≠ k := fun j hj heq => hk (heq ▸ hj)
      refine ⟨ready, s', ?_, ?_, hout.active, ?_, ?_, ?_, ?_, ?_⟩
      · rw [← hexec]
        change (driver plat).exec (if s.sliceCheck (readyReq stack k) then _ else _) s = _
        rw [hcheck]
        rfl
      · rw [hout.ctrl, hframe.2.1]
      · intro m j hno
        have hkj : ¬ (m = 0 ∧ j = k) := by
          intro heq
          obtain ⟨rfl, rfl⟩ := heq
          exact hno ⟨rfl, List.mem_cons_self, hcheck⟩
        rw [hout.slice m j, hslice m j hkj]
        intro h
        rw [hother j (hne j h.2.1)] at h
        exact hno ⟨h.1, List.mem_cons_of_mem k h.2.1, h.2.2⟩
      · intro j hno
        have hkj : j ≠ k := by
          rintro rfl
          exact hno ⟨List.mem_cons_self, hcheck⟩
        rw [hout.hw j, hhw j hkj]
        intro h
        rw [hother j hkj] at h
        exact hno ⟨List.mem_cons_of_mem k h.1, h.2⟩
      · rw [hout.iff]
        simp only [List.mem_cons, forall_eq_or_imp, hcheck, true_and]
        constructor
        · intro h j hj
          rw [← hother j (hne j hj)]
          exact h j hj
        · intro h j hj
          rw [hother j (hne j hj)]
          exact h j hj
      · intro hready j hj
        cases List.mem_cons.mp hj with
        | inr hj => exact hout.freed hready j hj
        | inl hj =>
          subst hj
          have hsame := hout.slice 0 j fun hno => hk hno.2.1
          have hsame' := hout.hw j fun hno => hk hno.1
          have hcleared : (s.sliceFree (readyReq stack j)).slice 0 j = (s.slice 0 j).cleared := by
            rw [RabState.sliceFree_slice, if_pos ⟨hmanaged, rfl, rfl, rfl⟩]
          refine ⟨?_, ?_⟩
          · rw [hsame, hcleared]
            rfl
          · rw [hsame']
            exact free_hw_flags rfl hmanaged hactive
      · intro i hi
        have hfirst := hi.sliceFree (readyReq stack k)
        have hrest := hout.fields i hfirst.1
        exact ⟨hrest.1, fun hzero => hrest.2 (hfirst.2 hzero)⟩

/-- Free a slice and set it up for a table. -/
private def RabState.takeTable (s : RabState) (t : TableMapping) (i k : Nat) : RabState :=
  (s.sliceFree (tableReq t i k)).sliceSetup (tableReq t i k) none

/-- What mapping a table returns and leaves. -/
private inductive TableOutcome (plat : Platform) (s : RabState) (t : TableMapping) :
    Except Err SliceReq → RabState → Prop
  | noSlice (i : Nat) (hget : s.sliceGet (tableReq t i 0) plat.nSlicesPort1 = none) :
    TableOutcome plat s t (.error .noSlice) s
  | refused (i k : Nat) (hget : s.sliceGet (tableReq t i 0) plat.nSlicesPort1 = some k)
    (hfield : ∀ j, s.pagePtrsGetField plat.nSlicesPort1 0 = some j → j = i)
    (hsetup : (s.sliceFree (tableReq t i k)).sliceSetupRefused (tableReq t i k) = true) :
    TableOutcome plat s t (.error .eio) (s.takeTable t i k)
  | mapped (i k : Nat) (hget : s.sliceGet (tableReq t i 0) plat.nSlicesPort1 = some k)
    (hfield : ∀ j, s.pagePtrsGetField plat.nSlicesPort1 0 = some j → j = i)
    (hsetup : (s.sliceFree (tableReq t i k)).sliceSetupRefused (tableReq t i k) = false) :
    TableOutcome plat s t (.ok (tableReq t i k)) (s.takeTable t i k)

theorem exec_getFieldUnchecked (req : SliceReq) :
    (driver plat).exec (pagePtrsGetFieldUnchecked plat req) s =
      (.ok { req with pagePtrIdx :=
        (s.pagePtrsGetField plat.nSlicesPort1 req.rabMapping).getD req.pagePtrIdx }, s) := by
  have hview : (driver plat).view s = s := rfl
  rw [pagePtrsGetFieldUnchecked, exec_handle, exec_pagePtrsGetField, hview]
  cases s.pagePtrsGetField plat.nSlicesPort1 req.rabMapping <;> rfl

theorem exec_sliceReplace (req : SliceReq) (pages : Option PageArray) :
    (driver plat).exec (sliceReplace req pages) s =
      (if (s.sliceFree req).sliceSetupRefused req then .error .eio else .ok (),
        (s.sliceFree req).sliceSetup req pages) := by
  change (driver plat).exec (if (s.sliceFree req).sliceSetupRefused req then Prog.fail Err.eio
    else Prog.ret ()) ((s.sliceFree req).sliceSetup req pages) = _
  split <;> rfl

private theorem exec_socMhMapTable (t t₀ : TableMapping) (i k₀ : Nat)
    (hfield : ∀ j, s.pagePtrsGetField plat.nSlicesPort1 0 = some j → j = i) :
    TableOutcome plat s t
      ((driver plat).exec (socMhMapTable plat
        { tableReq t₀ i k₀ with addrStart := t.addrStart, addrEnd := t.addrEnd } t.addrOffset) s).1
      ((driver plat).exec (socMhMapTable plat
        { tableReq t₀ i k₀ with addrStart := t.addrStart, addrEnd := t.addrEnd } t.addrOffset) s).2 := by
  change TableOutcome plat s t
    ((driver plat).exec ((sliceGet plat (tableReq t i k₀)).bind fun req =>
      (sliceReplace req none).bind fun _ => Prog.ret req) s).1
    ((driver plat).exec ((sliceGet plat (tableReq t i k₀)).bind fun req =>
      (sliceReplace req none).bind fun _ => Prog.ret req) s).2
  have hget : (driver plat).exec (sliceGet plat (tableReq t i k₀)) s =
      (s.sliceGet (tableReq t i 0) plat.nSlicesPort1).elim (.error .noSlice, s)
        fun k => (.ok (tableReq t i k), s) := exec_sliceGet s
  rw [exec_bind, hget]
  cases hk : s.sliceGet (tableReq t i 0) plat.nSlicesPort1 with
  | none => exact .noSlice i hk
  | some k =>
    simp only [Option.elim, exec_bind, exec_sliceReplace]
    cases hsetup : (s.sliceFree (tableReq t i k)).sliceSetupRefused (tableReq t i k) with
    | true => exact .refused i k hk hfield hsetup
    | false => exact .mapped i k hk hfield hsetup

private theorem mem_tableSlots (t : TableMapping) (i : Nat) : k ∈ s.tableSlots plat r ↔
    k < plat.nSlicesPort1 ∧ k < r ∧ s.sliceCheck (tableReq t i k) = true := by
  rw [RabState.tableSlots, Finset.mem_filter, Finset.mem_range]
  exact Iff.rfl

/-- The slices that a table can take are the ones `pulp_rab_slice_get` looks for. -/
private theorem mem_tableSlots_of_get {t : TableMapping} (hena : s.ctrl.socMhIsEna = true)
    (hget : s.sliceGet (tableReq t i 0) plat.nSlicesPort1 = some k) :
    k ∈ s.tableSlots plat s.ctrl.nSlicesReservedForHost ∧
      s.sliceIsManagedByHost (tableReq t i k) = true := by
  obtain ⟨hk, hcheck, hhost⟩ := RabState.sliceGet_spec hget
  refine ⟨(mem_tableSlots t i).mpr ⟨hk, ?_, hcheck⟩, hhost⟩
  simpa [RabState.sliceIsManagedByHost, tableReq, hena] using hhost

private theorem tableSlots_of_none {t : TableMapping}
    (hget : s.sliceGet (tableReq t i 0) plat.nSlicesPort1 = none) :
    s.tableSlots plat s.ctrl.nSlicesReservedForHost = ∅ := by
  apply Finset.eq_empty_of_forall_notMem
  intro k hk
  obtain ⟨hlt, hr, hcheck⟩ := (mem_tableSlots t i).mp hk
  have hno := RabState.sliceGet_none hget hlt (by simp [RabState.sliceIsManagedByHost, hr])
  exact Bool.noConfusion (hcheck.symm.trans hno)

private theorem takeTable_slice (t : TableMapping) (m j : Nat) :
    (s.takeTable t i k).slice m j =
      if m = 0 ∧ j = k then (tableReq t i k).entry else s.slice m j := replace_slice rfl m j

private theorem takeTable_holds (t : TableMapping) : (s.takeTable t i k).HoldsTable t k := by
  have hentry : (s.takeTable t i k).slice 0 k = (tableReq t i k).entry := by
    rw [takeTable_slice, if_pos ⟨rfl, rfl⟩]
  constructor <;> rw [hentry] <;> rfl

private theorem takeTable_hw (t : TableMapping) {j : Nat} (hne : j ≠ k) :
    (s.takeTable t i k).hw .port1 j = s.hw .port1 j := by
  rw [RabState.takeTable, RabState.sliceSetup_hw, if_neg fun hno => hne hno.2.2,
    RabState.sliceFree_hw, if_neg fun hno => hne hno.2.2]

private theorem takeTable_enables (t : TableMapping) (hactive : s.l1.mappingActive = 0)
    (hsetup : (s.sliceFree (tableReq t i k)).sliceSetupRefused (tableReq t i k) = false) :
    (s.takeTable t i k).EnablesTable t k := by
  have hactive' : (s.sliceFree (tableReq t i k)).l1.mappingActive = 0 :=
    (s.sliceFree_frame _).1.trans hactive
  have hconfigures : (s.sliceFree (tableReq t i k)).configures (tableReq t i k) = true := by
    rw [RabState.configures, RabState.takesRef, hsetup, hactive']
    rfl
  rw [RabState.EnablesTable, RabState.takeTable, RabState.sliceSetup_hw, if_pos ⟨hconfigures, rfl, rfl⟩]
  rfl

/-- A slice with a table is not available for another one. -/
private theorem takeTable_slots (t : TableMapping) :
    (s.takeTable t i k).tableSlots plat r = (s.tableSlots plat r).erase k := by
  ext j
  rw [Finset.mem_erase, mem_tableSlots t i, mem_tableSlots t i]
  by_cases hj : j = k
  · subst hj
    have hno : (s.takeTable t i j).sliceCheck (tableReq t i j) = false := by
      apply sliceCheck_of_not_expired rfl
      change ¬ Expired maxDate ((s.takeTable t i j).slice 0 j).dateExp
      rw [(takeTable_holds t).dateExp]
      decide
    simp [hno]
  · have hsame : (s.takeTable t i k).sliceCheck (tableReq t i j) =
        s.sliceCheck (tableReq t i j) := by
      have hentry : (s.takeTable t i k).entry (tableReq t i j) = s.entry (tableReq t i j) := by
        change ((s.takeTable t i k).slice 0 j).toL1EntryPort0 = (s.slice 0 j).toL1EntryPort0
        rw [takeTable_slice, if_neg fun hno => hj hno.2]
      simp only [RabState.sliceCheck, hentry]
    rw [hsame]
    exact ⟨fun h => ⟨hj, h⟩, fun h => h.2⟩

/-- Mapping a table takes one list of pages at most. -/
private theorem takeTable_fields (t : TableMapping)
    (h : ∀ j < plat.nSlicesPort1, s.Unlisted j) :
    (∀ j < plat.nSlicesPort1, (s.takeTable t i k).Unlisted j) ∧
      (freeFields plat s 0).erase i ⊆ freeFields plat (s.takeTable t i k) 0 := by
  have hother : ∀ j, j ≠ i →
      (s.takeTable t i k).refCntr 0 j = (s.sliceFree (tableReq t i k)).refCntr 0 j ∧
      (s.takeTable t i k).pagePtr 0 j = (s.sliceFree (tableReq t i k)).pagePtr 0 j := by
    intro j hj
    rw [RabState.takeTable, RabState.sliceSetup_refCntr, RabState.sliceSetup_pagePtr]
    rw [if_neg fun hno => hj hno.2.2, if_neg fun hno => hj hno.2.2]
    exact ⟨rfl, rfl⟩
  constructor
  · intro j hj hzero
    by_cases hji : j = i
    · subst hji
      rw [RabState.takeTable, RabState.sliceSetup_pagePtr]
      split
      · exact ite_self none
      · next hno =>
        rw [RabState.takeTable, RabState.sliceSetup_refCntr, if_neg hno] at hzero
        exact ((h j hj).sliceFree (tableReq t j k)).1 hzero
    · rw [(hother j hji).2]
      rw [(hother j hji).1] at hzero
      exact ((h j hj).sliceFree (tableReq t i k)).1 hzero
  · intro j hj
    obtain ⟨hji, hfree⟩ := Finset.mem_erase.mp hj
    obtain ⟨hlt, hzero⟩ := Finset.mem_filter.mp hfree
    have hlt' := Finset.mem_range.mp hlt
    apply Finset.mem_filter.mpr
    refine ⟨hlt, ?_⟩
    rw [(hother j hji).1]
    exact ((h j hlt').sliceFree (tableReq t i k)).2 hzero

/-- The slices that no table can take are as before. -/
private structure Spares (plat : Platform) (s s' : RabState) : Prop where
  ctrl : s'.ctrl = s.ctrl
  active : s'.l1.mappingActive = 0
  slice : ∀ m k, ¬ (m = 0 ∧ k ∈ s.tableSlots plat s.ctrl.nSlicesReservedForHost) →
    s'.slice m k = s.slice m k
  hw : ∀ k, k ∉ s.tableSlots plat s.ctrl.nSlicesReservedForHost →
    s'.hw .port1 k = s.hw .port1 k

/-- There are slices and lists of pages for `n` tables. -/
private structure Fits (plat : Platform) (s : RabState) (n : Nat) : Prop where
  slots : n ≤ (s.tableSlots plat s.ctrl.nSlicesReservedForHost).card
  fields : n ≤ (freeFields plat s 0).card
  unlisted : ∀ i < plat.nSlicesPort1, s.Unlisted i

private theorem Fits.mono {n n' : Nat} (h : Fits plat s n) (hle : n' ≤ n) : Fits plat s n' :=
  ⟨hle.trans h.slots, hle.trans h.fields, h.unlisted⟩

/-- The state after the given tables have been mapped. -/
private structure Mapped (plat : Platform) (s : RabState) (done : List TableMapping)
    (s' : RabState) : Prop extends Spares plat s s' where
  tables : ∀ t ∈ done, ∃ k ∈ s.tableSlots plat s.ctrl.nSlicesReservedForHost,
    s'.HoldsTable t k ∧ s'.EnablesTable t k
  subset : s'.tableSlots plat s.ctrl.nSlicesReservedForHost ⊆
    s.tableSlots plat s.ctrl.nSlicesReservedForHost
  slots : (s.tableSlots plat s.ctrl.nSlicesReservedForHost).card ≤
    (s'.tableSlots plat s.ctrl.nSlicesReservedForHost).card + done.length
  fields : (∀ i < plat.nSlicesPort1, s.Unlisted i) →
    (∀ i < plat.nSlicesPort1, s'.Unlisted i) ∧
      (freeFields plat s 0).card ≤ (freeFields plat s' 0).card + done.length

private theorem Mapped.start (hactive : s.l1.mappingActive = 0) : Mapped plat s [] s where
  ctrl := rfl
  active := hactive
  slice _ _ _ := rfl
  hw _ _ := rfl
  tables _ ht := absurd ht List.not_mem_nil
  subset := subset_rfl
  slots := le_rfl
  fields h := ⟨h, le_rfl⟩

private theorem Mapped.spares {done : List TableMapping} (h : Mapped plat s done s') {t : TableMapping}
    (hena : s.ctrl.socMhIsEna = true)
    (hget : s'.sliceGet (tableReq t i 0) plat.nSlicesPort1 = some k) :
    k ∈ s.tableSlots plat s.ctrl.nSlicesReservedForHost ∧ Spares plat s (s'.takeTable t i k) := by
  have hmem := (mem_tableSlots_of_get (by rw [h.ctrl, hena]) hget).1
  rw [h.ctrl] at hmem
  have hk := h.subset hmem
  refine ⟨hk, replace_ctrl.trans h.ctrl, ?_, ?_, ?_⟩
  · rw [RabState.takeTable, ((s'.sliceFree _).sliceSetup_frame _ _).1, (s'.sliceFree_frame _).1, h.active]
  · intro m j hno
    rw [takeTable_slice, if_neg, h.slice m j hno]
    intro heq
    obtain ⟨rfl, rfl⟩ := heq
    exact hno ⟨rfl, hk⟩
  · intro j hno
    have hne : j ≠ k := fun heq => hno (heq ▸ hk)
    rw [takeTable_hw t hne, h.hw j hno]

/-- One more table has been mapped. -/
private theorem Mapped.take {done : List TableMapping} (h : Mapped plat s done s') {t : TableMapping}
    (hena : s.ctrl.socMhIsEna = true)
    (hget : s'.sliceGet (tableReq t i 0) plat.nSlicesPort1 = some k)
    (hsetup : (s'.sliceFree (tableReq t i k)).sliceSetupRefused (tableReq t i k) = false) :
    Mapped plat s (done ++ [t]) (s'.takeTable t i k) := by
  obtain ⟨hk, hspares⟩ := h.spares hena hget
  have hmem := (mem_tableSlots_of_get (by rw [h.ctrl, hena]) hget).1
  rw [h.ctrl] at hmem
  refine ⟨hspares, ?_, ?_, ?_, ?_⟩
  · intro u hu
    cases List.mem_append.mp hu with
    | inl hu =>
      obtain ⟨j, hj, hholds, henables⟩ := h.tables u hu
      -- the slice of another table is not available
      have hne : j ≠ k := by
        rintro rfl
        have hcheck := ((mem_tableSlots t i).mp hmem).2.2
        have hexpired : Expired maxDate (s'.slice 0 j).dateExp := expired_of_sliceCheck rfl hcheck
        rw [hholds.dateExp] at hexpired
        exact absurd hexpired (by decide)
      refine ⟨j, hj, hholds.congr ?_, ?_⟩
      · rw [takeTable_slice, if_neg fun hno => hne hno.2]
      · rw [RabState.EnablesTable, takeTable_hw t hne]
        exact henables
    | inr hu =>
      rw [List.mem_singleton.mp hu]
      exact ⟨k, hk, takeTable_holds t, takeTable_enables t h.active hsetup⟩
  · rw [takeTable_slots]
    exact (Finset.erase_subset k _).trans h.subset
  · rw [takeTable_slots, Finset.card_erase_of_mem hmem, List.length_append, List.length_singleton]
    have hpos := Finset.card_pos.mpr ⟨k, hmem⟩
    have hold := h.slots
    omega
  · intro hall
    obtain ⟨hunlisted, hcard⟩ := h.fields hall
    obtain ⟨hunlisted', hsub⟩ := takeTable_fields (i := i) (k := k) t hunlisted
    refine ⟨hunlisted', ?_⟩
    have hle := Finset.card_le_card hsub
    have herase := Finset.pred_card_le_card_erase (s := freeFields plat s' 0) (a := i)
    rw [List.length_append, List.length_singleton]
    omega

/-- The tables are mapped, or there is no room for them. -/
private def TablesOutcome (plat : Platform) (s : RabState) (ts : List TableMapping)
    (out : Except Err SliceReq) (s' : RabState) : Prop :=
  match out with
  | .ok req => (∃ t i k, req = tableReq t i k) ∧ Mapped plat s ts s'
  | .error _ => Spares plat s s' ∧ ¬ Fits plat s ts.length

private theorem Mapped.outcome {done : List TableMapping} (h : Mapped plat s done s')
    {t : TableMapping} (hena : s.ctrl.socMhIsEna = true) {out : Except Err SliceReq} {s'' : RabState}
    (hout : TableOutcome plat s' t out s'') : TablesOutcome plat s (done ++ [t]) out s'' := by
  cases hout with
  | noSlice i hget =>
    refine ⟨h.toSpares, ?_⟩
    rw [List.length_append, List.length_singleton]
    intro hfits
    have hempty := tableSlots_of_none hget
    rw [h.ctrl] at hempty
    have hslots := h.slots
    rw [hempty, Finset.card_empty] at hslots
    have hfit := hfits.slots
    omega
  | refused i k hget hfield hsetup =>
    refine ⟨(h.spares hena hget).2, ?_⟩
    rw [List.length_append, List.length_singleton]
    intro hfits
    obtain ⟨hunlisted, hcard⟩ := h.fields hfits.unlisted
    have hfit := hfits.fields
    -- there is a free list of pages, which freeing the slice does not refer to
    cases hj : s'.pagePtrsGetField plat.nSlicesPort1 0 with
    | none =>
      have hempty : freeFields plat s' 0 = ∅ := by
        rw [RabState.pagePtrsGetField, List.find?_eq_none] at hj
        apply Finset.filter_eq_empty_iff.mpr
        intro j hlt
        simpa using hj j (by simpa using hlt)
      rw [hempty, Finset.card_empty] at hcard
      omega
    | some j =>
      obtain rfl := hfield j hj
      obtain ⟨hlt, hzero⟩ := RabState.pagePtrsGetField_spec hj
      have hzero' := ((hunlisted j hlt).sliceFree (tableReq t j k)).2 hzero
      have heven : (s'.sliceFree (tableReq t j k)).refCntr (tableReq t j k).rabMapping
          (tableReq t j k).pagePtrIdx = 0 := hzero'
      rw [RabState.sliceSetupRefused, heven] at hsetup
      simp at hsetup
  | mapped i k hget hfield hsetup => exact ⟨⟨t, i, k, rfl⟩, h.take hena hget hsetup⟩

private theorem firstLevel_outcome (tables : PageTables) (t₀ : TableMapping) (i₀ k₀ : Nat)
    (hactive : s.l1.mappingActive = 0) (hena : s.ctrl.socMhIsEna = true) :
    TablesOutcome plat s (tables.mappings false)
      ((driver plat).exec (socMhEnaStatic1stLevel plat tables (tableReq t₀ i₀ k₀)) s).1
      ((driver plat).exec (socMhEnaStatic1stLevel plat tables (tableReq t₀ i₀ k₀)) s).2 := by
  let t : TableMapping := ⟨pgdBaseAddr, pgdBaseAddr + (tables.pgdSizeB - 1), tables.pgdPa⟩
  let i := (s.pagePtrsGetField plat.nSlicesPort1 0).getD i₀
  have hexec : (driver plat).exec (socMhEnaStatic1stLevel plat tables (tableReq t₀ i₀ k₀)) s =
      (driver plat).exec (socMhMapTable plat
        { tableReq t₀ i k₀ with addrStart := t.addrStart, addrEnd := t.addrEnd } t.addrOffset) s := by
    change (driver plat).exec ((pagePtrsGetFieldUnchecked plat (tableReq t₀ i₀ k₀)).bind fun req =>
      socMhMapTable plat { req with addrStart := t.addrStart, addrEnd := t.addrEnd } t.addrOffset) s = _
    rw [exec_bind, exec_getFieldUnchecked]
    rfl
  have hfield : ∀ j, s.pagePtrsGetField plat.nSlicesPort1 0 = some j → j = i := by
    intro j hj
    simp [i, hj]
  rw [hexec]
  exact (Mapped.start hactive).outcome hena (exec_socMhMapTable t t₀ i k₀ hfield)

/-- The table of an entry of the first level -/
private def PageTables.entry (tables : PageTables) (i : Nat) : Option TableMapping :=
  (tables.pmds.getD i none).map fun pmd =>
    ⟨pgdBaseAddr + i * tables.pmdSizeB, pgdBaseAddr + i * tables.pmdSizeB + (tables.pmdSizeB - 1), pmd⟩

/-- The loop body of `soc_mh_ena_static_2nd_level` -/
def secondLevelEntry (plat : Platform) (tables : PageTables) (req : SliceReq) (i : Nat) :
    Op SliceReq := do
  let req ← pagePtrsGetFieldUnchecked plat req
  let addrStart := pgdBaseAddr + i * tables.pmdSizeB
  let req := { req with addrStart := addrStart, addrEnd := addrStart + (tables.pmdSizeB - 1) }
  match tables.pmds.getD i none with
  | some pmd => socMhMapTable plat req pmd
  | none => return req

private theorem secondLevelEntry_outcome {done : List TableMapping} (h : Mapped plat s done s')
    (hena : s.ctrl.socMhIsEna = true) (tables : PageTables) (t₀ : TableMapping) (i₀ k₀ n : Nat) :
    TablesOutcome plat s (done ++ (tables.entry n).toList)
      ((driver plat).exec (secondLevelEntry plat tables (tableReq t₀ i₀ k₀) n) s').1
      ((driver plat).exec (secondLevelEntry plat tables (tableReq t₀ i₀ k₀) n) s').2 := by
  let i := (s'.pagePtrsGetField plat.nSlicesPort1 0).getD i₀
  have hfield : ∀ j, s'.pagePtrsGetField plat.nSlicesPort1 0 = some j → j = i := by
    intro j hj
    simp [i, hj]
  let addrStart := pgdBaseAddr + n * tables.pmdSizeB
  let addrEnd := addrStart + (tables.pmdSizeB - 1)
  have hexec : (driver plat).exec (secondLevelEntry plat tables (tableReq t₀ i₀ k₀) n) s' =
      (driver plat).exec (match tables.pmds.getD n none with
        | some pmd => socMhMapTable plat
            { tableReq t₀ i k₀ with addrStart := addrStart, addrEnd := addrEnd } pmd
        | none => Prog.ret { tableReq t₀ i k₀ with addrStart := addrStart, addrEnd := addrEnd }) s' := by
    change (driver plat).exec ((pagePtrsGetFieldUnchecked plat (tableReq t₀ i₀ k₀)).bind fun _ => _) s' = _
    rw [exec_bind, exec_getFieldUnchecked]
    rfl
  rw [hexec]
  cases hpmd : tables.pmds.getD n none with
  | none =>
    have hentry : tables.entry n = none := by rw [PageTables.entry, hpmd, Option.map_none]
    rw [hentry, Option.toList_none, List.append_nil]
    exact ⟨⟨⟨addrStart, addrEnd, t₀.addrOffset⟩, i, k₀, rfl⟩, h⟩
  | some pmd =>
    have hentry : tables.entry n = some ⟨addrStart, addrEnd, pmd⟩ := by
      rw [PageTables.entry, hpmd, Option.map_some]
    rw [hentry, Option.toList_some]
    exact h.outcome hena (exec_socMhMapTable ⟨addrStart, addrEnd, pmd⟩ t₀ i k₀ hfield)

private theorem secondLevel_outcome (tables : PageTables) (t₀ : TableMapping) (i₀ k₀ : Nat)
    (hactive : s.l1.mappingActive = 0) (hena : s.ctrl.socMhIsEna = true) :
    (driver plat).Triple always always (fun s' => s' = s)
      (socMhEnaStatic2ndLevel plat tables (tableReq t₀ i₀ k₀))
      (TablesOutcome plat s (tables.mappings true)) := by
  have hmappings : tables.mappings true =
      (List.range tables.pmds.length).filterMap tables.entry := rfl
  rw [hmappings]
  change (driver plat).Triple _ _ _
    (Prog.foldl (secondLevelEntry plat tables) (tableReq t₀ i₀ k₀) (List.range tables.pmds.length)) _
  apply Triple.conseq (Triple.foldl (R := fun pre _ req s' =>
    TablesOutcome plat s (pre.filterMap tables.entry) (.ok req) s') _ ?_ ?_ _) ?_ fun _ _ h => h
  · intro pre n post req hxs
    apply Triple.of_states
    intro s' hs'
    obtain ⟨⟨t, i, k, rfl⟩, hmapped⟩ := hs'
    have hout := secondLevelEntry_outcome hmapped hena tables t i k n
    intro s'' hs'' _
    subst hs''
    refine ⟨along_of_forall (fun _ _ => trivial) _ _, ?_⟩
    have hpre : (pre ++ [n]).filterMap tables.entry =
        pre.filterMap tables.entry ++ (tables.entry n).toList := by
      rw [List.filterMap_append]
      cases hentry : tables.entry n <;> simp [hentry]
    generalize (driver plat).exec (secondLevelEntry plat tables (tableReq t i k) n) s'' = res at hout ⊢
    obtain ⟨out, u⟩ := res
    cases out with
    | ok req =>
      change TablesOutcome plat s _ (.ok req) u
      rw [hpre]
      exact hout
    | error e =>
      refine ⟨hout.1, ?_⟩
      intro hfits
      apply hout.2
      apply hfits.mono
      rw [← hpre, hxs]
      apply List.Sublist.length_le
      apply List.Sublist.filterMap
      rw [List.append_cons pre n post]
      exact List.sublist_append_left _ _
  · exact fun _ _ h => h
  · intro s' hs'
    subst hs'
    exact ⟨⟨t₀, i₀, k₀, rfl⟩, Mapped.start hactive⟩

/-- The function for the tables of one level -/
def enaLevel (plat : Platform) (tables : PageTables) (static2nd : Bool) (req : SliceReq) :
    Op SliceReq :=
  if static2nd then socMhEnaStatic2ndLevel plat tables req
  else socMhEnaStatic1stLevel plat tables req

private theorem level_outcome (tables : PageTables) (static2nd : Bool) (t₀ : TableMapping)
    (i₀ k₀ : Nat) (hactive : s.l1.mappingActive = 0) (hena : s.ctrl.socMhIsEna = true) :
    TablesOutcome plat s (tables.mappings static2nd)
      ((driver plat).exec (enaLevel plat tables static2nd (tableReq t₀ i₀ k₀)) s).1
      ((driver plat).exec (enaLevel plat tables static2nd (tableReq t₀ i₀ k₀)) s).2 := by
  cases static2nd with
  | true => exact ((secondLevel_outcome tables t₀ i₀ k₀ hactive hena).run rfl).2
  | false => exact firstLevel_outcome tables t₀ i₀ k₀ hactive hena

/-- What `pulp_rab_soc_mh_ena` does from a state in which the host handles misses. -/
private inductive EnaOutcome (plat : Platform) (s : RabState) (stackReady : SliceReq) (r : Nat)
    (ts : List TableMapping) : Except Err Unit → RabState → Prop
  | busy (s₁ : RabState) (hready : ReadyOutcome stackReady (s.step plat (.setSocMh false r))
      (List.range' r (plat.nSlicesPort1 - r)) false s₁) :
    EnaOutcome plat s stackReady r ts (.error .ebusy) s₁
  | failed (s₁ s₂ : RabState) (e : Err) (hready : ReadyOutcome stackReady
      (s.step plat (.setSocMh false r)) (List.range' r (plat.nSlicesPort1 - r)) true s₁)
    (hspares : Spares plat (s₁.step plat (.setSocMh true r)) s₂)
    (hfits : ¬ Fits plat (s₁.step plat (.setSocMh true r)) ts.length) :
    EnaOutcome plat s stackReady r ts (.error e) (s₂.step plat (.setSocMh false r))
  | enabled (s₁ s₂ : RabState) (date : Nat) (acp : Bool) (lvl : Nat)
    (hready : ReadyOutcome stackReady (s.step plat (.setSocMh false r))
      (List.range' r (plat.nSlicesPort1 - r)) true s₁)
    (hmapped : Mapped plat (s₁.step plat (.setSocMh true r)) ts s₂) :
    EnaOutcome plat s stackReady r ts (.ok ()) (s₂.step plat (.setMh date acp lvl))

theorem exec_ena_enabled (stackReq stackReady : SliceReq) (tables : PageTables)
    (static2nd : Bool) (hena : s.ctrl.socMhIsEna = true) :
    (driver plat).exec (rabSocMhEna plat stackReq stackReady tables static2nd) s =
      (.error .ealready, s) := by
  change (driver plat).exec (if s.ctrl.socMhIsEna = true then _ else _) s = _
  rw [if_pos hena]
  rfl

/-- What `pulp_rab_soc_mh_ena` does once the slices are free. -/
def enaTables (plat : Platform) (r : Nat) (tables : PageTables) (static2nd : Bool) (req : SliceReq) :
    Op Unit :=
  Prog.call (.setSocMh true r) (((enaLevel plat tables static2nd req).handle fun e =>
    Prog.call (.setSocMh false r) (Prog.fail e)).bind fun _ =>
      Prog.read fun s => Prog.issue (.setMh 0 s.ctrl.mhAcp s.ctrl.mhLvl))

theorem exec_rabSocMhEna (stackReq stackReady : SliceReq) (tables : PageTables) (static2nd : Bool)
    (hena : s.ctrl.socMhIsEna = false) :
    (driver plat).exec (rabSocMhEna plat stackReq stackReady tables static2nd) s =
      (driver plat).exec ((rabIsReadyForSocMh stackReady
        (List.range' (reservedForHost plat (plat.static2nd static2nd) tables)
          (plat.nSlicesPort1 - reservedForHost plat (plat.static2nd static2nd) tables))).bind fun ready =>
        if ready = true then enaTables plat (reservedForHost plat (plat.static2nd static2nd) tables) tables
          (plat.static2nd static2nd)
          (tableReq ⟨stackReq.addrStart, stackReq.addrEnd, stackReq.addrOffset⟩ stackReq.pagePtrIdx
            stackReq.rabSlice)
        else Prog.fail .ebusy)
        (s.step plat (.setSocMh false (reservedForHost plat (plat.static2nd static2nd) tables))) := by
  change (driver plat).exec (if s.ctrl.socMhIsEna = true then _ else Prog.call (.setSocMh false _) _) s = _
  rw [if_neg (by simp [hena])]
  rfl

private theorem ena_outcome (stackReq stackReady : SliceReq) (tables : PageTables)
    (static2nd : Bool) (hactive : s.l1.mappingActive = 0) (hena : s.ctrl.socMhIsEna = false) :
    EnaOutcome plat s stackReady (reservedForHost plat (plat.static2nd static2nd) tables)
      (tables.mappings (plat.static2nd static2nd))
      ((driver plat).exec (rabSocMhEna plat stackReq stackReady tables static2nd) s).1
      ((driver plat).exec (rabSocMhEna plat stackReq stackReady tables static2nd) s).2 := by
  let r := reservedForHost plat (plat.static2nd static2nd) tables
  let ks := List.range' r (plat.nSlicesPort1 - r)
  let req := tableReq ⟨stackReq.addrStart, stackReq.addrEnd, stackReq.addrOffset⟩
    stackReq.pagePtrIdx stackReq.rabSlice
  obtain ⟨ready, s₁, hexec, hready⟩ := @ready_outcome plat (s.step plat (.setSocMh false r))
    stackReady ks List.nodup_range' hactive rfl
  have hrest : (driver plat).exec (rabSocMhEna plat stackReq stackReady tables static2nd) s =
      (driver plat).exec (if ready = true then enaTables plat r tables (plat.static2nd static2nd) req
        else Prog.fail .ebusy) s₁ := by
    rw [exec_rabSocMhEna _ _ _ _ hena, exec_bind, hexec]
  rw [hrest]
  cases ready with
  | false => exact .busy s₁ hready
  | true =>
    have hlevel := @level_outcome plat (s₁.step plat (.setSocMh true r)) tables
      (plat.static2nd static2nd) ⟨stackReq.addrStart, stackReq.addrEnd, stackReq.addrOffset⟩
      stackReq.pagePtrIdx stackReq.rabSlice hready.active rfl
    change EnaOutcome plat s stackReady r _
      ((driver plat).exec (((enaLevel plat tables (plat.static2nd static2nd) req).handle fun e =>
          Prog.call (.setSocMh false r) (Prog.fail e)).bind fun _ =>
            Prog.read fun s => Prog.issue (.setMh 0 s.ctrl.mhAcp s.ctrl.mhLvl))
        (s₁.step plat (.setSocMh true r))).1
      ((driver plat).exec (((enaLevel plat tables (plat.static2nd static2nd) req).handle fun e =>
          Prog.call (.setSocMh false r) (Prog.fail e)).bind fun _ =>
            Prog.read fun s => Prog.issue (.setMh 0 s.ctrl.mhAcp s.ctrl.mhLvl))
        (s₁.step plat (.setSocMh true r))).2
    rw [exec_bind, exec_handle]
    generalize (driver plat).exec (enaLevel plat tables (plat.static2nd static2nd)
      (tableReq ⟨stackReq.addrStart, stackReq.addrEnd, stackReq.addrOffset⟩ stackReq.pagePtrIdx
        stackReq.rabSlice)) (s₁.step plat (.setSocMh true r)) = res at hlevel ⊢
    obtain ⟨out, s₂⟩ := res
    cases out with
    | ok _ => exact .enabled s₁ s₂ _ _ _ hready hlevel.2
    | error e => exact .failed s₁ s₂ e hready hlevel.1 hlevel.2

end

end Hero.Rab
