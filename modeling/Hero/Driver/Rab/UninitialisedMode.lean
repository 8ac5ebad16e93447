import Hero.Driver.Rab.Uninitialised
import Hero.Framework.TwoRuns

/-!
# Enabling the miss handler on the SoC and uninitialised memory

The request with which slices are freed for the SoC has no flags assigned, and the one for the page
tables no index where no list of pages is free.
-/

namespace Hero.Rab

open Driver Flags Interp

attribute [ext] L1TlbMappingPort1 L1Tlb

/-- Two states that differ at most in what the kernel has released. -/
structure SameRab (s s' : RabState) : Prop where
  l1 : s.l1 = s'.l1
  hw : s.hw = s'.hw
  ctrl : s.ctrl = s'.ctrl

section

variable {s s' : RabState} {req req' : SliceReq} {pages : Option PageArray} {k : Nat}

theorem RabState.l1_ext (hslice : ∀ m k, s.slice m k = s'.slice m k)
    (hptr : ∀ m i, s.pagePtr m i = s'.pagePtr m i) (hcntr : ∀ m i, s.refCntr m i = s'.refCntr m i)
    (hport0 : ∀ k, s.l1.port0 k = s'.l1.port0 k) (hactive : s.l1.mappingActive = s'.l1.mappingActive) :
    s.l1 = s'.l1 := by
  apply L1Tlb.ext
  · exact funext hport0
  · funext m
    exact L1TlbMappingPort1.ext (funext (hslice m)) (funext (hptr m)) (funext (hcntr m))
  · exact hactive

namespace SameRab

theorem slice (h : SameRab s s') (m k : Nat) : s.slice m k = s'.slice m k := by
  rw [RabState.slice, RabState.slice, h.l1]

theorem pagePtr (h : SameRab s s') (m i : Nat) : s.pagePtr m i = s'.pagePtr m i := by
  rw [RabState.pagePtr, RabState.pagePtr, h.l1]

theorem refCntr (h : SameRab s s') (m i : Nat) : s.refCntr m i = s'.refCntr m i := by
  rw [RabState.refCntr, RabState.refCntr, h.l1]

theorem entry (h : SameRab s s') (req : SliceReq) : s.entry req = s'.entry req := by
  rw [RabState.entry, RabState.entry, h.l1]
  split
  · rfl
  · rw [h.slice]

theorem managed (h : SameRab s s') (req : SliceReq) :
    s.sliceIsManagedByHost req = s'.sliceIsManagedByHost req := by
  rw [RabState.sliceIsManagedByHost, RabState.sliceIsManagedByHost, h.ctrl]

theorem pagesOld (h : SameRab s s') (req : SliceReq) : s.pagesOld req = s'.pagesOld req := by
  rw [RabState.pagesOld, RabState.pagesOld]
  split
  · rfl
  · rw [h.pagePtr, h.slice]

theorem sliceGet (h : SameRab s s') (req : SliceReq) (n : Nat) : s.sliceGet req n = s'.sliceGet req n := by
  simp only [RabState.sliceGet, RabState.sliceCheck, h.entry, h.managed]

theorem pagePtrsGetField (h : SameRab s s') (n m : Nat) :
    s.pagePtrsGetField n m = s'.pagePtrsGetField n m := by
  simp only [RabState.pagePtrsGetField, h.refCntr]

theorem clearsHw (h : SameRab s s') (req : SliceReq) : s.clearsHw req = s'.clearsHw req := by
  simp only [RabState.clearsHw, h.managed, h.pagesOld, h.l1, h.hw]

theorem unrefs (h : SameRab s s') (req : SliceReq) : s.unrefs req = s'.unrefs req := by
  simp only [RabState.unrefs, h.managed, h.pagesOld, h.refCntr, h.slice]

/-- Requests that free the same slice with different flags do the same to the RAB if they agree on the
reference and on the hardware. -/
theorem sliceFree (h : SameRab s s') (hport : req.rabPort = req'.rabPort)
    (hmapping : req.rabMapping = req'.rabMapping) (hslice : req.rabSlice = req'.rabSlice)
    (hunrefs : s.unrefs req = s.unrefs req')
    (hhw : s.clearsHw req = s.clearsHw req' ∨ (s.hw req.rabPort req.rabSlice).flags = 0#8) :
    SameRab (s.sliceFree req) (s'.sliceFree req') := by
  have hmanaged : s.sliceIsManagedByHost req = s'.sliceIsManagedByHost req' := by
    rw [← h.managed, RabState.sliceIsManagedByHost, RabState.sliceIsManagedByHost, hport, hslice]
  have hpages : s.pagesOld req = s'.pagesOld req' := by
    rw [← h.pagesOld, RabState.pagesOld, RabState.pagesOld, hport, hmapping, hslice]
  refine ⟨RabState.l1_ext ?_ ?_ ?_ ?_ ?_, ?_, ?_⟩
  · intro m k
    rw [RabState.sliceFree_slice, RabState.sliceFree_slice, hmanaged, hport, hmapping, hslice, h.slice]
  · intro m i
    rw [RabState.sliceFree_pagePtr, RabState.sliceFree_pagePtr, hmanaged, hmapping, hslice, hpages,
      h.slice, h.refCntr, h.pagePtr]
  · intro m i
    rw [RabState.sliceFree_refCntr, RabState.sliceFree_refCntr, hunrefs, h.unrefs, hmapping, hslice,
      h.slice, h.refCntr]
  · intro k
    rw [RabState.sliceFree_entry0, RabState.sliceFree_entry0, hport, hslice, h.l1]
  · rw [(s.sliceFree_frame req).1, (s'.sliceFree_frame req').1, h.l1]
  · funext p k
    rw [RabState.sliceFree_hw, RabState.sliceFree_hw, ← h.clearsHw, ← hport, ← hslice, ← h.hw]
    cases hhw with
    | inl heq => rw [heq]
    | inr hzero =>
      have hsame : ∀ c : Bool, (if c ∧ p = req.rabPort ∧ k = req.rabSlice then
          (s.hw p k).withFlags 0#8 else s.hw p k) = s.hw p k := by
        intro c
        split
        · next hif =>
          rw [hif.2.1, hif.2.2, HwSlice.withFlags, ← hzero]
        · rfl
      rw [hsame, hsame]
  · rw [(s.sliceFree_frame req).2.1, (s'.sliceFree_frame req').2.1, h.ctrl]

theorem sliceSetup (h : SameRab s s') (req : SliceReq) (pages : Option PageArray) :
    SameRab (s.sliceSetup req pages) (s'.sliceSetup req pages) := by
  have hrefused : s.sliceSetupRefused req = s'.sliceSetupRefused req := by
    simp only [RabState.sliceSetupRefused, h.refCntr]
  have htakes : s.takesRef req = s'.takesRef req := by
    rw [RabState.takesRef, RabState.takesRef, hrefused]
  have hconf : s.configures req = s'.configures req := by
    rw [RabState.configures, RabState.configures, htakes, h.l1]
  refine ⟨RabState.l1_ext ?_ ?_ ?_ ?_ ?_, ?_, ?_⟩
  · intro m k
    rw [RabState.sliceSetup_slice, RabState.sliceSetup_slice, h.slice]
  · intro m i
    rw [RabState.sliceSetup_pagePtr, RabState.sliceSetup_pagePtr, htakes, h.pagePtr]
  · intro m i
    rw [RabState.sliceSetup_refCntr, RabState.sliceSetup_refCntr, htakes, h.refCntr]
  · intro k
    rw [RabState.sliceSetup_entry0, RabState.sliceSetup_entry0, h.l1]
  · rw [(s.sliceSetup_frame req pages).1, (s'.sliceSetup_frame req pages).1, h.l1]
  · funext p k
    rw [RabState.sliceSetup_hw, RabState.sliceSetup_hw, hconf, h.hw]
  · rw [(s.sliceSetup_frame req pages).2.1, (s'.sliceSetup_frame req pages).2.1, h.ctrl]

end SameRab

end

/-- The hardware slice is the one that is freed, or it is clear. -/
def RabState.Quiet (s : RabState) (k : Nat) : Prop :=
  s.l1.mappingActive = 0 ∨ (s.hw .port1 k).flags = 0#8

/-- What `rab_is_ready_for_soc_mh` does with an expired slice, after it has freed the slices `before`,
does not depend on flags: the slice is not fixed, and it has a list of pages, or there is no counter to
lower and no register to clear. -/
def RabState.FlagsUnused (s : RabState) (before : List Nat) (k : Nat) : Prop :=
  (s.slice 0 k).fixed = false ∧ match s.pagePtr 0 (s.slice 0 k).pagePtrIdx with
  | none => s.refCntr 0 (s.slice 0 k).pagePtrIdx = 0 ∧ s.Quiet k
  | some _ => s.Quiet k ∨ before.countP (fun j => (s.slice 0 j).pagePtrIdx = (s.slice 0 k).pagePtrIdx) <
      s.refCntr 0 (s.slice 0 k).pagePtrIdx

/-- The slices up to the first that has not expired are freed without use of the flags. -/
def RabState.WalkUnused (s : RabState) (ks : List Nat) : Prop :=
  ∀ before k after, ks = before ++ k :: after →
    (∀ j ∈ before ++ [k], Expired maxDateMh (s.slice 0 j).dateExp) → s.FlagsUnused before k

/-- No slice refers to the list of pages once the slices `ks` are freed. -/
def RabState.FieldFreed (s : RabState) (ks : List Nat) (i : Nat) : Prop := match s.pagePtr 0 i with
  | none => s.refCntr 0 i = 0
  | some _ => 0 < s.refCntr 0 i ∧ s.refCntr 0 i ≤ ks.countP fun j => (s.slice 0 j).pagePtrIdx = i

section

variable {s s' : RabState} {stack stack' : SliceReq} {before ks : List Nat} {j k i : Nat}

private theorem ready_managed (hhost : s.ctrl.socMhIsEna = false) :
    s.sliceIsManagedByHost (readyReq stack k) = true := by
  simp [RabState.sliceIsManagedByHost, hhost]

/-- Freeing a slice does not change the index of another. -/
private theorem free_slice_of_ne (hne : j ≠ k) :
    (s.sliceFree (readyReq stack k)).slice 0 j = s.slice 0 j := by
  rw [RabState.sliceFree_slice, if_neg fun hno => hne hno.2.2.2]

private theorem ready_pagesOld : s.pagesOld (readyReq stack k) = s.pagePtr 0 (s.slice 0 k).pagePtrIdx :=
  rfl

private theorem ready_unrefs (hhost : s.ctrl.socMhIsEna = false) : s.unrefs (readyReq stack k) =
    ((s.pagePtr 0 (s.slice 0 k).pagePtrIdx).isSome || stack.flagsDrv.has drvConst &&
      s.refCntr 0 (s.slice 0 k).pagePtrIdx ≠ 0) := by
  rw [RabState.unrefs, ready_managed hhost, ready_pagesOld]
  rfl

/-- A list of pages that is free stays free. -/
private theorem free_field_none (stack : SliceReq) (k : Nat) (hhost : s.ctrl.socMhIsEna = false) (hnone : s.pagePtr 0 i = none)
    (hzero : s.refCntr 0 i = 0) : (s.sliceFree (readyReq stack k)).pagePtr 0 i = none ∧
      (s.sliceFree (readyReq stack k)).refCntr 0 i = 0 := by
  constructor
  · rw [RabState.sliceFree_pagePtr, hnone, ite_self]
  · rw [RabState.sliceFree_refCntr, hzero, if_neg]
    intro hno
    have hi : i = (s.slice 0 k).pagePtrIdx := hno.2.2
    rw [ready_unrefs hhost, ← hi, hnone, hzero] at hno
    simp at hno

/-- A list of pages loses the references of the slices that are freed. -/
private theorem free_field_some (stack : SliceReq) (k : Nat) (hhost : s.ctrl.socMhIsEna = false) {pages : PageArray}
    (hsome : s.pagePtr 0 i = some pages) :
    (s.sliceFree (readyReq stack k)).refCntr 0 i =
      (if (s.slice 0 k).pagePtrIdx = i then sub32 (s.refCntr 0 i) 1 else s.refCntr 0 i) ∧
    (s.sliceFree (readyReq stack k)).pagePtr 0 i =
      if (s.slice 0 k).pagePtrIdx = i ∧ sub32 (s.refCntr 0 i) 1 = 0 then none else some pages := by
  rw [RabState.sliceFree_refCntr, RabState.sliceFree_pagePtr, hsome]
  by_cases hi : (s.slice 0 k).pagePtrIdx = i
  · have hunrefs : s.unrefs (readyReq stack k) = true := by
      rw [ready_unrefs hhost, hi, hsome]
      rfl
    have hpages : (s.pagesOld (readyReq stack k)).isSome = true := by
      rw [ready_pagesOld, hi, hsome]
      rfl
    rw [if_pos ⟨hunrefs, rfl, hi.symm⟩, if_pos hi]
    refine ⟨rfl, ?_⟩
    by_cases hzero : sub32 (s.refCntr 0 i) 1 = 0
    · rw [if_pos ⟨ready_managed hhost, rfl, hpages, hi.symm, hzero⟩, if_pos ⟨hi, hzero⟩]
    · rw [if_neg fun hno => hzero hno.2.2.2.2, if_neg fun hno => hzero hno.2]
  · rw [if_neg fun hno => hi hno.2.2.symm, if_neg hi, if_neg fun hno => hi hno.2.2.2.1.symm,
      if_neg fun hno => hi hno.1]
    exact ⟨rfl, rfl⟩

/-- What is left after one slice has been freed. -/
private theorem walkUnused_free (hhost : s.ctrl.socMhIsEna = false) (hnodup : (k :: ks).Nodup)
    (hexp : Expired maxDateMh (s.slice 0 k).dateExp) (hwalk : s.WalkUnused (k :: ks)) :
    (s.sliceFree (readyReq stack k)).WalkUnused ks := by
  have hother : ∀ j ∈ ks, (s.sliceFree (readyReq stack k)).slice 0 j = s.slice 0 j := by
    intro j hj
    apply free_slice_of_ne
    rintro rfl
    exact (List.nodup_cons.mp hnodup).1 hj
  intro before j after hks hbefore
  have hmem : ∀ l ∈ before ++ [j], l ∈ ks := by
    intro l hl
    rw [hks, List.append_cons]
    exact List.mem_append_left after hl
  have hj : j ∈ ks := hmem j (List.mem_append_right before List.mem_cons_self)
  have hunused := hwalk (k :: before) j after (by rw [hks]; rfl) (by
    intro l hl
    rw [List.cons_append, List.mem_cons] at hl
    cases hl with
    | inl heq => rw [heq]; exact hexp
    | inr hl =>
      have hl' := hbefore l hl
      rw [hother l (hmem l hl)] at hl'
      exact hl')
  have hquiet : s.Quiet j → (s.sliceFree (readyReq stack k)).Quiet j := by
    intro hq
    have hne : j ≠ k := by
      rintro rfl
      exact (List.nodup_cons.mp hnodup).1 hj
    rw [RabState.Quiet, (s.sliceFree_frame _).1, RabState.sliceFree_hw, if_neg fun hno => hne hno.2.2]
    exact hq
  have hcount : ∀ i, before.countP (fun l =>
      ((s.sliceFree (readyReq stack k)).slice 0 l).pagePtrIdx = i) =
      before.countP fun l => (s.slice 0 l).pagePtrIdx = i := by
    intro i
    apply List.countP_congr
    intro l hl
    rw [hother l (hmem l (List.mem_append_left _ hl))]
  rw [RabState.FlagsUnused, hother j hj]
  refine ⟨hunused.1, ?_⟩
  have hcase := hunused.2
  cases hptr : s.pagePtr 0 (s.slice 0 j).pagePtrIdx with
  | none =>
    rw [hptr] at hcase
    have hfield := free_field_none stack k hhost hptr hcase.1
    rw [hfield.1, hfield.2]
    exact ⟨rfl, hquiet hcase.2⟩
  | some pages =>
    rw [hptr] at hcase
    simp only [List.countP_cons, decide_eq_true_eq] at hcase
    have hfield := free_field_some stack k hhost hptr
    rw [hfield.1, hfield.2, hcount]
    by_cases hi : (s.slice 0 k).pagePtrIdx = (s.slice 0 j).pagePtrIdx
    · rw [if_pos hi] at hcase ⊢
      by_cases hzero : sub32 (s.refCntr 0 (s.slice 0 j).pagePtrIdx) 1 = 0
      · rw [if_pos ⟨hi, hzero⟩]
        refine ⟨hzero, hcase.elim hquiet fun hlt => ?_⟩
        rw [sub32_of_le (by omega)] at hzero
        omega
      · rw [if_neg fun hno => hzero hno.2]
        apply hcase.imp hquiet
        intro hlt
        rw [sub32_of_le (by omega)]
        omega
    · rw [if_neg hi] at hcase ⊢
      rw [if_neg fun hno => hi hno.1]
      exact hcase.imp hquiet id

private theorem fieldFreed_free (hhost : s.ctrl.socMhIsEna = false) (hnodup : (k :: ks).Nodup)
    (hfield : s.FieldFreed (k :: ks) i) : (s.sliceFree (readyReq stack k)).FieldFreed ks i := by
  have hcount : ks.countP (fun l => ((s.sliceFree (readyReq stack k)).slice 0 l).pagePtrIdx = i) =
      ks.countP fun l => (s.slice 0 l).pagePtrIdx = i := by
    apply List.countP_congr
    intro l hl
    rw [free_slice_of_ne]
    rintro rfl
    exact (List.nodup_cons.mp hnodup).1 hl
  rw [RabState.FieldFreed] at hfield
  cases hptr : s.pagePtr 0 i with
  | none =>
    rw [hptr] at hfield
    have hfree := free_field_none stack k hhost hptr hfield
    rw [RabState.FieldFreed, hfree.1]
    exact hfree.2
  | some pages =>
    rw [hptr] at hfield
    simp only [List.countP_cons, decide_eq_true_eq] at hfield
    have hfree := free_field_some stack k hhost hptr
    rw [RabState.FieldFreed, hfree.1, hfree.2, hcount]
    by_cases hi : (s.slice 0 k).pagePtrIdx = i
    · rw [if_pos hi] at hfield ⊢
      rw [sub32_of_le (by omega)]
      by_cases hzero : s.refCntr 0 i - 1 = 0
      · rw [if_pos ⟨hi, hzero⟩]
        exact hzero
      · rw [if_neg fun hno => hzero hno.2]
        exact ⟨by omega, by omega⟩
    · rw [if_neg hi] at hfield ⊢
      rw [if_neg fun hno => hi hno.1]
      exact hfield

private theorem refCntr_of_fieldFreed (hfield : s.FieldFreed [] i) : s.refCntr 0 i = 0 := by
  rw [RabState.FieldFreed] at hfield
  cases hptr : s.pagePtr 0 i with
  | none =>
    rw [hptr] at hfield
    exact hfield
  | some pages =>
    rw [hptr] at hfield
    exact absurd hfield.2 (by simp; omega)

private theorem exec_ready_cons (plat : Platform) (s : RabState) (stack : SliceReq) (k : Nat)
    (ks : List Nat) : (driver plat).exec (rabIsReadyForSocMh stack (k :: ks)) s =
      if s.sliceCheck (readyReq stack k) = true then
        (driver plat).exec (rabIsReadyForSocMh stack ks) (s.sliceFree (readyReq stack k))
      else (.ok false, s) := by
  change (driver plat).exec (if s.sliceCheck (readyReq stack k) = true then _ else _) s = _
  split <;> rfl

private theorem ready_check (hexp : Expired maxDateMh (s.slice 0 k).dateExp)
    (hfixed : (s.slice 0 k).fixed = false) : s.sliceCheck (readyReq stack k) = true := by
  have hentry : s.entry (readyReq stack k) = (s.slice 0 k).toL1EntryPort0 := rfl
  have hdate : (readyReq stack k).dateCur = maxDateMh := rfl
  rw [RabState.sliceCheck, hentry, hfixed, hdate]
  simpa [Expired, eq_comm (a := maxDateMh)] using hexp

/-- Freeing a slice makes no use of the flags. -/
private theorem sameRab_free (h : SameRab s s') (hhost : s.ctrl.socMhIsEna = false)
    (hk : s.FlagsUnused [] k) :
    SameRab (s.sliceFree (readyReq stack k)) (s'.sliceFree (readyReq stack' k)) := by
  apply h.sliceFree
  · rfl
  · rfl
  · rfl
  · rw [ready_unrefs hhost, ready_unrefs hhost]
    have hcase := hk.2
    cases hptr : s.pagePtr 0 (s.slice 0 k).pagePtrIdx with
    | none =>
      rw [hptr] at hcase
      simp [hcase.1]
    | some pages => rfl
  · have hcase := hk.2
    have hclears : ∀ stack : SliceReq, s.clearsHw (readyReq stack k) =
        if (s.pagePtr 0 (s.slice 0 k).pagePtrIdx).isSome ∨ Port.port1 = Port.port1 ∧
          stack.flagsDrv.has drvConst then decide (s.l1.mappingActive = 0)
        else decide ((s.hw .port1 k).flags ≠ 0#8) := by
      intro stack
      rw [RabState.clearsHw, ready_managed hhost, ready_pagesOld]
      rfl
    cases hptr : s.pagePtr 0 (s.slice 0 k).pagePtrIdx with
    | none =>
      rw [hptr] at hcase
      by_cases hzero : (s.hw .port1 k).flags = 0#8
      · exact Or.inr hzero
      · left
        rw [hclears, hclears, hptr]
        simp [hcase.2.resolve_right hzero, hzero]
    | some pages =>
      left
      rw [hclears, hclears, hptr]
      simp

private theorem ready_outcomes (plat : Platform) (stack stack' : SliceReq) (h : SameRab s s') (hhost : s.ctrl.socMhIsEna = false)
    (hnodup : ks.Nodup) (hwalk : s.WalkUnused ks) : ∃ ready t t',
      (driver plat).exec (rabIsReadyForSocMh stack ks) s = (.ok ready, t) ∧
      (driver plat).exec (rabIsReadyForSocMh stack' ks) s' = (.ok ready, t') ∧ SameRab t t' ∧
      (∀ k ∉ ks, t.slice 0 k = s.slice 0 k) ∧
      (ready = true → (∀ k ∈ ks, Expired maxDateMh (s.slice 0 k).dateExp) ∧
        ∀ i, s.FieldFreed ks i → t.refCntr 0 i = 0) := by
  induction ks generalizing s s' with
  | nil =>
    exact ⟨true, s, s', rfl, rfl, h, fun _ _ => rfl, fun _ => ⟨by simp, fun i hi =>
      refCntr_of_fieldFreed hi⟩⟩
  | cons k ks ih =>
    by_cases hexp : Expired maxDateMh (s.slice 0 k).dateExp
    · have hk : s.FlagsUnused [] k := hwalk [] k ks rfl (by simpa using hexp)
      have hcheck : s.sliceCheck (readyReq stack k) = true := ready_check hexp hk.1
      have hcheck' : s'.sliceCheck (readyReq stack' k) = true := by
        apply ready_check
        · rw [← h.slice]
          exact hexp
        · rw [← h.slice]
          exact hk.1
      have hframe := s.sliceFree_frame (readyReq stack k)
      obtain ⟨ready, t, t', hexec, hexec', hsame, hslices, hfields⟩ :=
        ih (sameRab_free h hhost hk) (by rw [hframe.2.1]; exact hhost) (List.nodup_cons.mp hnodup).2
          (walkUnused_free hhost hnodup hexp hwalk)
      refine ⟨ready, t, t', ?_, ?_, hsame, ?_, ?_⟩
      · rw [exec_ready_cons, if_pos hcheck]
        exact hexec
      · rw [exec_ready_cons, if_pos hcheck']
        exact hexec'
      · intro j hj
        rw [List.mem_cons, not_or] at hj
        rw [hslices j hj.2, free_slice_of_ne hj.1]
      · intro hready
        refine ⟨?_, fun i hi => (hfields hready).2 i (fieldFreed_free hhost hnodup hi)⟩
        intro j hj
        cases List.mem_cons.mp hj with
        | inl heq => rw [heq]; exact hexp
        | inr hj =>
          have hexp' := (hfields hready).1 j hj
          have hne : j ≠ k := fun heq => (List.nodup_cons.mp hnodup).1 (heq ▸ hj)
          rw [free_slice_of_ne hne] at hexp'
          exact hexp'
    · have hcheck : s.sliceCheck (readyReq stack k) = false := sliceCheck_of_not_expired rfl hexp
      have hcheck' : s'.sliceCheck (readyReq stack' k) = false := by
        apply sliceCheck_of_not_expired rfl
        rw [← h.slice]
        exact hexp
      refine ⟨false, s, s', ?_, ?_, h, fun _ _ => rfl, fun hno => Bool.noConfusion hno⟩
      · rw [exec_ready_cons, if_neg (by simp [hcheck])]
      · rw [exec_ready_cons, if_neg (by simp [hcheck'])]

end

/-- Requests for tables that agree on the list of pages -/
def SameField (req req' : SliceReq) : Prop :=
  ∃ t t' i k k', req = tableReq t i k ∧ req' = tableReq t' i k'

/-- Requests for tables -/
def BothTables (req req' : SliceReq) : Prop :=
  ∃ t t' i i' k k', req = tableReq t i k ∧ req' = tableReq t' i' k'

section

variable {plat : Platform} {s s' : RabState} {t₀ t₀' t : TableMapping} {i i' k k' : Nat}

private theorem exec_mapTable (plat : Platform) (s : RabState) (t₀ t : TableMapping) (i k : Nat) :
    (driver plat).exec (socMhMapTable plat
      { tableReq t₀ i k with addrStart := t.addrStart, addrEnd := t.addrEnd } t.addrOffset) s =
      match s.sliceGet (tableReq t i 0) plat.nSlicesPort1 with
      | none => (.error .noSlice, s)
      | some j => placeOutcome s none (tableReq t i j) :=
  exec_take plat s (tableReq t i k) none plat.nSlicesPort1 rfl

private theorem alike_mapTable (h : SameRab s s') (t₀ t₀' t : TableMapping) (i k k' : Nat) :
    (driver plat).Alike SameRab SameField
      (socMhMapTable plat { tableReq t₀ i k with addrStart := t.addrStart, addrEnd := t.addrEnd }
        t.addrOffset)
      (socMhMapTable plat { tableReq t₀' i k' with addrStart := t.addrStart, addrEnd := t.addrEnd }
        t.addrOffset) s s' := by
  rw [Alike, exec_mapTable, exec_mapTable, ← h.sliceGet]
  cases s.sliceGet (tableReq t i 0) plat.nSlicesPort1 with
  | none => exact .error h
  | some j =>
    have hfree : SameRab (s.sliceFree (tableReq t i j)) (s'.sliceFree (tableReq t i j)) :=
      h.sliceFree rfl rfl rfl rfl (Or.inl rfl)
    have hrefused : (s'.sliceFree (tableReq t i j)).sliceSetupRefused (tableReq t i j) =
        (s.sliceFree (tableReq t i j)).sliceSetupRefused (tableReq t i j) := by
      simp only [RabState.sliceSetupRefused, hfree.refCntr]
    have hsetup := hfree.sliceSetup (tableReq t i j) none
    simp only [placeOutcome, hrefused]
    cases (s.sliceFree (tableReq t i j)).sliceSetupRefused (tableReq t i j) with
    | true => exact .error hsetup
    | false => exact .ok ⟨t, t, i, j, j, rfl, rfl⟩ hsetup

/-- The index does not come from the stack. -/
def FieldKnown (plat : Platform) (s : RabState) (i i' : Nat) : Prop :=
  i = i' ∨ ∃ j, s.pagePtrsGetField plat.nSlicesPort1 0 = some j

private theorem FieldKnown.getD (h : FieldKnown plat s i i') (hsame : SameRab s s') :
    (s.pagePtrsGetField plat.nSlicesPort1 0).getD i = (s'.pagePtrsGetField plat.nSlicesPort1 0).getD i' := by
  rw [← hsame.pagePtrsGetField]
  cases h with
  | inl heq => rw [heq]
  | inr hfield =>
    obtain ⟨j, hj⟩ := hfield
    rw [hj]
    rfl

private theorem exec_firstLevel (plat : Platform) (s : RabState) (tables : PageTables)
    (t₀ : TableMapping) (i k : Nat) :
    (driver plat).exec (socMhEnaStatic1stLevel plat tables (tableReq t₀ i k)) s =
      (driver plat).exec (socMhMapTable plat
        { tableReq t₀ ((s.pagePtrsGetField plat.nSlicesPort1 0).getD i) k with
          addrStart := pgdBaseAddr, addrEnd := pgdBaseAddr + (tables.pgdSizeB - 1) } tables.pgdPa) s := by
  change (driver plat).exec ((pagePtrsGetFieldUnchecked plat (tableReq t₀ i k)).bind fun req =>
    socMhMapTable plat { req with addrStart := pgdBaseAddr, addrEnd := pgdBaseAddr + (tables.pgdSizeB - 1) }
      tables.pgdPa) s = _
  rw [exec_bind, exec_getFieldUnchecked]
  rfl

private theorem exec_secondLevelEntry (plat : Platform) (s : RabState) (tables : PageTables)
    (t₀ : TableMapping) (i k n : Nat) :
    (driver plat).exec (secondLevelEntry plat tables (tableReq t₀ i k) n) s =
      (driver plat).exec (match tables.pmds.getD n none with
        | some pmd => socMhMapTable plat
            { tableReq t₀ ((s.pagePtrsGetField plat.nSlicesPort1 0).getD i) k with
              addrStart := pgdBaseAddr + n * tables.pmdSizeB
              addrEnd := pgdBaseAddr + n * tables.pmdSizeB + (tables.pmdSizeB - 1) } pmd
        | none => Prog.ret { tableReq t₀ ((s.pagePtrsGetField plat.nSlicesPort1 0).getD i) k with
            addrStart := pgdBaseAddr + n * tables.pmdSizeB
            addrEnd := pgdBaseAddr + n * tables.pmdSizeB + (tables.pmdSizeB - 1) }) s := by
  change (driver plat).exec ((pagePtrsGetFieldUnchecked plat (tableReq t₀ i k)).bind fun _ => _) s = _
  rw [exec_bind, exec_getFieldUnchecked]
  rfl

private theorem alike_secondLevelEntry (h : SameRab s s') (hknown : FieldKnown plat s i i')
    (tables : PageTables) (n : Nat) : (driver plat).Alike SameRab SameField
      (secondLevelEntry plat tables (tableReq t₀ i k) n)
      (secondLevelEntry plat tables (tableReq t₀' i' k') n) s s' := by
  rw [Alike, exec_secondLevelEntry, exec_secondLevelEntry, hknown.getD h]
  cases tables.pmds.getD n none with
  | none =>
    exact .ok ⟨⟨_, _, t₀.addrOffset⟩, ⟨_, _, t₀'.addrOffset⟩, _, k, k', rfl, rfl⟩ h
  | some pmd => exact alike_mapTable h t₀ t₀' ⟨_, _, pmd⟩ _ k k'

/-- Where a list of pages is free, the tables are mapped without use of the stack. -/
private theorem alike_level (h : SameRab s s') (hknown : FieldKnown plat s i i') (tables : PageTables)
    (static2nd : Bool) : (driver plat).Alike SameRab BothTables
      (enaLevel plat tables static2nd (tableReq t₀ i k))
      (enaLevel plat tables static2nd (tableReq t₀' i' k')) s s' := by
  have hweak : ∀ req req', SameField req req' → BothTables req req' := by
    rintro req req' ⟨t, t', i, k, k', hreq, hreq'⟩
    exact ⟨t, t', i, i, k, k', hreq, hreq'⟩
  cases static2nd with
  | false =>
    apply Alike.mono _ hweak fun _ _ hsame => hsame
    change (driver plat).Alike SameRab SameField (socMhEnaStatic1stLevel plat tables (tableReq t₀ i k))
      (socMhEnaStatic1stLevel plat tables (tableReq t₀' i' k')) s s'
    rw [Alike, exec_firstLevel, exec_firstLevel, hknown.getD h]
    exact alike_mapTable h t₀ t₀' ⟨_, _, tables.pgdPa⟩ _ k k'
  | true =>
    change (driver plat).Alike SameRab BothTables
      (Prog.foldl (secondLevelEntry plat tables) (tableReq t₀ i k) (List.range tables.pmds.length))
      (Prog.foldl (secondLevelEntry plat tables) (tableReq t₀' i' k') (List.range tables.pmds.length)) s s'
    cases List.range tables.pmds.length with
    | nil => exact Alike.ret ⟨t₀, t₀', i, i', k, k', rfl, rfl⟩ h
    | cons n ns =>
      apply (alike_secondLevelEntry h hknown tables n).bind
      rintro req req' u u' hreq hsame
      apply Alike.mono _ hweak fun _ _ hsame => hsame
      apply Alike.foldl _ hreq hsame
      rintro _ _ m _ v v' ⟨t, t', j, l, l', rfl, rfl⟩ hsame'
      exact alike_secondLevelEntry hsame' (Or.inl rfl) tables m

/-- No table is mapped: there is none, or no slice for one. -/
def NoneMapped (plat : Platform) (tables : PageTables) (static2nd : Bool) (s : RabState) : Prop :=
  tables.mappings static2nd ≠ [] → ∀ t i, s.sliceGet (tableReq t i 0) plat.nSlicesPort1 = none

private theorem alike_mapTable_none (h : SameRab s s')
    (hnone : ∀ t i, s.sliceGet (tableReq t i 0) plat.nSlicesPort1 = none) (t₀ t₀' t : TableMapping)
    (i i' k k' : Nat) {S : RabState → RabState → Prop} (hS : S s s') :
    (driver plat).Alike S BothTables
      (socMhMapTable plat { tableReq t₀ i k with addrStart := t.addrStart, addrEnd := t.addrEnd }
        t.addrOffset)
      (socMhMapTable plat { tableReq t₀' i' k' with addrStart := t.addrStart, addrEnd := t.addrEnd }
        t.addrOffset) s s' := by
  rw [Alike, exec_mapTable, exec_mapTable, ← h.sliceGet, hnone, hnone]
  exact .error hS

/-- Where no table is mapped, the index does not matter. -/
private theorem alike_level_none (h : SameRab s s') (tables : PageTables) (static2nd : Bool)
    (hnone : NoneMapped plat tables static2nd s) : (driver plat).Alike SameRab BothTables
      (enaLevel plat tables static2nd (tableReq t₀ i k))
      (enaLevel plat tables static2nd (tableReq t₀' i' k')) s s' := by
  cases static2nd with
  | false =>
    change (driver plat).Alike SameRab BothTables (socMhEnaStatic1stLevel plat tables (tableReq t₀ i k))
      (socMhEnaStatic1stLevel plat tables (tableReq t₀' i' k')) s s'
    rw [Alike, exec_firstLevel, exec_firstLevel]
    exact alike_mapTable_none h (hnone (by simp [PageTables.mappings])) t₀ t₀' ⟨_, _, tables.pgdPa⟩ _ _ k k' h
  | true =>
    change (driver plat).Alike SameRab BothTables
      (Prog.foldl (secondLevelEntry plat tables) (tableReq t₀ i k) (List.range tables.pmds.length))
      (Prog.foldl (secondLevelEntry plat tables) (tableReq t₀' i' k') (List.range tables.pmds.length)) s s'
    have hloop : (driver plat).Alike (fun u u' => SameRab u u' ∧ NoneMapped plat tables true u) BothTables
        (Prog.foldl (secondLevelEntry plat tables) (tableReq t₀ i k) (List.range tables.pmds.length))
        (Prog.foldl (secondLevelEntry plat tables) (tableReq t₀' i' k') (List.range tables.pmds.length))
        s s' := by
      apply Alike.foldl _ ⟨t₀, t₀', i, i', k, k', rfl, rfl⟩ ⟨h, hnone⟩
      rintro _ _ n hn u u' ⟨t, t', j, j', l, l', rfl, rfl⟩ ⟨hsame, hnone'⟩
      rw [Alike, exec_secondLevelEntry, exec_secondLevelEntry]
      cases hpmd : tables.pmds.getD n none with
      | none => exact .ok ⟨⟨_, _, t.addrOffset⟩, ⟨_, _, t'.addrOffset⟩, _, _, l, l', rfl, rfl⟩ ⟨hsame, hnone'⟩
      | some pmd =>
        have hne : tables.mappings true ≠ [] := by
          apply List.ne_nil_of_mem (a := ⟨pgdBaseAddr + n * tables.pmdSizeB,
            pgdBaseAddr + n * tables.pmdSizeB + (tables.pmdSizeB - 1), pmd⟩)
          rw [PageTables.mappings, if_pos rfl, List.mem_filterMap]
          exact ⟨n, hn, by rw [hpmd]; rfl⟩
        exact alike_mapTable_none hsame (hnone' hne) t t' ⟨_, _, pmd⟩ _ _ l l' ⟨hsame, hnone'⟩
    exact hloop.mono (fun _ _ hreq => hreq) fun _ _ hS => hS.1

end

section

variable (plat : Platform) (s : RabState) (tables : PageTables) (static2nd : Bool)

/-- The slices that are freed for the SoC. -/
def socSlices : List Nat :=
  List.range' (reservedForHost plat (plat.static2nd static2nd) tables)
    (plat.nSlicesPort1 - reservedForHost plat (plat.static2nd static2nd) tables)

/-- Enabling the miss handler on the SoC comes out the same whatever was on the stack. -/
def EnableDetermined : Prop := ∀ stackReq stackReady stackReq' stackReady' : SliceReq,
  seen ((driver plat).exec (rabSocMhEna plat stackReq stackReady tables static2nd) s) =
    seen ((driver plat).exec (rabSocMhEna plat stackReq' stackReady' tables static2nd) s)

/-- What was on the stack is not used when the miss handler on the SoC is enabled: the slices are freed
without use of the flags, and then one of them has not expired, or there is a free list of pages, or no
table to map, or no slice for one. -/
def EnableUnused : Prop := s.ctrl.socMhIsEna = true ∨
  s.WalkUnused (socSlices plat tables static2nd) ∧
    ((∃ k ∈ socSlices plat tables static2nd, ¬ Expired maxDateMh (s.slice 0 k).dateExp) ∨
      (∃ i < plat.nSlicesPort1, s.FieldFreed (socSlices plat tables static2nd) i) ∨
      tables.mappings (plat.static2nd static2nd) = [] ∨
      ∀ k < reservedForHost plat (plat.static2nd static2nd) tables,
        Expired maxDate (s.slice 0 k).dateExp → (s.slice 0 k).fixed = true)

end

section

variable {plat : Platform} {s : RabState} {tables : PageTables} {static2nd : Bool}

theorem seen_of_alike {α β : Type} {R : α → β → Prop} {p : Op α} {q : Op β} {s' : RabState}
    (h : (driver plat).Alike SameRab R p q s s') :
    seen ((driver plat).exec p s) = seen ((driver plat).exec q s') := by
  rw [Alike] at h
  generalize (driver plat).exec p s = r at h ⊢
  generalize (driver plat).exec q s' = r' at h ⊢
  cases h with
  | ok _ hS =>
    rw [seen, seen, hS.l1, hS.hw]
    rfl
  | error hS =>
    rw [seen, seen, hS.l1, hS.hw]
    rfl

theorem SameRab.setSocMh {s' : RabState} (h : SameRab s s') (plat : Platform) (ena : Bool) (r : Nat) :
    SameRab (s.step plat (.setSocMh ena r)) (s'.step plat (.setSocMh ena r)) :=
  ⟨h.l1, h.hw, congrArg (fun c : Control => { c with socMhIsEna := ena, nSlicesReservedForHost := r })
    h.ctrl⟩

theorem SameRab.setMh {s' : RabState} (h : SameRab s s') (plat : Platform) (date : Nat) (acp : Bool) (lvl : Nat) :
    SameRab (s.step plat (.setMh date acp lvl)) (s'.step plat (.setMh date acp lvl)) :=
  ⟨h.l1, h.hw, congrArg (fun c : Control => { c with mhDate := date, mhAcp := acp, mhLvl := lvl })
    h.ctrl⟩

/-- Mapping the tables makes no use of the stack if their requests do not. -/
private theorem alike_enaTables {s' : RabState} {r : Nat} {req req' : SliceReq}
    (hlevel : (driver plat).Alike SameRab BothTables (enaLevel plat tables static2nd req)
      (enaLevel plat tables static2nd req') (s.step plat (.setSocMh true r))
      (s'.step plat (.setSocMh true r))) :
    (driver plat).Alike SameRab (fun _ _ => True) (enaTables plat r tables static2nd req)
      (enaTables plat r tables static2nd req') s s' := by
  apply Alike.call
  apply Alike.bind (R := BothTables)
  · apply hlevel.handle
    intro e u u' hsame
    have hdisabled := hsame.setSocMh plat false r
    exact Alike.call (Alike.fail hdisabled)
  · intro _ _ u u' _ hsame
    rw [Alike]
    change OutcomesAlike _ _ (Except.ok (), u.step plat (.setMh 0 u.ctrl.mhAcp u.ctrl.mhLvl))
      (Except.ok (), u'.step plat (.setMh 0 u'.ctrl.mhAcp u'.ctrl.mhLvl))
    rw [← hsame.ctrl]
    exact .ok trivial (hsame.setMh plat 0 u.ctrl.mhAcp u.ctrl.mhLvl)

private theorem noneMapped_of_fixed {r : Nat} {u : RabState} (hena : u.ctrl.socMhIsEna = true)
    (hr : u.ctrl.nSlicesReservedForHost = r)
    (hfixed : ∀ k < r, Expired maxDate (u.slice 0 k).dateExp → (u.slice 0 k).fixed = true) :
    NoneMapped plat tables static2nd u := by
  intro _ t i
  cases hget : u.sliceGet (tableReq t i 0) plat.nSlicesPort1 with
  | none => rfl
  | some k =>
    obtain ⟨-, hcheck, hmanaged⟩ := RabState.sliceGet_spec hget
    change u.sliceCheck (tableReq t i k) = true at hcheck
    change u.sliceIsManagedByHost (tableReq t i k) = true at hmanaged
    have hport : (tableReq t i k).rabPort = .port1 := rfl
    have hunfixed : (tableReq t i k).flagsDrv.has drvFixed = false :=
      (by decide : drvConst.has drvFixed = false)
    have hk : k < r := by
      rw [← hr]
      exact (managed_port1 hport).mp hmanaged hena
    have hfree := (sliceCheck_unfixed_iff hport hunfixed).mp hcheck
    have hno : (u.slice 0 k).fixed = true := hfixed k hk hfree.1
    have hunfixed' : (u.slice 0 k).fixed = false := hfree.2
    rw [hunfixed'] at hno
    cases hno

theorem enableDetermined_of_unused (h : EnableUnused plat s tables static2nd) :
    EnableDetermined plat s tables static2nd := by
  intro stackReq stackReady stackReq' stackReady'
  by_cases hena : s.ctrl.socMhIsEna = true
  · rw [exec_ena_enabled _ _ _ _ hena, exec_ena_enabled _ _ _ _ hena]
  · obtain ⟨hwalk, hrest⟩ := h.resolve_left hena
    rw [Bool.not_eq_true] at hena
    rw [exec_rabSocMhEna _ _ _ _ hena, exec_rabSocMhEna _ _ _ _ hena]
    let r := reservedForHost plat (plat.static2nd static2nd) tables
    have hwalk' : (s.step plat (.setSocMh false r)).WalkUnused (socSlices plat tables static2nd) := hwalk
    have hsame : SameRab (s.step plat (.setSocMh false r)) (s.step plat (.setSocMh false r)) :=
      ⟨rfl, rfl, rfl⟩
    obtain ⟨ready, u, u', hexec, hexec', hsame', hslices, hready⟩ := ready_outcomes plat stackReady
      stackReady' hsame rfl List.nodup_range' hwalk'
    apply seen_of_alike (R := fun _ _ => True)
    rw [Alike, exec_bind, exec_bind, hexec, hexec']
    cases ready with
    | false => exact .error hsame'
    | true =>
      apply alike_enaTables
      have hlow : ∀ k < r, u.slice 0 k = s.slice 0 k := by
        intro k hk
        apply hslices
        rw [List.mem_range'_1]
        omega
      have hmapped := hsame'.setSocMh plat true r
      obtain ⟨hexp, hfields⟩ := hready rfl
      cases hrest with
      | inl hlive =>
        obtain ⟨k, hk, hno⟩ := hlive
        exact absurd (hexp k hk) hno
      | inr hrest =>
        cases hrest with
        | inl hfield =>
          obtain ⟨i, hi, hfreed⟩ := hfield
          have hzero : u.refCntr 0 i = 0 := hfields i hfreed
          apply alike_level hmapped (Or.inr _)
          apply Option.ne_none_iff_exists'.mp
          intro hnone
          exact pagePtrsGetField_none_iff.mp hnone i hi hzero
        | inr hrest =>
          apply alike_level_none hmapped
          cases hrest with
          | inl hempty => exact fun hno => absurd hempty hno
          | inr hfixed =>
            apply noneMapped_of_fixed (r := r) rfl rfl
            intro k hk
            change Expired maxDate (u.slice 0 k).dateExp → (u.slice 0 k).fixed = true
            rw [hlow k hk]
            exact hfixed k hk

/-- A request for slices comes out the same whatever was on the stack exactly where the stack is not
used; enabling the miss handler on the SoC does so too where it is not used. -/
theorem stack_unused (plat : Platform) (s : RabState) :
    (∀ user w, RequestDetermined plat s user w ↔ StackUnused plat s user w) ∧
      ∀ tables static2nd, EnableUnused plat s tables static2nd →
        EnableDetermined plat s tables static2nd :=
  ⟨fun _ _ => requestDetermined_iff, fun _ _ => enableDetermined_of_unused⟩

end

/-- One page table, mapped for the SoC with one slice -/
def oneTable : PageTables := ⟨0x10000000, 0x1000, 0x1000, []⟩

theorem stack_unused_reset : EnableDetermined .zedboard (RabState.reset .zedboard) oneTable false := by
  apply (stack_unused .zedboard (RabState.reset .zedboard)).2 oneTable false
  refine Or.inr ⟨?_, Or.inr (Or.inl ⟨0, by decide, rfl⟩)⟩
  intro before k after _ _
  exact ⟨rfl, rfl, Or.inl rfl⟩

/-- A request for one page of user space on Port 1 -/
def pageWords : RequestWords := ⟨36631#32, 0x1000#32, 0x1000#32⟩

/-- After the initialisation, a bit on the stack decides whether the slice of a request is fixed, and
which list of pages the table for the SoC gets. -/
theorem not_stack_unused :
    seen (reqOutcome .zedboard (afterSetup .zedboard) ⟨true, 1, fun _ => 5⟩ (pageWords.request .blank)) ≠
      seen (reqOutcome .zedboard (afterSetup .zedboard) ⟨true, 1, fun _ => 5⟩
        (pageWords.request { SliceReq.blank with flagsDrv := drvFixed })) ∧
    seen ((driver .zedboard).exec (rabSocMhEna .zedboard .blank .blank oneTable false)
        (afterSetup .zedboard)) ≠
      seen ((driver .zedboard).exec (rabSocMhEna .zedboard .blank
        { SliceReq.blank with flagsDrv := drvConst } oneTable false) (afterSetup .zedboard)) := by
  constructor
  · intro h
    have hfixed := congrArg (fun o => ((o.2.1.mappings 0).slices 1).fixed) h
    exact absurd hfixed (by decide +kernel)
  · intro h
    have hidx := congrArg (fun o => ((o.2.1.mappings 0).slices 1).pagePtrIdx) h
    exact absurd hidx (by decide +kernel)

end Hero.Rab
