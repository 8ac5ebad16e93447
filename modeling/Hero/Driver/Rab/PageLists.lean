import Hero.Driver.Rab.Operations

/-!
# Lists of pages

Which slices use which list of pages.  The counters of the shadow agree with the slices in use as long
as no call frees a slice that is not in use or sets one up that is.
-/

namespace Hero.Rab

open Driver Flags

/-- The driver with a record of the slices of Port 1 that have been set up and not been freed, and of
the lists of pages these were set up with. -/
structure Tracked where
  rab : RabState
  uses : Nat → Nat → Option (Option PageArray)

namespace Tracked

variable (plat : Platform) (t : Tracked) (req : SliceReq) (m k : Nat)

def InUse : Prop := (t.uses m k).isSome = true

instance : Decidable (t.InUse m k) := inferInstanceAs (Decidable (_ = true))

def setUse (use : Option (Option PageArray)) : Nat → Nat → Option (Option PageArray) :=
  Function.update t.uses m (Function.update (t.uses m) k use)

def usesAfter : Call → Nat → Nat → Option (Option PageArray)
  | .sliceFree req => if req.rabPort = .port1 ∧ t.rab.sliceIsManagedByHost req then
      t.setUse req.rabMapping req.rabSlice none else t.uses
  | .sliceSetup req pages =>
    if req.rabPort = .port1 then t.setUse req.rabMapping req.rabSlice (some pages) else t.uses
  | _ => t.uses

def step (c : Call) : Tracked := ⟨t.rab.step plat c, t.usesAfter c⟩

end Tracked

/-- The driver on its state and the record of the slices in use. -/
def tracked (plat : Platform) : Interp RabState Call Tracked :=
  ⟨Tracked.rab, fun t c => t.step plat c⟩

/-- A slice names the pages of its list that its range covers. -/
def L1EntryPort1.NamesRange (e : L1EntryPort1) (pages : PageArray) : Prop :=
  pages.addrStart / pageSize + e.pageIdxStart = e.addrStart / pageSize ∧
    pages.addrStart / pageSize + e.pageIdxEnd = (e.addrEnd - 1) / pageSize

instance (e : L1EntryPort1) (pages : PageArray) : Decidable (e.NamesRange pages) :=
  inferInstanceAs (Decidable (_ ∧ _))

/-- A slice names pages of its list: those of its range if it belongs to a request for a range, and all
of them if it belongs to a striped element or to a page that missed. -/
def L1EntryPort1.Names (e : L1EntryPort1) (pages : PageArray) : Prop :=
  if e.flagsDrv.has drvEvery then e.NamesRange pages
  else e.pageIdxStart = 0 ∧ e.pageIdxEnd + 1 = pages.len

instance (e : L1EntryPort1) (pages : PageArray) : Decidable (e.Names pages) :=
  inferInstanceAs (Decidable (ite _ _ _))

/-- A slice is constant and has no pages, or it names pages of its list. -/
def L1EntryPort1.Suits (e : L1EntryPort1) : Option PageArray → Prop
  | none => e.flagsDrv.has drvConst = true
  | some arr => e.flagsDrv.has drvConst = false ∧ e.Names arr

instance (e : L1EntryPort1) : ∀ pages, Decidable (e.Suits pages)
  | none => inferInstanceAs (Decidable (_ = true))
  | some _ => inferInstanceAs (Decidable (_ ∧ _))

namespace Tracked

variable (plat : Platform) (t : Tracked)

/-- A slice in use refers to an index. -/
def Refers (m k i : Nat) : Prop := t.InUse m k ∧ (t.rab.slice m k).pagePtrIdx = i

instance (m k i : Nat) : Decidable (t.Refers m k i) := inferInstanceAs (Decidable (_ ∧ _))

def users (m i : Nat) : Nat :=
  (List.range plat.nSlicesPort1).countP fun k => decide (t.Refers m k i)

/-- The counters count the slices in use, and these have the lists they were set up with. -/
structure Lists : Prop where
  counts : ∀ m i, t.rab.refCntr m i = t.users plat m i
  lists : ∀ m, ∀ k < plat.nSlicesPort1, ∀ pages, t.uses m k = some pages →
    t.rab.pagePtr m (t.rab.slice m k).pagePtrIdx = pages ∧ (t.rab.slice m k).Suits pages

/-- Slices that are in use are freed with their counters, and others without. -/
def FreesUsed (req : SliceReq) : Prop :=
  req.rabPort = .port1 → t.rab.sliceIsManagedByHost req = true →
    (t.rab.unrefs req = true ↔
      req.rabSlice < plat.nSlicesPort1 ∧ t.InUse req.rabMapping req.rabSlice)

instance (req : SliceReq) : Decidable (t.FreesUsed plat req) :=
  inferInstanceAs (Decidable (_ → _ → _))

/-- A slice that is not in use is set up with a list that no other request refers to. -/
structure SetsUpUnused (req : SliceReq) (pages : Option PageArray) : Prop where
  slice : req.rabSlice < plat.nSlicesPort1
  unused : ¬ t.InUse req.rabMapping req.rabSlice
  accepted : t.rab.sliceSetupRefused req = false
  suits : req.entry.Suits pages
  others : ∀ k < plat.nSlicesPort1, t.InUse req.rabMapping k →
    (t.rab.slice req.rabMapping k).pagePtrIdx = req.pagePtrIdx → t.uses req.rabMapping k = some pages

instance (req : SliceReq) (pages : Option PageArray) : Decidable (t.SetsUpUnused plat req pages) :=
  decidable_of_iff (req.rabSlice < plat.nSlicesPort1 ∧ ¬ t.InUse req.rabMapping req.rabSlice ∧
    t.rab.sliceSetupRefused req = false ∧ req.entry.Suits pages ∧
    ∀ k < plat.nSlicesPort1, t.InUse req.rabMapping k →
      (t.rab.slice req.rabMapping k).pagePtrIdx = req.pagePtrIdx →
        t.uses req.rabMapping k = some pages)
    ⟨fun h => ⟨h.1, h.2.1, h.2.2.1, h.2.2.2.1, h.2.2.2.2⟩,
      fun h => ⟨h.slice, h.unused, h.accepted, h.suits, h.others⟩⟩

end Tracked

def Call.KeepsLists (plat : Platform) (t : Tracked) : Call → Prop
  | .sliceFree req => t.FreesUsed plat req
  | .sliceSetup req pages => req.rabPort = .port1 → t.SetsUpUnused plat req pages
  | _ => True

instance (plat : Platform) (t : Tracked) : ∀ c : Call, Decidable (c.KeepsLists plat t)
  | .sliceFree req => inferInstanceAs (Decidable (t.FreesUsed plat req))
  | .sliceSetup req pages =>
    inferInstanceAs (Decidable (req.rabPort = .port1 → t.SetsUpUnused plat req pages))
  | .getUserPages _ _ => isTrue trivial
  | .mappingSwitch _ => isTrue trivial
  | .setStripeReq _ _ => isTrue trivial
  | .setSocMh _ _ => isTrue trivial
  | .setMh _ _ _ => isTrue trivial
  | .report _ => isTrue trivial

/-- A count where one place changes. -/
private theorem countP_range_change {p q : Nat → Bool} {n k : Nat} (hk : k < n)
    (h : ∀ j, j ≠ k → p j = q j) :
    (List.range n).countP p + (q k).toNat = (List.range n).countP q + (p k).toNat := by
  induction n with
  | zero => exact absurd hk (Nat.not_lt_zero k)
  | succ n ih =>
    simp only [List.range_succ, List.countP_append, List.countP_singleton]
    by_cases hkn : k = n
    · subst hkn
      have hsame : (List.range k).countP p = (List.range k).countP q :=
        List.countP_congr fun j hj => by rw [h j (List.mem_range.mp hj).ne]
      rw [hsame]
      cases p k <;> cases q k <;> simp
    · have hprev := ih (by omega)
      rw [h n (Ne.symm hkn)]
      split <;> omega

namespace Tracked

variable {plat : Platform} {t : Tracked} {req : SliceReq} {pages : Option PageArray} {m k i : Nat}

@[simp] theorem step_rab (c : Call) : (t.step plat c).rab = t.rab.step plat c := rfl

theorem setUse_apply (use : Option (Option PageArray)) (m' k' : Nat) :
    t.setUse m k use m' k' = if m' = m ∧ k' = k then use else t.uses m' k' := by
  by_cases hm : m' = m
  · by_cases hk : k' = k <;> simp [setUse, hm, hk]
  · simp [setUse, hm]

theorem users_congr {t' : Tracked}
    (h : ∀ k < plat.nSlicesPort1, t'.Refers m k i ↔ t.Refers m k i) :
    t'.users plat m i = t.users plat m i := by
  apply List.countP_congr
  intro k hk
  simpa only [decide_eq_true_eq] using h k (List.mem_range.mp hk)

/-- The numbers of users after one slice has changed. -/
theorem users_change {t' : Tracked} {m₀ k₀ : Nat} (hk : k₀ < plat.nSlicesPort1)
    (h : ∀ m k, ¬ (m = m₀ ∧ k = k₀) → (t'.Refers m k i ↔ t.Refers m k i)) :
    t'.users plat m i + (if m = m₀ ∧ t.Refers m₀ k₀ i then 1 else 0) =
      t.users plat m i + (if m = m₀ ∧ t'.Refers m₀ k₀ i then 1 else 0) := by
  by_cases hm : m = m₀
  · subst hm
    have hcount := countP_range_change (p := fun k => decide (t'.Refers m k i))
      (q := fun k => decide (t.Refers m k i)) hk fun j hj => by
        rw [decide_eq_decide]
        exact h m j fun hno => hj hno.2
    rw [users, users]
    simp only [true_and]
    by_cases hold : t.Refers m k₀ i <;> by_cases hnew : t'.Refers m k₀ i <;>
      simpa only [hold, hnew, decide_true, decide_false, if_true, if_false, Bool.toNat_true,
        Bool.toNat_false] using hcount
  · rw [if_neg fun hno => hm hno.1, if_neg fun hno => hm hno.1]
    congr 1
    exact users_congr fun k _ => h m k fun hno => hm hno.1

theorem users_pos (hk : k < plat.nSlicesPort1) (h : t.Refers m k i) : 0 < t.users plat m i :=
  List.countP_pos_iff.mpr ⟨k, List.mem_range.mpr hk, decide_eq_true h⟩

theorem users_lt : t.users plat m i + 1 < 2 ^ 32 := by
  have hle : t.users plat m i ≤ plat.nSlicesPort1 :=
    List.countP_le_length.trans List.length_range.le
  have hfew : plat.nSlicesPort1 ≤ 32 := by cases plat <;> decide
  omega

theorem suits_eq (h : req.entry.Suits pages) :
    (if req.flagsDrv.has drvConst then none else pages) = pages := by
  cases pages with
  | none => exact ite_self none
  | some arr =>
    have hconst : req.flagsDrv.has drvConst = false := h.1
    simp [hconst]

theorem Lists.congr {t' : Tracked} (h : t.Lists plat) (huses : t'.uses = t.uses)
    (hslice : ∀ m k, t'.rab.slice m k = t.rab.slice m k)
    (hptr : ∀ m i, t'.rab.pagePtr m i = t.rab.pagePtr m i)
    (hcntr : ∀ m i, t'.rab.refCntr m i = t.rab.refCntr m i) : t'.Lists plat where
  counts m i := by
    rw [hcntr, h.counts]
    apply users_congr
    intro k _
    rw [Refers, Refers, InUse, InUse, huses, hslice]
  lists m k hk pages hpages := by
    rw [huses] at hpages
    rw [hslice, hptr]
    exact h.lists m k hk pages hpages

/-- Freeing a slice keeps the lists where it lowers the counter exactly for a slice in use. -/
theorem Lists.sliceFree (h : t.Lists plat) (hfree : t.FreesUsed plat req) :
    (t.step plat (.sliceFree req)).Lists plat := by
  by_cases hfreed : req.rabPort = .port1 ∧ t.rab.sliceIsManagedByHost req = true
  · have hiff := hfree hfreed.1 hfreed.2
    have huses : ∀ m k, (t.step plat (.sliceFree req)).uses m k =
        if m = req.rabMapping ∧ k = req.rabSlice then none else t.uses m k := by
      intro m k
      rw [← setUse_apply]
      exact congrFun (congrFun (if_pos hfreed) m) k
    have hslice : ∀ m k, ¬ (m = req.rabMapping ∧ k = req.rabSlice) →
        (t.rab.sliceFree req).slice m k = t.rab.slice m k := by
      intro m k hne
      rw [RabState.sliceFree_slice, if_neg fun hno => hne hno.2.2]
    have hrefers : ∀ i m k, ¬ (m = req.rabMapping ∧ k = req.rabSlice) →
        ((t.step plat (.sliceFree req)).Refers m k i ↔ t.Refers m k i) := by
      intro i m k hne
      rw [Refers, InUse, huses, if_neg hne]
      change _ ∧ ((t.rab.sliceFree req).slice m k).pagePtrIdx = i ↔ _
      rw [hslice m k hne]
      exact Iff.rfl
    have hgone : ∀ i, ¬ (t.step plat (.sliceFree req)).Refers req.rabMapping req.rabSlice i := by
      intro i hno
      rw [Refers, InUse, huses, if_pos ⟨rfl, rfl⟩] at hno
      exact Bool.noConfusion hno.1
    have hcounts : ∀ m i, (t.rab.sliceFree req).refCntr m i =
        (t.step plat (.sliceFree req)).users plat m i := by
      intro m i
      rw [RabState.sliceFree_refCntr, h.counts]
      by_cases hused : req.rabSlice < plat.nSlicesPort1 ∧ t.InUse req.rabMapping req.rabSlice
      · have hchange := users_change (m := m) (i := i) hused.1 (hrefers i)
        rw [if_neg fun hno : _ ∧ (t.step plat _).Refers _ _ i => hgone i hno.2] at hchange
        have hsub : 0 < t.users plat m i → sub32 (t.users plat m i) 1 = t.users plat m i - 1 :=
          fun hpos => if_pos hpos
        by_cases hlast : m = req.rabMapping ∧ t.Refers req.rabMapping req.rabSlice i
        · obtain ⟨rfl, hrefer⟩ := hlast
          rw [if_pos ⟨hiff.mpr hused, rfl, hrefer.2.symm⟩, hsub (users_pos hused.1 hrefer)]
          rw [if_pos ⟨rfl, hrefer⟩] at hchange
          omega
        · rw [if_neg hlast] at hchange
          rw [if_neg fun hno => hlast ⟨hno.2.1, hused.2, hno.2.2.symm⟩]
          omega
      · rw [if_neg fun hno => hused (hiff.mp hno.1)]
        symm
        apply users_congr
        intro k hk
        by_cases hkk : m = req.rabMapping ∧ k = req.rabSlice
        · obtain ⟨rfl, rfl⟩ := hkk
          exact iff_of_false (hgone i) fun hno => hused ⟨hk, hno.1⟩
        · exact hrefers i m k hkk
    refine ⟨hcounts, ?_⟩
    intro m k hk pages hpages
    rw [huses] at hpages
    have hne : ¬ (m = req.rabMapping ∧ k = req.rabSlice) := by
      intro hno
      rw [if_pos hno] at hpages
      cases hpages
    rw [if_neg hne] at hpages
    obtain ⟨hptr, hsuits⟩ := h.lists m k hk pages hpages
    change (t.rab.sliceFree req).pagePtr m ((t.rab.sliceFree req).slice m k).pagePtrIdx = pages ∧
      ((t.rab.sliceFree req).slice m k).Suits pages
    rw [hslice m k hne, RabState.sliceFree_pagePtr, if_neg]
    · exact ⟨hptr, hsuits⟩
    · -- this slice in use refers to the list, so that the counter does not get to zero
      intro hno
      have hrefer : (t.step plat (.sliceFree req)).Refers m k (t.rab.slice m k).pagePtrIdx := by
        rw [hrefers _ m k hne]
        exact ⟨by rw [InUse, hpages]; rfl, rfl⟩
      have hpos := users_pos hk hrefer
      have hcount := hcounts m (t.rab.slice m k).pagePtrIdx
      have hun : t.rab.unrefs req = true := by
        rw [RabState.unrefs, hfreed.2, hno.2.2.1]
        simp [hfreed.1]
      rw [RabState.sliceFree_refCntr, if_pos ⟨hun, hno.2.1, hno.2.2.2.1⟩] at hcount
      omega
  · have hsame : t.usesAfter (.sliceFree req) = t.uses := if_neg hfreed
    have hframe : (∀ m k, (t.rab.sliceFree req).slice m k = t.rab.slice m k) ∧
        (∀ m i, (t.rab.sliceFree req).pagePtr m i = t.rab.pagePtr m i) ∧
        ∀ m i, (t.rab.sliceFree req).refCntr m i = t.rab.refCntr m i := by
      refine ⟨?_, ?_, ?_⟩
      · intro m k
        rw [RabState.sliceFree_slice, if_neg fun hno => hfreed ⟨hno.2.1, hno.1⟩]
      · intro m i
        rw [RabState.sliceFree_pagePtr, if_neg]
        intro hno
        apply hfreed
        refine ⟨?_, hno.1⟩
        cases hport : req.rabPort with
        | port0 => simp [RabState.pagesOld, hport] at hno
        | port1 => rfl
      · intro m i
        rw [RabState.sliceFree_refCntr, if_neg]
        intro hno
        simp only [RabState.unrefs, Bool.and_eq_true, decide_eq_true_eq] at hno
        exact hfreed ⟨hno.1.1.2, hno.1.1.1⟩
    exact h.congr hsame hframe.1 hframe.2.1 hframe.2.2

/-- Setting up a slice that is not in use keeps the lists. -/
theorem Lists.sliceSetup (h : t.Lists plat)
    (hset : req.rabPort = .port1 → t.SetsUpUnused plat req pages) :
    (t.step plat (.sliceSetup req pages)).Lists plat := by
  by_cases hport : req.rabPort = .port1
  · obtain ⟨hslot, hunused, haccepted, hsuits, hothers⟩ := hset hport
    have htakes : t.rab.takesRef req = true := by simp [RabState.takesRef, hport, haccepted]
    have huses : ∀ m k, (t.step plat (.sliceSetup req pages)).uses m k =
        if m = req.rabMapping ∧ k = req.rabSlice then some pages else t.uses m k := by
      intro m k
      rw [← setUse_apply]
      exact congrFun (congrFun (if_pos hport) m) k
    have hslice : ∀ m k, (t.rab.sliceSetup req pages).slice m k =
        if m = req.rabMapping ∧ k = req.rabSlice then req.entry else t.rab.slice m k := by
      intro m k
      rw [RabState.sliceSetup_slice]
      simp only [hport, true_and]
    have hrefers : ∀ i m k, ¬ (m = req.rabMapping ∧ k = req.rabSlice) →
        ((t.step plat (.sliceSetup req pages)).Refers m k i ↔ t.Refers m k i) := by
      intro i m k hne
      rw [Refers, InUse, huses, if_neg hne]
      change _ ∧ ((t.rab.sliceSetup req pages).slice m k).pagePtrIdx = i ↔ _
      rw [hslice, if_neg hne]
      exact Iff.rfl
    have hnew : ∀ i, (t.step plat (.sliceSetup req pages)).Refers req.rabMapping req.rabSlice i ↔
        req.pagePtrIdx = i := by
      intro i
      rw [Refers, InUse, huses, if_pos ⟨rfl, rfl⟩]
      change _ ∧ ((t.rab.sliceSetup req pages).slice _ _).pagePtrIdx = i ↔ _
      rw [hslice, if_pos ⟨rfl, rfl⟩]
      simp [SliceReq.entry]
    constructor
    · intro m i
      change (t.rab.sliceSetup req pages).refCntr m i = _
      rw [RabState.sliceSetup_refCntr, h.counts]
      have hchange := users_change (m := m) (i := i) hslot (hrefers i)
      rw [if_neg fun hno : _ ∧ t.Refers _ _ i => hunused hno.2.1] at hchange
      by_cases hi : m = req.rabMapping ∧ i = req.pagePtrIdx
      · rw [if_pos ⟨hi.1, (hnew i).mpr hi.2.symm⟩] at hchange
        have hmod : u32 (t.users plat m i + 1) = t.users plat m i + 1 := Nat.mod_eq_of_lt users_lt
        rw [if_pos ⟨htakes, hi⟩, hmod]
        omega
      · rw [if_neg fun hno => hi ⟨hno.1, ((hnew i).mp hno.2).symm⟩] at hchange
        rw [if_neg fun hno => hi hno.2]
        omega
    · intro m k hk pages' hpages'
      rw [huses] at hpages'
      change (t.rab.sliceSetup req pages).pagePtr m
        ((t.rab.sliceSetup req pages).slice m k).pagePtrIdx = pages' ∧
          ((t.rab.sliceSetup req pages).slice m k).Suits pages'
      rw [hslice, RabState.sliceSetup_pagePtr, suits_eq hsuits]
      by_cases hne : m = req.rabMapping ∧ k = req.rabSlice
      · rw [if_pos hne] at hpages'
        cases hpages'
        rw [if_pos hne, if_pos ⟨htakes, hne.1, rfl⟩]
        exact ⟨rfl, hsuits⟩
      · rw [if_neg hne] at hpages'
        obtain ⟨hptr, hsuits'⟩ := h.lists m k hk pages' hpages'
        rw [if_neg hne]
        refine ⟨?_, hsuits'⟩
        split
        · next hidx =>
          obtain ⟨-, rfl, hidx⟩ := hidx
          have hinuse : t.InUse req.rabMapping k := by rw [InUse, hpages']; rfl
          exact Option.some.inj ((hothers k hk hinuse hidx).symm.trans hpages')
        · exact hptr
  · have hframe : (∀ m k, (t.rab.sliceSetup req pages).slice m k = t.rab.slice m k) ∧
        (∀ m i, (t.rab.sliceSetup req pages).pagePtr m i = t.rab.pagePtr m i) ∧
        ∀ m i, (t.rab.sliceSetup req pages).refCntr m i = t.rab.refCntr m i := by
      have htakes : ¬ t.rab.takesRef req = true := by simp [RabState.takesRef, hport]
      refine ⟨?_, ?_, ?_⟩
      · intro m k
        rw [RabState.sliceSetup_slice, if_neg fun hno => hport hno.1]
      · intro m i
        rw [RabState.sliceSetup_pagePtr, if_neg fun hno => htakes hno.1]
      · intro m i
        rw [RabState.sliceSetup_refCntr, if_neg fun hno => htakes hno.1]
    exact h.congr (if_neg hport) hframe.1 hframe.2.1 hframe.2.2

theorem Lists.step (h : t.Lists plat) (c : Call) (hc : c.KeepsLists plat t) :
    (t.step plat c).Lists plat := by
  cases c with
  | sliceFree req => exact h.sliceFree hc
  | sliceSetup req pages => exact h.sliceSetup hc
  | getUserPages nPages got => exact h.congr rfl (fun _ _ => rfl) (fun _ _ => rfl) fun _ _ => rfl
  | mappingSwitch m => exact h.congr rfl (fun _ _ => rfl) (fun _ _ => rfl) fun _ _ => rfl
  | setStripeReq m elements =>
    exact h.congr rfl (fun _ _ => rfl) (fun _ _ => rfl) fun _ _ => rfl
  | setSocMh ena reserved => exact h.congr rfl (fun _ _ => rfl) (fun _ _ => rfl) fun _ _ => rfl
  | setMh date acp lvl => exact h.congr rfl (fun _ _ => rfl) (fun _ _ => rfl) fun _ _ => rfl
  | report err => exact h.congr rfl (fun _ _ => rfl) (fun _ _ => rfl) fun _ _ => rfl

/-- An index that `pulp_rab_page_ptrs_get_field` hands out is not referred to. -/
theorem Lists.field_unused (h : t.Lists plat)
    (hi : t.rab.pagePtrsGetField plat.nSlicesPort1 m = some i) :
    ∀ k < plat.nSlicesPort1, ¬ t.Refers m k i := by
  intro k hk hrefer
  have hzero := List.find?_some hi
  simp only [decide_eq_true_eq] at hzero
  have hpos := users_pos hk hrefer
  rw [h.counts] at hzero
  omega

def reset (plat : Platform) : Tracked := ⟨RabState.reset plat, fun _ _ => none⟩

theorem lists_reset (plat : Platform) : (reset plat).Lists plat where
  counts m i := by
    symm
    apply List.countP_eq_zero.mpr
    intro k _
    simp [Refers, InUse, reset]
  lists m k _ pages hpages := by cases hpages

end Tracked

/-- After the call the counters count the slices in use, these have their lists, and no index is handed
out that is referred to. -/
def Call.LeavesLists (plat : Platform) (t : Tracked) (c : Call) : Prop :=
  (t.step plat c).Lists plat ∧ ∀ m i,
    (t.step plat c).rab.pagePtrsGetField plat.nSlicesPort1 m = some i →
      ∀ k < plat.nSlicesPort1, ¬ (t.step plat c).Refers m k i

/-- A request for pages in the given frames -/
def pagesReq (addr n date : Nat) (pfn : Nat → Nat) : Action := .req ⟨true, n, pfn⟩
  { SliceReq.blank with
    dateCur := date
    dateExp := date
    rabPort := .port1
    addrStart := addr
    addrEnd := addr + n * pageSize
    flagsHw := hwEn ||| hwRead }

/-- Two stripes of one page each -/
private def shortStripes : StripeElemUser :=
  ⟨0, .input, 7, pageSize, 2, fun j => 0x40000 + j * pageSize, fun j => 0x41000 + j * pageSize⟩

def stripedReq : Action := .reqStriped .blank 0 [(shortStripes, ⟨true, 2, fun i => 77 + i⟩)]

-- the second default mapping of this platform is set up in a slice whose stale index is live
example : ¬ (tracked .ariane).Along (fun t c => c.KeepsLists .ariane t)
    (runProg .ariane .blank []) (Tracked.reset .ariane) := by decide +kernel

end Hero.Rab
