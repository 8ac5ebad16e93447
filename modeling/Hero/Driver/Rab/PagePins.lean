import Hero.Driver.Rab.PageLists

/-!
# Pinned pages

Every page that is pinned for a slice is released once, with the last slice that holds it.
-/

namespace Hero.Rab

open Driver Flags

/-- The driver with the record of the slices in use, and the pages that have been pinned for the last
request and do not have a slice yet. -/
structure Ledger where
  tracked : Tracked
  waiting : List Pin

/-- The pages a slice names -/
def L1EntryPort1.pins (e : L1EntryPort1) (pages : PageArray) : List Pin :=
  (List.range' e.pageIdxStart (e.pageIdxEnd + 1 - e.pageIdxStart)).map (Pin.mk pages.id)

namespace Ledger

variable (plat : Platform) (l : Ledger)

def rab : RabState := l.tracked.rab

def waitingAfter : Call → List Pin
  | .getUserPages _ got => (List.range got).map (Pin.mk l.rab.kernel.nextArray)
  | .sliceSetup req (some arr) =>
    if req.rabPort = .port1 then l.waiting.filter (· ∉ req.entry.pins arr) else l.waiting
  | _ => l.waiting

def step (c : Call) : Ledger := ⟨l.tracked.step plat c, l.waitingAfter c⟩

def pinned (p : Pin) : Nat := l.rab.kernel.pinned.count p

def put (p : Pin) : Nat := l.rab.kernel.put.count p

/-- A slice in use holds the page. -/
def HeldBy (m k : Nat) (p : Pin) : Prop :=
  ∃ arr, l.tracked.uses m k = some (some arr) ∧ p ∈ (l.rab.slice m k).pins arr

instance (m k : Nat) (p : Pin) : Decidable (l.HeldBy m k p) :=
  match h : l.tracked.uses m k with
  | some (some arr) => decidable_of_iff (p ∈ (l.rab.slice m k).pins arr) (by simp [HeldBy, h])
  | some none => isFalse (by simp [HeldBy, h])
  | none => isFalse (by simp [HeldBy, h])

def Held (p : Pin) : Prop := ∃ m < nMappingsPort1, ∃ k < plat.nSlicesPort1, l.HeldBy m k p

/-- Another slice holds the page. -/
def HeldBeside (m k : Nat) (p : Pin) : Prop :=
  ∃ m' < nMappingsPort1, ∃ k' < plat.nSlicesPort1, ¬ (m' = m ∧ k' = k) ∧ l.HeldBy m' k' p

instance (m k : Nat) (p : Pin) : Decidable (l.HeldBeside plat m k p) :=
  inferInstanceAs (Decidable (∃ m' < _, ∃ k' < _, _ ∧ _))

/-- Every page is pinned once and released at most once, not while a slice holds it; it is held or
waits until it is released.  If there is no slice left that holds a page, all have been released.
Enabled slices are in use. -/
structure Conserved : Prop where
  enabled : ∀ m k, (l.rab.slice m k).flagsHw ≠ 0#8 → l.tracked.InUse m k
  once : ∀ p, l.put p ≤ l.pinned p ∧ l.pinned p ≤ 1
  held : ∀ p, l.Held plat p → l.pinned p = 1 ∧ l.put p = 0
  kept : ∀ p, l.pinned p = 1 → l.put p = 0 → l.Held plat p ∨ p ∈ l.waiting
  settled : l.waiting = [] → (∀ p, ¬ l.Held plat p) → ∀ p, l.put p = l.pinned p

/-- The pages of a slice are released with the last slice that holds them. -/
def ReleasesLast (req : SliceReq) : Prop :=
  ∀ arr, l.tracked.uses req.rabMapping req.rabSlice = some (some arr) →
    req.rabMapping < nMappingsPort1 ∧
      ∀ p ∈ (l.rab.slice req.rabMapping req.rabSlice).pins arr,
        (req.flagsDrv.has drvStriped = true ∨ req.flagsDrv.has drvEvery = true ↔
          l.HeldBeside plat req.rabMapping req.rabSlice p)

instance (req : SliceReq) : Decidable (l.ReleasesLast plat req) :=
  match h : l.tracked.uses req.rabMapping req.rabSlice with
  | some (some arr) => decidable_of_iff (req.rabMapping < nMappingsPort1 ∧
      ∀ p ∈ (l.rab.slice req.rabMapping req.rabSlice).pins arr,
        (req.flagsDrv.has drvStriped = true ∨ req.flagsDrv.has drvEvery = true ↔
          l.HeldBeside plat req.rabMapping req.rabSlice p)) (by simp [ReleasesLast, h])
  | some none => isTrue (by simp [ReleasesLast, h])
  | none => isTrue (by simp [ReleasesLast, h])

/-- A slice is set up with pages that are pinned. -/
def TakesPinned (req : SliceReq) (pages : Option PageArray) : Prop :=
  req.rabMapping < nMappingsPort1 ∧ ∀ arr ∈ pages, ∀ p ∈ req.entry.pins arr,
    l.pinned p = 1 ∧ l.put p = 0

instance (req : SliceReq) (pages : Option PageArray) : Decidable (l.TakesPinned req pages) :=
  inferInstanceAs (Decidable (_ ∧ ∀ arr ∈ pages, ∀ p ∈ _, _))

end Ledger

def Call.KeepsPins (plat : Platform) (l : Ledger) (c : Call) : Prop :=
  c.KeepsLists plat l.tracked ∧ match c with
    | .sliceFree req =>
      req.rabPort = .port1 → l.rab.sliceIsManagedByHost req = true → l.ReleasesLast plat req
    | .sliceSetup req pages => req.rabPort = .port1 → l.TakesPinned req pages
    | .getUserPages _ _ | .report _ => l.waiting = []
    | _ => True

instance (plat : Platform) (l : Ledger) : ∀ c : Call, Decidable (c.KeepsPins plat l)
  | .sliceFree req => inferInstanceAs (Decidable (_ ∧ (req.rabPort = .port1 →
      l.rab.sliceIsManagedByHost req = true → l.ReleasesLast plat req)))
  | .sliceSetup req pages =>
    inferInstanceAs (Decidable (_ ∧ (req.rabPort = .port1 → l.TakesPinned req pages)))
  | .getUserPages _ _ => inferInstanceAs (Decidable (_ ∧ _ = _))
  | .report _ => inferInstanceAs (Decidable (_ ∧ _ = _))
  | .mappingSwitch _ => inferInstanceAs (Decidable (_ ∧ True))
  | .setStripeReq _ _ => inferInstanceAs (Decidable (_ ∧ True))
  | .setSocMh _ _ => inferInstanceAs (Decidable (_ ∧ True))
  | .setMh _ _ _ => inferInstanceAs (Decidable (_ ∧ True))

/-- The driver on its state and the ledger. -/
def ledger (plat : Platform) : Interp RabState Call Ledger := ⟨Ledger.rab, fun l c => l.step plat c⟩

namespace Ledger

variable {plat : Platform} {l : Ledger} {req : SliceReq} {pages : Option PageArray} {m k : Nat}

theorem nodup_pins (e : L1EntryPort1) (arr : PageArray) : (e.pins arr).Nodup := by
  have hrange : (List.range' e.pageIdxStart (e.pageIdxEnd + 1 - e.pageIdxStart)).Nodup :=
    List.nodup_range'
  apply hrange.map
  intro i j hij
  exact congrArg Pin.idx hij

theorem count_pins (e : L1EntryPort1) (arr : PageArray) (p : Pin) :
    (e.pins arr).count p = if p ∈ e.pins arr then 1 else 0 := by
  split
  · next h => exact List.count_eq_one_of_mem (nodup_pins e arr) h
  · next h => exact List.count_eq_zero_of_not_mem h

theorem heldBy_of_use {arr : PageArray} {p : Pin} (h : l.tracked.uses m k = some (some arr)) :
    l.HeldBy m k p ↔ p ∈ (l.rab.slice m k).pins arr := by
  simp [HeldBy, h]

/-- A page that a slice holds is held by another one if it is not held by this one. -/
theorem held_iff (p : Pin) : l.Held plat p ↔ l.HeldBeside plat m k p ∨
    m < nMappingsPort1 ∧ k < plat.nSlicesPort1 ∧ l.HeldBy m k p := by
  constructor
  · intro h
    obtain ⟨m', hm, k', hk, hheld⟩ := h
    by_cases hmk : m' = m ∧ k' = k
    · obtain ⟨rfl, rfl⟩ := hmk
      exact .inr ⟨hm, hk, hheld⟩
    · exact .inl ⟨m', hm, k', hk, hmk, hheld⟩
  · intro h
    cases h with
    | inl h =>
      obtain ⟨m', hm, k', hk, -, hheld⟩ := h
      exact ⟨m', hm, k', hk, hheld⟩
    | inr h => exact ⟨m, h.1, k, h.2.1, h.2.2⟩

/-- If a page that is neither held nor waits has been released, so has every page in the end. -/
private theorem settled_of_kept (honce : ∀ p, l.put p ≤ l.pinned p ∧ l.pinned p ≤ 1)
    (hkept : ∀ p, l.pinned p = 1 → l.put p = 0 → l.Held plat p ∨ p ∈ l.waiting)
    (hwaiting : l.waiting = []) (hnone : ∀ p, ¬ l.Held plat p) (p : Pin) : l.put p = l.pinned p := by
  have hp := honce p
  by_contra hne
  cases hkept p (by omega) (by omega) with
  | inl h => exact hnone p h
  | inr h =>
    rw [hwaiting] at h
    exact List.not_mem_nil h

/-- Slices hold what they held if neither the record nor the shadow changes. -/
theorem held_congr {l' : Ledger} (huses : l'.tracked.uses = l.tracked.uses)
    (hslice : ∀ m k, l'.rab.slice m k = l.rab.slice m k) (p : Pin) :
    l'.Held plat p ↔ l.Held plat p := by
  simp only [Held, HeldBy, huses, hslice]

/-- The invariant of the ledger: lists are numbered in the order in which they are filled. -/
structure Kept (plat : Platform) (l : Ledger) : Prop where
  lists : l.tracked.Lists plat
  fresh : ∀ p : Pin, l.rab.kernel.nextArray ≤ p.array → l.pinned p = 0
  conserved : l.Conserved plat

/-- A call that leaves the slices and the pages alone keeps the ledger. -/
theorem Conserved.congr {l' : Ledger} (h : l.Conserved plat)
    (huses : l'.tracked.uses = l.tracked.uses) (hslice : ∀ m k, l'.rab.slice m k = l.rab.slice m k)
    (hpinned : ∀ p, l'.pinned p = l.pinned p) (hput : ∀ p, l'.put p = l.put p)
    (hwaiting : l'.waiting = l.waiting) : l'.Conserved plat := by
  have hheld : ∀ p, l'.Held plat p ↔ l.Held plat p := held_congr huses hslice
  constructor
  · intro m k hen
    rw [hslice] at hen
    rw [Tracked.InUse, huses]
    exact h.enabled m k hen
  · intro p
    rw [hpinned, hput]
    exact h.once p
  · intro p hp
    rw [hpinned, hput]
    exact h.held p ((hheld p).mp hp)
  · intro p hone hzero
    rw [hpinned] at hone
    rw [hput] at hzero
    rw [hheld, hwaiting]
    exact h.kept p hone hzero
  · intro hnil hnone p
    rw [hpinned, hput]
    rw [hwaiting] at hnil
    exact h.settled hnil (fun p hp => hnone p ((hheld p).mpr hp)) p

/-- The pages that a freed slice held -/
private def heldPins (plat : Platform) (l : Ledger) (req : SliceReq) : List Pin :=
  match l.tracked.uses req.rabMapping req.rabSlice with
  | some (some arr) => if req.rabSlice < plat.nSlicesPort1 then
      (l.rab.slice req.rabMapping req.rabSlice).pins arr else []
  | _ => []

/-- Freeing a slice releases the pages it held if it is the last slice. -/
private theorem released_eq (h : l.tracked.Lists plat) (hfree : l.tracked.FreesUsed plat req)
    (hport : req.rabPort = .port1) (hhost : l.rab.sliceIsManagedByHost req = true) :
    l.rab.released req =
      if req.flagsDrv.has drvStriped = true ∨ req.flagsDrv.has drvEvery = true then []
      else heldPins plat l req := by
  have hiff : l.rab.unrefs req = true ↔ _ := hfree hport hhost
  have hold : l.rab.pagesOld req =
      l.rab.pagePtr req.rabMapping (l.rab.slice req.rabMapping req.rabSlice).pagePtrIdx := by
    simp [RabState.pagesOld, hport]
  have hnone : ∀ (b : Prop) [Decidable b], l.rab.pagesOld req = none →
      l.rab.released req = if b then [] else [] := by
    intro b _ hno
    simp [RabState.released, hno]
  by_cases hused : req.rabSlice < plat.nSlicesPort1 ∧
      l.tracked.InUse req.rabMapping req.rabSlice
  · obtain ⟨hslot, huse⟩ := hused
    obtain ⟨use, huse⟩ := Option.isSome_iff_exists.mp huse
    have hptr := (h.lists req.rabMapping req.rabSlice hslot use huse).1
    rw [heldPins, huse]
    cases use with
    | none => exact hnone _ (hold.trans hptr)
    | some arr =>
      have hgot : l.rab.pagesOld req = some arr := hold.trans hptr
      simp only [hslot, if_true, RabState.released, hhost, hgot]
      cases req.flagsDrv.has drvStriped <;> cases req.flagsDrv.has drvEvery <;> simp [L1EntryPort1.pins]
  · have hun : l.rab.unrefs req = false := by
      simpa only [hused, iff_false, Bool.not_eq_true] using hiff
    have hgone : l.rab.pagesOld req = none := by
      simp only [RabState.unrefs, hhost, hport, decide_true, Bool.and_true, Bool.true_and,
        Bool.or_eq_false_iff] at hun
      simpa using hun.1
    have hheld : heldPins plat l req = [] := by
      rw [heldPins]
      split
      · next arr huse =>
        rw [if_neg]
        intro hslot
        exact hused ⟨hslot, by rw [Tracked.InUse, huse]; rfl⟩
      · rfl
    rw [hheld]
    exact hnone _ hgone

private theorem mem_heldPins (p : Pin) : p ∈ heldPins plat l req ↔
    req.rabSlice < plat.nSlicesPort1 ∧ l.HeldBy req.rabMapping req.rabSlice p := by
  rw [heldPins, HeldBy]
  split
  · next arr huse =>
    by_cases hslot : req.rabSlice < plat.nSlicesPort1 <;> simp [hslot, huse]
  · next hno =>
    constructor
    · intro hp
      exact absurd hp List.not_mem_nil
    · intro hp
      obtain ⟨-, arr, huse, -⟩ := hp
      exact absurd huse (hno arr)

private theorem nodup_heldPins : (heldPins plat l req).Nodup := by
  rw [heldPins]
  split
  · next arr _ =>
    split
    · exact nodup_pins _ arr
    · exact List.nodup_nil
  · exact List.nodup_nil

/-- A page is released with the last slice that holds it. -/
private theorem released_count (h : l.tracked.Lists plat) (hfree : l.tracked.FreesUsed plat req)
    (hport : req.rabPort = .port1) (hhost : l.rab.sliceIsManagedByHost req = true)
    (hlast : l.ReleasesLast plat req) (p : Pin) : (l.rab.released req).count p =
      if p ∈ heldPins plat l req ∧ ¬ l.HeldBeside plat req.rabMapping req.rabSlice p then 1
      else 0 := by
  rw [released_eq h hfree hport hhost]
  by_cases hp : p ∈ heldPins plat l req
  · obtain ⟨-, arr, huse, hpin⟩ := (mem_heldPins p).mp hp
    have hiff := (hlast arr huse).2 p hpin
    by_cases hkeep : req.flagsDrv.has drvStriped = true ∨ req.flagsDrv.has drvEvery = true
    · rw [if_pos hkeep, if_neg fun hno => hno.2 (hiff.mp hkeep), List.count_nil]
    · rw [if_neg hkeep, if_pos ⟨hp, fun hno => hkeep (hiff.mpr hno)⟩]
      exact List.count_eq_one_of_mem nodup_heldPins hp
  · split
    · rw [List.count_nil, if_neg fun hno => hp hno.1]
    · rw [List.count_eq_zero_of_not_mem hp, if_neg fun hno => hp hno.1]

theorem step_pinned_sliceFree (p : Pin) : (l.step plat (.sliceFree req)).pinned p = l.pinned p := by
  change ((l.rab.sliceFree req).kernel.pinned).count p = _
  rw [(l.rab.sliceFree_frame req).2.2.1]
  rfl

theorem step_put_sliceFree (p : Pin) :
    (l.step plat (.sliceFree req)).put p = l.put p + (l.rab.released req).count p := by
  change ((l.rab.sliceFree req).kernel.put).count p = _
  rw [RabState.sliceFree_put, List.count_append]
  rfl

/-- What is held after a slice has been freed was held by another slice. -/
theorem held_sliceFree (hport : req.rabPort = .port1)
    (hhost : l.rab.sliceIsManagedByHost req = true) (p : Pin) :
    (l.step plat (.sliceFree req)).Held plat p ↔
      l.HeldBeside plat req.rabMapping req.rabSlice p := by
  have hby : ∀ m k, (l.step plat (.sliceFree req)).HeldBy m k p ↔
      ¬ (m = req.rabMapping ∧ k = req.rabSlice) ∧ l.HeldBy m k p := by
    intro m k
    have huse : (l.step plat (.sliceFree req)).tracked.uses m k =
        if m = req.rabMapping ∧ k = req.rabSlice then none else l.tracked.uses m k := by
      rw [← Tracked.setUse_apply]
      exact congrFun (congrFun (if_pos ⟨hport, hhost⟩) m) k
    have hslice : (l.step plat (.sliceFree req)).rab.slice m k = (l.rab.sliceFree req).slice m k := rfl
    rw [HeldBy, HeldBy, huse, hslice, RabState.sliceFree_slice]
    by_cases hmk : m = req.rabMapping ∧ k = req.rabSlice <;> simp [hmk]
  simp only [Held, HeldBeside, hby]

/-- Freeing a slice that is not of Port 1 or not managed by the host keeps the ledger. -/
private theorem Conserved.sliceFree_other (h : l.Conserved plat)
    (hother : ¬ (req.rabPort = .port1 ∧ l.rab.sliceIsManagedByHost req = true)) :
    (l.step plat (.sliceFree req)).Conserved plat := by
  have hreleased : l.rab.released req = [] := by
    cases hport : req.rabPort with
    | port0 => simp [RabState.released, RabState.pagesOld, hport]
    | port1 =>
      have hhost : l.rab.sliceIsManagedByHost req = false := by simpa [hport] using hother
      simp [RabState.released, hhost]
  apply h.congr (if_neg hother)
  · intro m k
    change (l.rab.sliceFree req).slice m k = _
    rw [RabState.sliceFree_slice, if_neg fun hno => hother ⟨hno.2.1, hno.1⟩]
  · exact step_pinned_sliceFree
  · intro p
    rw [step_put_sliceFree, hreleased, List.count_nil, Nat.add_zero]
  · rfl

/-- Freeing a slice with counters keeps the ledger if it releases its pages as the last one. -/
theorem Conserved.sliceFree (h : l.Conserved plat) (hlists : l.tracked.Lists plat)
    (hc : (Call.sliceFree req).KeepsPins plat l) : (l.step plat (.sliceFree req)).Conserved plat := by
  by_cases hfreed : req.rabPort = .port1 ∧ l.rab.sliceIsManagedByHost req = true
  · obtain ⟨hport, hhost⟩ := hfreed
    have hlast := hc.2 hport hhost
    have hheld : ∀ p, (l.step plat (.sliceFree req)).Held plat p ↔
        l.HeldBeside plat req.rabMapping req.rabSlice p := held_sliceFree hport hhost
    have hput : ∀ p, (l.step plat (.sliceFree req)).put p = l.put p +
        if p ∈ heldPins plat l req ∧ ¬ l.HeldBeside plat req.rabMapping req.rabSlice p then 1
        else 0 := by
      intro p
      rw [step_put_sliceFree, released_count hlists hc.1 hport hhost hlast]
    have hslot : ∀ p ∈ heldPins plat l req, l.Held plat p := by
      intro p hp
      obtain ⟨hslot, hby⟩ := (mem_heldPins p).mp hp
      obtain ⟨arr, huse, hpin⟩ := hby
      exact (held_iff p).mpr (.inr ⟨(hlast arr huse).1, hslot, arr, huse, hpin⟩)
    have honce : ∀ p, (l.step plat (.sliceFree req)).put p ≤
        (l.step plat (.sliceFree req)).pinned p ∧
          (l.step plat (.sliceFree req)).pinned p ≤ 1 := by
      intro p
      rw [step_pinned_sliceFree, hput]
      have hold := h.once p
      split
      · next hp =>
        have hpage := h.held p (hslot p hp.1)
        omega
      · omega
    have hkept : ∀ p, (l.step plat (.sliceFree req)).pinned p = 1 →
        (l.step plat (.sliceFree req)).put p = 0 →
          (l.step plat (.sliceFree req)).Held plat p ∨
            p ∈ (l.step plat (.sliceFree req)).waiting := by
      intro p hone hzero
      rw [step_pinned_sliceFree] at hone
      rw [hput] at hzero
      rw [hheld]
      cases h.kept p hone (by omega) with
      | inr hwaits => exact .inr hwaits
      | inl hbefore =>
        left
        cases (held_iff p).mp hbefore with
        | inl hbeside => exact hbeside
        | inr hby =>
          -- the page has not been released, so that this was not the last slice
          by_contra hno
          rw [if_pos ⟨(mem_heldPins p).mpr hby.2, hno⟩] at hzero
          omega
    constructor
    · intro m k hen
      have huse : (l.step plat (.sliceFree req)).tracked.uses m k =
          if m = req.rabMapping ∧ k = req.rabSlice then none else l.tracked.uses m k := by
        rw [← Tracked.setUse_apply]
        exact congrFun (congrFun (if_pos ⟨hport, hhost⟩) m) k
      change ((l.rab.sliceFree req).slice m k).flagsHw ≠ 0#8 at hen
      rw [RabState.sliceFree_slice] at hen
      by_cases hmk : m = req.rabMapping ∧ k = req.rabSlice
      · rw [if_pos ⟨hhost, hport, hmk⟩] at hen
        exact absurd rfl hen
      · rw [if_neg fun hno => hmk hno.2.2] at hen
        rw [Tracked.InUse, huse, if_neg hmk]
        exact h.enabled m k hen
    · exact honce
    · intro p hp
      have hbeside := (hheld p).mp hp
      rw [step_pinned_sliceFree, hput, if_neg fun hno => hno.2 hbeside]
      exact h.held p ((held_iff p).mpr (.inl hbeside))
    · exact hkept
    · exact settled_of_kept honce hkept
  · exact h.sliceFree_other hfreed

/-- What is held after a slice has been set up was held before or is named by the new slice. -/
theorem held_sliceSetup (hport : req.rabPort = .port1) (hset : l.tracked.SetsUpUnused plat req pages)
    (hm : req.rabMapping < nMappingsPort1) (p : Pin) :
    (l.step plat (.sliceSetup req pages)).Held plat p ↔
      l.Held plat p ∨ ∃ arr ∈ pages, p ∈ req.entry.pins arr := by
  have huse : ∀ m k, (l.step plat (.sliceSetup req pages)).tracked.uses m k =
      if m = req.rabMapping ∧ k = req.rabSlice then some pages else l.tracked.uses m k := by
    intro m k
    rw [← Tracked.setUse_apply]
    exact congrFun (congrFun (if_pos hport) m) k
  have hslice : ∀ m k, (l.step plat (.sliceSetup req pages)).rab.slice m k =
      if m = req.rabMapping ∧ k = req.rabSlice then req.entry else l.rab.slice m k := by
    intro m k
    change (l.rab.sliceSetup req pages).slice m k = _
    rw [RabState.sliceSetup_slice]
    simp only [hport, true_and]
  have hbefore : ∀ q, ¬ l.HeldBy req.rabMapping req.rabSlice q := by
    intro q hq
    obtain ⟨arr, hused, -⟩ := hq
    exact hset.unused (by rw [Tracked.InUse, hused]; rfl)
  have hbeside : (l.step plat (.sliceSetup req pages)).HeldBeside plat req.rabMapping req.rabSlice p ↔
      l.HeldBeside plat req.rabMapping req.rabSlice p := by
    have hby : ∀ m k, ¬ (m = req.rabMapping ∧ k = req.rabSlice) →
        ((l.step plat (.sliceSetup req pages)).HeldBy m k p ↔ l.HeldBy m k p) := by
      intro m k hmk
      rw [HeldBy, HeldBy, huse, hslice, if_neg hmk, if_neg hmk]
    constructor
    · intro h
      obtain ⟨m, hm, k, hk, hmk, h⟩ := h
      exact ⟨m, hm, k, hk, hmk, (hby m k hmk).mp h⟩
    · intro h
      obtain ⟨m, hm, k, hk, hmk, h⟩ := h
      exact ⟨m, hm, k, hk, hmk, (hby m k hmk).mpr h⟩
  have hnew : (l.step plat (.sliceSetup req pages)).HeldBy req.rabMapping req.rabSlice p ↔
      ∃ arr ∈ pages, p ∈ req.entry.pins arr := by
    rw [HeldBy, huse, hslice]
    simp
  rw [held_iff (m := req.rabMapping) (k := req.rabSlice), hbeside, hnew,
    held_iff (l := l) (m := req.rabMapping) (k := req.rabSlice)]
  simp [hm, hset.slice, hbefore]

/-- Setting up a slice with pages that are pinned keeps the ledger. -/
theorem Conserved.sliceSetup (h : l.Conserved plat)
    (hc : (Call.sliceSetup req pages).KeepsPins plat l) :
    (l.step plat (.sliceSetup req pages)).Conserved plat := by
  have hpinned : ∀ p, (l.step plat (.sliceSetup req pages)).pinned p = l.pinned p := by
    intro p
    change ((l.rab.sliceSetup req pages).kernel.pinned).count p = _
    rw [(l.rab.sliceSetup_frame req pages).2.2]
    rfl
  have hput : ∀ p, (l.step plat (.sliceSetup req pages)).put p = l.put p := by
    intro p
    change ((l.rab.sliceSetup req pages).kernel.put).count p = _
    rw [(l.rab.sliceSetup_frame req pages).2.2]
    rfl
  by_cases hport : req.rabPort = .port1
  · have hset : l.tracked.SetsUpUnused plat req pages := hc.1 hport
    obtain ⟨hm, htakes⟩ := hc.2 hport
    have hheld := held_sliceSetup hport hset hm
    have honce : ∀ p, (l.step plat (.sliceSetup req pages)).put p ≤
        (l.step plat (.sliceSetup req pages)).pinned p ∧
          (l.step plat (.sliceSetup req pages)).pinned p ≤ 1 := by
      intro p
      rw [hpinned, hput]
      exact h.once p
    have hkept : ∀ p, (l.step plat (.sliceSetup req pages)).pinned p = 1 →
        (l.step plat (.sliceSetup req pages)).put p = 0 →
          (l.step plat (.sliceSetup req pages)).Held plat p ∨
            p ∈ (l.step plat (.sliceSetup req pages)).waiting := by
      intro p hone hzero
      rw [hpinned] at hone
      rw [hput] at hzero
      rw [hheld]
      cases h.kept p hone hzero with
      | inl hbefore => exact .inl (.inl hbefore)
      | inr hwaits =>
        change _ ∨ p ∈ l.waitingAfter (.sliceSetup req pages)
        cases pages with
        | none => exact .inr hwaits
        | some arr =>
          by_cases hp : p ∈ req.entry.pins arr
          · exact .inl (.inr ⟨arr, rfl, hp⟩)
          · right
            simpa [waitingAfter, hport, hp] using hwaits
    constructor
    · intro m k hen
      have huse : (l.step plat (.sliceSetup req pages)).tracked.uses m k =
          if m = req.rabMapping ∧ k = req.rabSlice then some pages else l.tracked.uses m k := by
        rw [← Tracked.setUse_apply]
        exact congrFun (congrFun (if_pos hport) m) k
      rw [Tracked.InUse, huse]
      by_cases hmk : m = req.rabMapping ∧ k = req.rabSlice
      · rw [if_pos hmk]
        rfl
      · change ((l.rab.sliceSetup req pages).slice m k).flagsHw ≠ 0#8 at hen
        rw [RabState.sliceSetup_slice, if_neg fun hno => hmk hno.2] at hen
        rw [if_neg hmk]
        exact h.enabled m k hen
    · exact honce
    · intro p hp
      rw [hpinned, hput]
      cases (hheld p).mp hp with
      | inl hbefore => exact h.held p hbefore
      | inr hnew =>
        obtain ⟨arr, harr, hpin⟩ := hnew
        exact htakes arr harr p hpin
    · exact hkept
    · exact settled_of_kept honce hkept
  · apply h.congr (if_neg hport) _ hpinned hput
    · cases pages with
      | none => rfl
      | some arr => exact if_neg hport
    · intro m k
      change (l.rab.sliceSetup req pages).slice m k = _
      rw [RabState.sliceSetup_slice, if_neg fun hno => hport hno.1]

private theorem count_new (got id : Nat) (p : Pin) : ((List.range got).map (Pin.mk id)).count p =
    if p.array = id ∧ p.idx < got then 1 else 0 := by
  have hmem : p ∈ (List.range got).map (Pin.mk id) ↔ p.array = id ∧ p.idx < got := by
    constructor
    · intro h
      obtain ⟨i, hi, rfl⟩ := List.mem_map.mp h
      exact ⟨rfl, List.mem_range.mp hi⟩
    · intro h
      obtain ⟨rfl, hi⟩ := h
      exact List.mem_map.mpr ⟨p.idx, List.mem_range.mpr hi, rfl⟩
  have hnodup : ((List.range got).map (Pin.mk id)).Nodup := by
    apply List.nodup_range.map
    intro i j hij
    exact congrArg Pin.idx hij
  split
  · next h => exact List.count_eq_one_of_mem hnodup (hmem.mpr h)
  · next h => exact List.count_eq_zero_of_not_mem fun hno => h (hmem.mp hno)

theorem step_pinned_getUserPages (nPages got : Nat) (p : Pin) :
    (l.step plat (.getUserPages nPages got)).pinned p =
      l.pinned p + if p.array = l.rab.kernel.nextArray ∧ p.idx < got then 1 else 0 := by
  rw [← count_new]
  exact List.count_append

/-- New pages wait for their slices. -/
theorem Conserved.getUserPages {nPages got : Nat} (h : l.Conserved plat)
    (hfresh : ∀ p : Pin, l.rab.kernel.nextArray ≤ p.array → l.pinned p = 0)
    (hwaiting : l.waiting = []) : (l.step plat (.getUserPages nPages got)).Conserved plat := by
  have hheld : ∀ p, (l.step plat (.getUserPages nPages got)).Held plat p ↔ l.Held plat p :=
    held_congr rfl fun _ _ => rfl
  have hput : ∀ p, (l.step plat (.getUserPages nPages got)).put p = l.put p := fun _ => rfl
  have honce : ∀ p, (l.step plat (.getUserPages nPages got)).put p ≤
      (l.step plat (.getUserPages nPages got)).pinned p ∧
        (l.step plat (.getUserPages nPages got)).pinned p ≤ 1 := by
    intro p
    have hold := h.once p
    rw [step_pinned_getUserPages, hput]
    split
    · next hnew =>
      have hzero := hfresh p hnew.1.ge
      omega
    · omega
  have hkept : ∀ p, (l.step plat (.getUserPages nPages got)).pinned p = 1 →
      (l.step plat (.getUserPages nPages got)).put p = 0 →
        (l.step plat (.getUserPages nPages got)).Held plat p ∨
          p ∈ (l.step plat (.getUserPages nPages got)).waiting := by
    intro p hone hzero
    by_cases hnew : p.array = l.rab.kernel.nextArray ∧ p.idx < got
    · right
      apply List.mem_map.mpr
      exact ⟨p.idx, List.mem_range.mpr hnew.2, by rw [← hnew.1]⟩
    · rw [step_pinned_getUserPages, if_neg hnew, Nat.add_zero] at hone
      cases h.kept p hone hzero with
      | inl hp => exact .inl ((hheld p).mpr hp)
      | inr hp =>
        rw [hwaiting] at hp
        exact absurd hp List.not_mem_nil
  constructor
  · exact h.enabled
  · exact honce
  · intro p hp
    have hpage := h.held p ((hheld p).mp hp)
    have hnew : ¬ (p.array = l.rab.kernel.nextArray ∧ p.idx < got) := by
      intro hno
      have hzero := hfresh p hno.1.ge
      omega
    rw [step_pinned_getUserPages, if_neg hnew, Nat.add_zero, hput]
    exact hpage
  · exact hkept
  · exact settled_of_kept honce hkept

/-- A permitted call keeps the ledger. -/
theorem Kept.step (h : l.Kept plat) (c : Call) (hc : c.KeepsPins plat l) :
    (l.step plat c).Kept plat := by
  have hlists : (l.step plat c).tracked.Lists plat := h.lists.step c hc.1
  cases c with
  | getUserPages nPages got =>
    refine ⟨hlists, ?_, h.conserved.getUserPages h.fresh hc.2⟩
    intro p hp
    change l.rab.kernel.nextArray + 1 ≤ p.array at hp
    rw [step_pinned_getUserPages, h.fresh p (by omega), if_neg (by omega)]
  | sliceFree req =>
    refine ⟨hlists, ?_, h.conserved.sliceFree h.lists hc⟩
    intro p hp
    change (l.rab.sliceFree req).kernel.nextArray ≤ p.array at hp
    rw [(l.rab.sliceFree_frame req).2.2.2] at hp
    rw [step_pinned_sliceFree]
    exact h.fresh p hp
  | sliceSetup req pages =>
    refine ⟨hlists, ?_, h.conserved.sliceSetup hc⟩
    intro p hp
    change (l.rab.sliceSetup req pages).kernel.nextArray ≤ p.array at hp
    change ((l.rab.sliceSetup req pages).kernel.pinned).count p = 0
    rw [(l.rab.sliceSetup_frame req pages).2.2] at hp ⊢
    exact h.fresh p hp
  | mappingSwitch m =>
    exact ⟨hlists, h.fresh, h.conserved.congr rfl (fun _ _ => rfl) (fun _ => rfl) (fun _ => rfl) rfl⟩
  | setStripeReq m elements =>
    exact ⟨hlists, h.fresh, h.conserved.congr rfl (fun _ _ => rfl) (fun _ => rfl) (fun _ => rfl) rfl⟩
  | setSocMh ena reserved =>
    exact ⟨hlists, h.fresh, h.conserved.congr rfl (fun _ _ => rfl) (fun _ => rfl) (fun _ => rfl) rfl⟩
  | setMh date acp lvl =>
    exact ⟨hlists, h.fresh, h.conserved.congr rfl (fun _ _ => rfl) (fun _ => rfl) (fun _ => rfl) rfl⟩
  | report err =>
    exact ⟨hlists, h.fresh, h.conserved.congr rfl (fun _ _ => rfl) (fun _ => rfl) (fun _ => rfl) rfl⟩

def reset (plat : Platform) : Ledger := ⟨Tracked.reset plat, []⟩

theorem kept_reset (plat : Platform) : (reset plat).Kept plat := by
  have hnone : ∀ p, ¬ (reset plat).Held plat p := by
    intro p hp
    obtain ⟨m, -, k, -, arr, huse, -⟩ := hp
    cases huse
  refine ⟨Tracked.lists_reset plat, fun _ _ => rfl, ?_⟩
  constructor
  · intro m k hen
    exact absurd rfl hen
  · intro p
    exact ⟨le_rfl, Nat.zero_le 1⟩
  · intro p hp
    exact absurd hp (hnone p)
  · intro p hone
    cases hone
  · intro _ _ p
    rfl

end Ledger

def Call.LeavesPins (plat : Platform) (l : Ledger) (c : Call) : Prop :=
  (l.step plat c).Conserved plat

end Hero.Rab
