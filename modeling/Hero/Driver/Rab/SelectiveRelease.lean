import Hero.Driver.Rab.FreeExpired
import Hero.Driver.Rab.PagePins

/-!
# Selective release

Freeing by date is meant to touch the slots that are due and no others, and to leave every slot it
frees to the next request.  Slots that are not in use are due, too, and what they do to the lists of
pages and to the hardware decides whether their neighbours survive.
-/

namespace Hero.Rab

open Driver Flags Interp

/-- The slot holds something. -/
def L1EntryPort1.Used (e : L1EntryPort1) : Prop := e ≠ e.cleared

instance (e : L1EntryPort1) : Decidable e.Used := inferInstanceAs (Decidable (_ ≠ _))

/-- The slot keeps its entries; if it holds something, also its list of pages, the counter of the list
and its pages. -/
structure KeepsSlot (s t : RabState) (m k : Nat) : Prop where
  slice : t.slice m k = s.slice m k
  hw : s.l1.mappingActive = m → t.hw .port1 k = s.hw .port1 k
  pagePtr : (s.slice m k).Used →
    t.pagePtr m (s.slice m k).pagePtrIdx = s.pagePtr m (s.slice m k).pagePtrIdx
  refCntr : (s.slice m k).Used →
    t.refCntr m (s.slice m k).pagePtrIdx = s.refCntr m (s.slice m k).pagePtrIdx
  pins : (s.slice m k).Used → ∀ pages, s.pagePtr m (s.slice m k).pagePtrIdx = some pages →
    ∀ p ∈ (s.slice m k).pins pages, t.pins p = s.pins p

/-- The slots that are due are free, the others are as they were. -/
structure ReleasesDue (plat : Platform) (s : RabState) (date : Nat) (t : RabState) : Prop where
  duePort0 : ∀ k < nSlicesPort0, s.DuePort0 date false k →
    t.l1.port0 k = (s.l1.port0 k).cleared ∧ (t.hw .port0 k).flags = 0#8
  keptPort0 : ∀ k < nSlicesPort0, ¬ s.DuePort0 date false k →
    t.l1.port0 k = s.l1.port0 k ∧ t.hw .port0 k = s.hw .port0 k
  duePort1 : ∀ m < nMappingsPort1, ∀ k < plat.nSlicesPort1, s.Due date false m k →
    t.slice m k = (s.slice m k).cleared ∧ (s.l1.mappingActive = m → (t.hw .port1 k).flags = 0#8)
  keptPort1 : ∀ m < nMappingsPort1, ∀ k < plat.nSlicesPort1, ¬ s.Due date false m k →
    KeepsSlot s t m k

/-- The slots that are freed are left to the next request. -/
structure LeavesAvailable (plat : Platform) (s : RabState) (date : Nat) (t : RabState) : Prop where
  port0 : ∀ k < nSlicesPort0, s.DuePort0 date true k → Available t .port0 0 k
  port1 : ∀ m < nMappingsPort1, ∀ k < plat.nSlicesPort1, s.Due date true m k → Available t .port1 m k

/-- `pulp_rab_free` releases what is due and nothing else; with fixed mappings, everything it releases
can be requested again. -/
def SelectiveRelease (plat : Platform) (stack : SliceReq) (s : RabState) (date : Nat) : Prop :=
  ReleasesDue plat s date ((driver plat).exec (rabFree plat stack date false) s).2 ∧
    LeavesAvailable plat s date ((driver plat).exec (rabFree plat stack date true) s).2

namespace RabState

variable (plat : Platform) (s : RabState) (date : Nat)

/-- No slot that is due refers to the list, unless there is none and no constant mapping counts on it. -/
def ListUntouched (m i : Nat) : Prop :=
  ∀ j < plat.nSlicesPort1, s.Due date false m j → (s.slice m j).pagePtrIdx = i →
    s.pagePtr m i = none ∧ ((s.slice m j).flagsDrv.has drvConst = false ∨ s.refCntr m i = 0)

/-- A hardware slice in use is not shared with a slot that is due in the other mapping, unless that slot
is constant or has a list of pages. -/
def HwUntouched (m k : Nat) : Prop :=
  (s.hw .port1 k).flags = 0#8 ∨ ∀ m' < nMappingsPort1, m' ≠ m → s.Due date false m' k →
    (s.slice m' k).flagsDrv.has drvConst = true ∨
      s.ListLasts date false m' k (s.slice m' k).pagePtrIdx

/-- No slot that is due releases the page. -/
def PinUntouched (p : Pin) : Prop :=
  ∀ m < nMappingsPort1, ∀ j < plat.nSlicesPort1, ¬ s.Puts date false m j p

/-- Nothing fixed has expired. -/
structure NoFixedExpired : Prop where
  port0 : ∀ k < nSlicesPort0, Expired (u8 date) (s.l1.port0 k).dateExp → (s.l1.port0 k).fixed = false
  port1 : ∀ m < nMappingsPort1, ∀ k < plat.nSlicesPort1, s.Managed k →
    Expired (u8 date) (s.slice m k).dateExp → (s.slice m k).fixed = false

/-- The slots that are not due have nothing in common with those that are. -/
def NeighboursApart : Prop := ∀ m < nMappingsPort1, ∀ k < plat.nSlicesPort1, ¬ s.Due date false m k →
  (s.l1.mappingActive = m → s.HwUntouched date m k) ∧ ((s.slice m k).Used →
    s.ListUntouched plat date m (s.slice m k).pagePtrIdx ∧
      ∀ pages, s.pagePtr m (s.slice m k).pagePtrIdx = some pages →
        ∀ p ∈ (s.slice m k).pins pages, s.PinUntouched plat date p)

end RabState

section

variable {plat : Platform} {s t : RabState} {date : Nat} {fixed : Bool} {m n k i : Nat}

namespace RabState

theorem dueRefs_eq_zero : s.dueRefs date fixed m n i = 0 ↔
    ∀ j < n, s.Due date fixed m j → (s.slice m j).pagePtrIdx ≠ i := by
  simp [dueRefs, List.countP_eq_zero]

theorem dueConstRefs_eq_zero : s.dueConstRefs date fixed m n i = 0 ↔
    ∀ j < n, s.Due date fixed m j → (s.slice m j).pagePtrIdx = i →
      (s.slice m j).flagsDrv.has drvConst = false := by
  simp [dueConstRefs, List.countP_eq_zero]

namespace Freed

/-- A list of pages that is there stays with its counter if no slot that is due refers to it. -/
theorem field_some_iff (h : s.Freed plat date fixed t) (hm : m < nMappingsPort1)
    (hptr : (s.pagePtr m i).isSome = true) :
    (t.pagePtr m i = s.pagePtr m i ∧ t.refCntr m i = s.refCntr m i) ↔
      s.dueRefs date fixed m plat.nSlicesPort1 i = 0 := by
  have hn : plat.nSlicesPort1 < 2 ^ 32 := by cases plat <;> decide
  have hle : s.dueRefs date fixed m plat.nSlicesPort1 i ≤ plat.nSlicesPort1 := dueRefs_le
  rw [h.pagePtr m hm, h.refCntr m hm, cntrAfter_some hptr]
  constructor
  · intro hkept
    have hcntr := hkept.2
    split at hcntr
    · next hzero =>
      by_contra hno
      rw [if_neg hno] at hcntr
      omega
    · omega
  · intro hnone
    have hlasts : s.ListLasts date fixed m plat.nSlicesPort1 i := by
      rw [listLasts_some hptr, hnone]
      omega
    rw [if_pos hlasts, hnone]
    refine ⟨rfl, ?_⟩
    split
    · next hzero => rw [if_pos rfl, hzero]
    · rw [Nat.sub_zero]

/-- The counter of a field without a list stays if no constant mapping gives it back. -/
theorem field_none_iff (h : s.Freed plat date fixed t) (hm : m < nMappingsPort1)
    (hptr : ¬ (s.pagePtr m i).isSome = true) :
    (t.pagePtr m i = s.pagePtr m i ∧ t.refCntr m i = s.refCntr m i) ↔
      s.dueConstRefs date fixed m plat.nSlicesPort1 i = 0 ∨ s.refCntr m i = 0 := by
  have hkept : t.pagePtr m i = s.pagePtr m i := by
    rw [h.pagePtr m hm, if_neg fun hno => hptr hno.1]
    exact (Option.not_isSome_iff_eq_none.mp hptr).symm
  rw [h.refCntr m hm, cntrAfter_none hptr]
  constructor
  · intro hno
    have hcntr := hno.2
    omega
  · intro hno
    exact ⟨hkept, by omega⟩

theorem field_iff (h : s.Freed plat date false t) (hm : m < nMappingsPort1) :
    (t.pagePtr m i = s.pagePtr m i ∧ t.refCntr m i = s.refCntr m i) ↔ s.ListUntouched plat date m i := by
  by_cases hptr : (s.pagePtr m i).isSome = true
  · rw [h.field_some_iff hm hptr, dueRefs_eq_zero]
    constructor
    · intro hno j hj hdue hidx
      exact absurd hidx (hno j hj hdue)
    · intro hno j hj hdue hidx
      rw [(hno j hj hdue hidx).1] at hptr
      cases hptr
  · rw [h.field_none_iff hm hptr, dueConstRefs_eq_zero]
    have hnone := Option.not_isSome_iff_eq_none.mp hptr
    constructor
    · intro hno j hj hdue hidx
      exact ⟨hnone, hno.imp_left fun hconst => hconst j hj hdue hidx⟩
    · intro hno
      by_cases hzero : s.refCntr m i = 0
      · exact Or.inr hzero
      · exact Or.inl fun j hj hdue hidx => (hno j hj hdue hidx).2.resolve_right hzero

/-- The hardware slice of a slot that is not due -/
theorem hw_iff (h : s.Freed plat date false t) (hk : k < plat.nSlicesPort1)
    (hactive : s.l1.mappingActive = m) (hdue : ¬ s.Due date false m k) :
    t.hw .port1 k = s.hw .port1 k ↔ s.HwUntouched date m k := by
  have hflags : (s.hw .port1 k).withFlags 0#8 = s.hw .port1 k ↔ (s.hw .port1 k).flags = 0#8 := by
    constructor
    · exact fun hno => (congrArg HwSlice.flags hno).symm
    · intro hno
      rw [HwSlice.withFlags, ← hno]
  have hwrites : ∀ m', s.WritesHw date false m' k ↔ m' ≠ m ∧ s.Due date false m' k ∧
      ¬ ((s.slice m' k).flagsDrv.has drvConst = true ∨
        s.ListLasts date false m' k (s.slice m' k).pagePtrIdx) := by
    intro m'
    constructor
    · intro hno
      have hne : m' ≠ m := fun heq => hdue (heq ▸ hno.1)
      have hlist := hno.2.resolve_left fun heq => hne (heq.symm.trans hactive)
      refine ⟨hne, hno.1, ?_⟩
      rw [not_or, Bool.not_eq_true]
      exact ⟨hlist.2, hlist.1⟩
    · intro hno
      have hlist := hno.2.2
      rw [not_or, Bool.not_eq_true] at hlist
      exact ⟨hno.2.1, Or.inr ⟨hlist.2, hlist.1⟩⟩
  rw [h.hwPort1]
  by_cases hwritten : ∃ m' < nMappingsPort1, s.WritesHw date false m' k
  · rw [if_pos ⟨hk, hwritten⟩, hflags, HwUntouched]
    obtain ⟨m', hm', hno⟩ := hwritten
    obtain ⟨hne, hdue', hlist⟩ := (hwrites m').mp hno
    constructor
    · exact Or.inl
    · exact fun huntouched => huntouched.resolve_right fun hall => hlist (hall m' hm' hne hdue')
  · rw [if_neg fun hno => hwritten hno.2]
    refine iff_of_true rfl (Or.inr ?_)
    intro m' hm' hne hdue'
    by_contra hno
    exact hwritten ⟨m', hm', (hwrites m').mpr ⟨hne, hdue', hno⟩⟩

theorem pins_iff (h : s.Freed plat date false t) (p : Pin) :
    t.pins p = s.pins p ↔ s.PinUntouched plat date p := by
  obtain ⟨new, hput, hnew⟩ := h.put
  have hcount : t.pins p = s.pins p ↔ p ∉ new := by
    rw [RabState.pins, RabState.pins, h.pinned, hput, List.count_append, ← List.count_eq_zero]
    omega
  rw [hcount, hnew, PinUntouched]
  push Not
  rfl

theorem keepsSlot_iff (h : s.Freed plat date false t) (hm : m < nMappingsPort1)
    (hk : k < plat.nSlicesPort1) (hdue : ¬ s.Due date false m k) :
    KeepsSlot s t m k ↔ (s.l1.mappingActive = m → s.HwUntouched date m k) ∧ ((s.slice m k).Used →
      s.ListUntouched plat date m (s.slice m k).pagePtrIdx ∧
        ∀ pages, s.pagePtr m (s.slice m k).pagePtrIdx = some pages →
          ∀ p ∈ (s.slice m k).pins pages, s.PinUntouched plat date p) := by
  constructor
  · intro hkept
    refine ⟨fun hactive => (h.hw_iff hk hactive hdue).mp (hkept.hw hactive), fun hused => ⟨?_, ?_⟩⟩
    · exact (h.field_iff hm).mp ⟨hkept.pagePtr hused, hkept.refCntr hused⟩
    · exact fun pages hpages p hp => (h.pins_iff p).mp (hkept.pins hused pages hpages p hp)
  · intro hapart
    refine ⟨?_, fun hactive => (h.hw_iff hk hactive hdue).mpr (hapart.1 hactive), ?_, ?_, ?_⟩
    · rw [h.slice m hm, if_neg fun hno => hdue hno.2]
    · exact fun hused => ((h.field_iff hm).mpr (hapart.2 hused).1).1
    · exact fun hused => ((h.field_iff hm).mpr (hapart.2 hused).1).2
    · exact fun hused pages hpages p hp => (h.pins_iff p).mpr ((hapart.2 hused).2 pages hpages p hp)

theorem releasesDue_iff (h : s.Freed plat date false t) :
    ReleasesDue plat s date t ↔ s.NeighboursApart plat date := by
  constructor
  · intro hreleases m hm k hk hdue
    exact (h.keepsSlot_iff hm hk hdue).mp (hreleases.keptPort1 m hm k hk hdue)
  · intro hapart
    refine ⟨?_, ?_, ?_, fun m hm k hk hdue => (h.keepsSlot_iff hm hk hdue).mpr (hapart m hm k hk hdue)⟩
    · intro k hk hdue
      rw [h.port0, h.hwPort0, port0After, if_pos ⟨hk, hdue⟩, if_pos ⟨hk, hdue⟩]
      exact ⟨rfl, rfl⟩
    · intro k _ hdue
      rw [h.port0, h.hwPort0, port0After, if_neg fun hno => hdue hno.2, if_neg fun hno => hdue hno.2]
      exact ⟨rfl, rfl⟩
    · intro m hm k hk hdue
      rw [h.slice m hm, if_pos ⟨hk, hdue⟩]
      refine ⟨rfl, ?_⟩
      intro hactive
      rw [h.hwPort1, if_pos ⟨hk, m, hm, hdue, Or.inl hactive⟩]
      rfl

theorem availablePort0_iff (h : s.Freed plat date fixed t) (hk : k < nSlicesPort0)
    (hdue : s.DuePort0 date fixed k) : Available t .port0 0 k ↔ (s.l1.port0 k).fixed = false := by
  have hentry : t.l1.port0 k = (s.l1.port0 k).cleared := by rw [h.port0, port0After, if_pos ⟨hk, hdue⟩]
  have havailable : Available t .port0 0 k ↔ (s.l1.port0 k).cleared.fixed = false ∧
      (s.l1.port0 k).cleared.dateExp = 0 := by
    apply available_iff
    intro req hport _ hslice
    rw [RabState.entry, sliceIsManagedByHost, hport, hslice]
    exact ⟨hentry, rfl⟩
  rw [havailable]
  exact and_iff_left rfl

theorem availablePort1_iff (h : s.Freed plat date fixed t) (hm : m < nMappingsPort1)
    (hk : k < plat.nSlicesPort1) (hdue : s.Due date fixed m k) :
    Available t .port1 m k ↔ (s.slice m k).fixed = false := by
  have hentry : t.slice m k = (s.slice m k).cleared := by rw [h.slice m hm, if_pos ⟨hk, hdue⟩]
  have havailable : Available t .port1 m k ↔ (s.slice m k).cleared.fixed = false ∧
      (s.slice m k).cleared.dateExp = 0 := by
    apply available_iff
    intro req hport hmapping hslice
    have hmanaged : s.Managed k := hdue.1
    rw [RabState.entry, hport, hmapping, hslice]
    refine ⟨congrArg L1EntryPort1.toL1EntryPort0 hentry, ?_⟩
    rw [sliceIsManagedByHost, hport, h.ctrl, hslice]
    change (false || !s.ctrl.socMhIsEna || decide (k < s.ctrl.nSlicesReservedForHost)) = true
    rw [Managed] at hmanaged
    cases hena : s.ctrl.socMhIsEna with
    | true => simp [hmanaged hena]
    | false => rfl
  rw [havailable]
  exact and_iff_left rfl

theorem leavesAvailable_iff (h : s.Freed plat date true t) :
    LeavesAvailable plat s date t ↔ s.NoFixedExpired plat date := by
  constructor
  · intro hleaves
    refine ⟨?_, ?_⟩
    · intro k hk hexp
      have hdue : s.DuePort0 date true k := ⟨hexp, fun _ => rfl⟩
      exact (h.availablePort0_iff hk hdue).mp (hleaves.port0 k hk hdue)
    · intro m hm k hk hmanaged hexp
      have hdue : s.Due date true m k := ⟨hmanaged, hexp, fun _ => rfl⟩
      exact (h.availablePort1_iff hm hk hdue).mp (hleaves.port1 m hm k hk hdue)
  · intro hno
    refine ⟨?_, ?_⟩
    · exact fun k hk hdue => (h.availablePort0_iff hk hdue).mpr (hno.port0 k hk hdue.1)
    · exact fun m hm k hk hdue =>
        (h.availablePort1_iff hm hk hdue).mpr (hno.port1 m hm k hk hdue.1 hdue.2.1)

end Freed

end RabState

/-- The release is selective if and only if the slots that are due have nothing in common with those that
are not, and nothing fixed has expired. -/
theorem selectiveRelease_iff (plat : Platform) (stack : SliceReq) (s : RabState) (date : Nat) :
    SelectiveRelease plat stack s date ↔ s.NeighboursApart plat date ∧ s.NoFixedExpired plat date := by
  obtain ⟨t, hexec, hfreed⟩ := RabState.exec_rabFree plat stack s date false
  obtain ⟨t', hexec', hfreed'⟩ := RabState.exec_rabFree plat stack s date true
  rw [SelectiveRelease, hexec, hexec', hfreed.releasesDue_iff, hfreed'.leavesAvailable_iff]

/-- The driver after its initialisation and some actions -/
def afterActions (plat : Platform) (actions : List Action) : RabState :=
  ((driver plat).exec (runProg plat .blank actions) (RabState.reset plat)).2

/-- A request for one page whose request structure has the mark for fixed mappings on the stack -/
def fixedPage : Action := .req ⟨true, 1, fun _ => 5⟩
  { SliceReq.blank with
    dateCur := 1
    dateExp := 1
    rabPort := .port1
    addrStart := 0x10000
    addrEnd := 0x11000
    flagsDrv := drvFixed
    flagsHw := hwEn ||| hwRead }

/-- An empty slot of the other mapping disables the slice of a striped element in hardware, and a fixed
slot that is freed is lost to later requests. -/
theorem not_selectiveRelease :
    ¬ SelectiveRelease .juno .blank (afterActions .juno [stripedReq]) 1 ∧
      ¬ LeavesAvailable .juno (afterActions .juno [fixedPage]) 2
        ((driver .juno).exec (rabFree .juno .blank 2 true) (afterActions .juno [fixedPage])).2 := by
  constructor
  · intro h
    have hkept := h.1.keptPort1 0 (by decide) 1 (by decide) (by decide +kernel)
    have hflags := congrArg HwSlice.flags (hkept.hw (by decide +kernel))
    exact absurd hflags (by decide +kernel)
  · intro h
    have hslot := h.port1 0 (by decide) 1 (by decide) (by decide +kernel)
    have hcheck := (hslot { SliceReq.blank with dateCur := 3, rabPort := .port1, rabSlice := 1 }
      (by decide) rfl rfl rfl).1
    exact absurd hcheck (by decide +kernel)

end

end Hero.Rab
