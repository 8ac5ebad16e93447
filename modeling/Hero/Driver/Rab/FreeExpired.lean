import Hero.Driver.Rab.Release

/-!
# Freeing what has expired

What `pulp_rab_free` does to each slot, in closed form over the state it starts from.
-/

namespace Hero.Rab

open Driver Flags Interp

namespace RabState

variable (s : RabState) (date : Nat) (fixed : Bool)

/-- The host manages the slots of Port 1 from here. -/
def Managed (k : Nat) : Prop := s.ctrl.socMhIsEna = true → k < s.ctrl.nSlicesReservedForHost

instance (k : Nat) : Decidable (s.Managed k) := inferInstanceAs (Decidable (_ → _))

/-- A slot of Port 0 is due: it has expired, and it is not fixed or fixed ones are freed too. -/
def DuePort0 (k : Nat) : Prop :=
  Expired (u8 date) (s.l1.port0 k).dateExp ∧ ((s.l1.port0 k).fixed = true → fixed = true)

/-- A slot of Port 1 is due. -/
def Due (m k : Nat) : Prop := s.Managed k ∧ Expired (u8 date) (s.slice m k).dateExp ∧
  ((s.slice m k).fixed = true → fixed = true)

instance (k : Nat) : Decidable (s.DuePort0 date fixed k) := inferInstanceAs (Decidable (_ ∧ _))

instance (m k : Nat) : Decidable (s.Due date fixed m k) := inferInstanceAs (Decidable (_ ∧ _))

/-- The due slots below `n` that refer to a list of pages -/
def dueRefs (m n i : Nat) : Nat :=
  (List.range n).countP fun j => s.Due date fixed m j ∧ (s.slice m j).pagePtrIdx = i

/-- The constant ones among them -/
def dueConstRefs (m n i : Nat) : Nat :=
  (List.range n).countP fun j => s.Due date fixed m j ∧ (s.slice m j).pagePtrIdx = i ∧
    (s.slice m j).flagsDrv.has drvConst = true

/-- A list of pages is still there when the due slots below `n` are freed. -/
def ListLasts (m n i : Nat) : Prop := (s.pagePtr m i).isSome = true ∧
  (s.refCntr m i = 0 ∨ s.dueRefs date fixed m n i < s.refCntr m i)

instance (m n i : Nat) : Decidable (s.ListLasts date fixed m n i) :=
  inferInstanceAs (Decidable (_ ∧ _))

/-- Freeing the slot writes the hardware slice: its mapping is the active one, or it has no list of pages
and is not constant. -/
def WritesHw (m k : Nat) : Prop := s.Due date fixed m k ∧ (s.l1.mappingActive = m ∨
  ¬ s.ListLasts date fixed m k (s.slice m k).pagePtrIdx ∧ (s.slice m k).flagsDrv.has drvConst = false)

instance (m k : Nat) : Decidable (s.WritesHw date fixed m k) := inferInstanceAs (Decidable (_ ∧ _))

/-- Freeing the slot releases a page: the slot has a list of pages, is not striped and is not set up in a
mapping that comes later. -/
def Puts (m k : Nat) (p : Pin) : Prop := s.Due date fixed m k ∧
  s.ListLasts date fixed m k (s.slice m k).pagePtrIdx ∧
  (s.slice m k).flagsDrv.has drvStriped = false ∧
  ((s.slice m k).flagsDrv.has drvEvery = true → m + 1 = nMappingsPort1) ∧
  ∃ pages, s.pagePtr m (s.slice m k).pagePtrIdx = some pages ∧ p.array = pages.id ∧
    (s.slice m k).pageIdxStart ≤ p.idx ∧ p.idx ≤ (s.slice m k).pageIdxEnd

/-- The counter of a list of pages once the due slots below `n` are freed -/
def cntrAfter (m n i : Nat) : Nat :=
  if (s.pagePtr m i).isSome then
    if s.refCntr m i = 0 then (if s.dueRefs date fixed m n i = 0 then 0
      else 2 ^ 32 - s.dueRefs date fixed m n i)
    else s.refCntr m i - s.dueRefs date fixed m n i
  else s.refCntr m i - s.dueConstRefs date fixed m n i

/-- The state once the due slots below `n` of mapping `m` are freed. -/
structure FreedBelow (m n : Nat) (t : RabState) : Prop where
  ctrl : t.ctrl = s.ctrl
  active : t.l1.mappingActive = s.l1.mappingActive
  port0 : t.l1.port0 = s.l1.port0
  slice : ∀ m' k, t.slice m' k =
    if m' = m ∧ k < n ∧ s.Due date fixed m k then (s.slice m' k).cleared else s.slice m' k
  pagePtr : ∀ m' i, t.pagePtr m' i =
    if m' = m ∧ ¬ s.ListLasts date fixed m n i then none else s.pagePtr m' i
  refCntr : ∀ m' i, t.refCntr m' i =
    if m' = m then s.cntrAfter date fixed m n i else s.refCntr m' i
  hw : ∀ p k, t.hw p k = if p = .port1 ∧ k < n ∧ s.WritesHw date fixed m k then
    (s.hw p k).withFlags 0#8 else s.hw p k
  pinned : t.kernel.pinned = s.kernel.pinned
  put : ∃ new, t.kernel.put = s.kernel.put ++ new ∧
    ∀ p, p ∈ new ↔ ∃ k < n, s.Puts date fixed m k p

end RabState

section

variable {s t : RabState} {date : Nat} {fixed : Bool} {m n i k : Nat} {stack : SliceReq}

namespace RabState

theorem dueRefs_succ : s.dueRefs date fixed m (n + 1) i = s.dueRefs date fixed m n i +
    if s.Due date fixed m n ∧ (s.slice m n).pagePtrIdx = i then 1 else 0 := by
  simp only [dueRefs, List.range_succ, List.countP_append, List.countP_singleton, decide_eq_true_eq]

theorem dueConstRefs_succ : s.dueConstRefs date fixed m (n + 1) i = s.dueConstRefs date fixed m n i +
    if s.Due date fixed m n ∧ (s.slice m n).pagePtrIdx = i ∧
      (s.slice m n).flagsDrv.has drvConst = true then 1 else 0 := by
  simp only [dueConstRefs, List.range_succ, List.countP_append, List.countP_singleton, decide_eq_true_eq]

theorem dueRefs_le : s.dueRefs date fixed m n i ≤ n :=
  List.countP_le_length.trans List.length_range.le

/-- A slot that does not refer to the list, or is not due, changes nothing. -/
theorem field_succ_of_not (h : ¬ (s.Due date fixed m n ∧ (s.slice m n).pagePtrIdx = i)) :
    s.cntrAfter date fixed m (n + 1) i = s.cntrAfter date fixed m n i ∧
      (s.ListLasts date fixed m (n + 1) i ↔ s.ListLasts date fixed m n i) := by
  have hrefs : s.dueRefs date fixed m (n + 1) i = s.dueRefs date fixed m n i := by
    rw [dueRefs_succ, if_neg h, Nat.add_zero]
  have hconst : s.dueConstRefs date fixed m (n + 1) i = s.dueConstRefs date fixed m n i := by
    rw [dueConstRefs_succ, if_neg fun hno => h ⟨hno.1, hno.2.1⟩, Nat.add_zero]
  rw [cntrAfter, cntrAfter, ListLasts, ListLasts, hrefs, hconst]
  exact ⟨rfl, Iff.rfl⟩

theorem cntrAfter_some (h : (s.pagePtr m i).isSome = true) : s.cntrAfter date fixed m n i =
    if s.refCntr m i = 0 then (if s.dueRefs date fixed m n i = 0 then 0
      else 2 ^ 32 - s.dueRefs date fixed m n i)
    else s.refCntr m i - s.dueRefs date fixed m n i :=
  if_pos h

theorem cntrAfter_none (h : ¬ (s.pagePtr m i).isSome = true) :
    s.cntrAfter date fixed m n i = s.refCntr m i - s.dueConstRefs date fixed m n i :=
  if_neg h

theorem listLasts_some (h : (s.pagePtr m i).isSome = true) : s.ListLasts date fixed m n i ↔
    s.refCntr m i = 0 ∨ s.dueRefs date fixed m n i < s.refCntr m i :=
  and_iff_right h

/-- A due slot gives up its reference. -/
theorem field_succ (hdue : s.Due date fixed m n) (hi : (s.slice m n).pagePtrIdx = i)
    (hn : n + 1 < 2 ^ 32) :
    s.cntrAfter date fixed m (n + 1) i =
      (if s.ListLasts date fixed m n i ∨ (s.slice m n).flagsDrv.has drvConst = true ∧
          s.cntrAfter date fixed m n i ≠ 0 then
        sub32 (s.cntrAfter date fixed m n i) 1 else s.cntrAfter date fixed m n i) ∧
    (s.ListLasts date fixed m (n + 1) i ↔ s.ListLasts date fixed m n i ∧
      sub32 (s.cntrAfter date fixed m n i) 1 ≠ 0) := by
  have hle : s.dueRefs date fixed m n i ≤ n := dueRefs_le
  have hrefs : s.dueRefs date fixed m (n + 1) i = s.dueRefs date fixed m n i + 1 := by
    rw [dueRefs_succ, if_pos ⟨hdue, hi⟩]
  by_cases hptr : (s.pagePtr m i).isSome = true
  · simp only [cntrAfter_some hptr, listLasts_some hptr, hrefs]
    by_cases hzero : s.refCntr m i = 0
    · simp only [hzero, if_true, true_or]
      by_cases hfirst : s.dueRefs date fixed m n i = 0
      · simp [hfirst, sub32]
      · rw [if_neg (by omega), if_neg hfirst, sub32_of_le (by omega)]
        exact ⟨by omega, by simp; omega⟩
    · simp only [hzero, if_false, false_or]
      by_cases hlt : s.dueRefs date fixed m n i < s.refCntr m i
      · rw [if_pos (Or.inl hlt), sub32_of_le (by omega)]
        exact ⟨by omega, by omega⟩
      · have hgone : s.refCntr m i - s.dueRefs date fixed m n i = 0 := by omega
        rw [hgone, if_neg (by simp [hlt])]
        exact ⟨by omega, by omega⟩
  · have hnot : ∀ n, ¬ s.ListLasts date fixed m n i := fun _ hno => hptr hno.1
    rw [cntrAfter_none hptr, cntrAfter_none hptr, dueConstRefs_succ]
    refine ⟨?_, by simp [hnot]⟩
    cases hconst : (s.slice m n).flagsDrv.has drvConst with
    | true =>
      rw [if_pos ⟨hdue, hi, rfl⟩]
      by_cases hgone : s.refCntr m i - s.dueConstRefs date fixed m n i = 0
      · rw [hgone, if_neg (by simp [hnot])]
        omega
      · rw [if_pos (Or.inr ⟨rfl, hgone⟩), sub32_of_le (by omega)]
        omega
    | false => simp [hnot]

/-- The slot of Port 1 that is next, as its request sees it. -/
theorem freeReq_flags (stack : SliceReq) (date : Nat) (fixed : Bool) (t : RabState) (m n : Nat) :
    (freeReq stack date fixed t m n).flagsDrv.has drvFixed = fixed ∧
    (freeReq stack date fixed t m n).flagsDrv.has drvConst = (t.slice m n).flagsDrv.has drvConst ∧
    (freeReq stack date fixed t m n).flagsDrv.has drvStriped = (t.slice m n).flagsDrv.has drvStriped ∧
    (freeReq stack date fixed t m n).flagsDrv.has drvEvery =
      ((t.slice m n).flagsDrv.has drvEvery && decide (m + 1 ≠ nMappingsPort1)) := by
  have hset : ∀ (y : Flags) (fixed : Bool), (fixedFlag y fixed).has drvFixed = fixed ∧
      (fixedFlag y fixed).has drvConst = y.has drvConst ∧
      (fixedFlag y fixed).has drvStriped = y.has drvStriped ∧
      (fixedFlag y fixed).has drvEvery = y.has drvEvery := by decide
  have hclear : ∀ y : Flags, (y.clear drvEvery).has drvConst = y.has drvConst ∧
      (y.clear drvEvery).has drvStriped = y.has drvStriped ∧
      (y.clear drvEvery).has drvEvery = false := by decide
  simp only [freeReq, hset]
  split
  · next h => simp [hclear, h.2]
  · next h =>
    refine ⟨trivial, rfl, rfl, ?_⟩
    cases hevery : (t.slice m n).flagsDrv.has drvEvery with
    | true => simpa [hevery] using h
    | false => rfl

namespace FreedBelow

/-- The slot that is next is checked and freed as in the state the loop starts from. -/
theorem slice_next (h : s.FreedBelow date fixed m n t) : t.slice m n = s.slice m n := by
  rw [h.slice, if_neg fun hno => absurd hno.2.1 (Nat.lt_irrefl n)]

theorem managed_next (h : s.FreedBelow date fixed m n t) (stack : SliceReq) :
    t.sliceIsManagedByHost (freeReq stack date fixed t m n) = true ↔ s.Managed n := by
  have hreq : (freeReq stack date fixed t m n).rabPort = .port1 := rfl
  rw [RabState.sliceIsManagedByHost, hreq, h.ctrl, Managed]
  change (false || !s.ctrl.socMhIsEna || decide (n < s.ctrl.nSlicesReservedForHost)) = true ↔ _
  cases s.ctrl.socMhIsEna <;> simp

theorem check_next (h : s.FreedBelow date fixed m n t) (stack : SliceReq) :
    t.sliceCheck (freeReq stack date fixed t m n) = true ↔
      Expired (u8 date) (s.slice m n).dateExp ∧ ((s.slice m n).fixed = true → fixed = true) := by
  have hentry : t.entry (freeReq stack date fixed t m n) = (t.slice m n).toL1EntryPort0 := rfl
  have hdate : (freeReq stack date fixed t m n).dateCur = u8 date := rfl
  rw [RabState.sliceCheck, hentry, hdate, h.slice_next, (freeReq_flags stack date fixed t m n).1]
  cases (s.slice m n).fixed <;> cases fixed <;> simp [Expired, eq_comm (a := maxDateMh)]

/-- Whether the slot is freed. -/
theorem next_eq (h : s.FreedBelow date fixed m n t) :
    (if t.sliceCheck (freeReq stack date fixed t m n) then
      t.sliceFree (freeReq stack date fixed t m n) else t) =
    if s.Due date fixed m n then t.sliceFree (freeReq stack date fixed t m n) else t := by
  by_cases hmanaged : s.Managed n
  · by_cases hcheck : t.sliceCheck (freeReq stack date fixed t m n) = true
    · rw [if_pos hcheck, if_pos ⟨hmanaged, (h.check_next stack).mp hcheck⟩]
    · rw [if_neg hcheck, if_neg fun hno => hcheck ((h.check_next stack).mpr hno.2)]
  · have hunmanaged : t.sliceIsManagedByHost (freeReq stack date fixed t m n) = false := by
      rw [← Bool.not_eq_true, h.managed_next]
      exact hmanaged
    rw [sliceFree_unmanaged hunmanaged, ite_self, ite_self]

theorem pagesOld_next (h : s.FreedBelow date fixed m n t) :
    t.pagesOld (freeReq stack date fixed t m n) =
      if s.ListLasts date fixed m n (s.slice m n).pagePtrIdx then
        s.pagePtr m (s.slice m n).pagePtrIdx else none := by
  change t.pagePtr m (t.slice m n).pagePtrIdx = _
  rw [h.slice_next, h.pagePtr]
  by_cases hlasts : s.ListLasts date fixed m n (s.slice m n).pagePtrIdx
  · rw [if_neg fun hno => hno.2 hlasts, if_pos hlasts]
  · rw [if_pos ⟨rfl, hlasts⟩, if_neg hlasts]

theorem pagesOld_isSome (h : s.FreedBelow date fixed m n t) (stack : SliceReq) :
    (t.pagesOld (freeReq stack date fixed t m n)).isSome = true ↔
      s.ListLasts date fixed m n (s.slice m n).pagePtrIdx := by
  rw [h.pagesOld_next]
  split
  · next hlasts => exact iff_of_true hlasts.1 hlasts
  · next hlasts => simp [hlasts]

theorem unrefs_next (h : s.FreedBelow date fixed m n t) (hdue : s.Due date fixed m n)
    (stack : SliceReq) :
    t.unrefs (freeReq stack date fixed t m n) = true ↔
      s.ListLasts date fixed m n (s.slice m n).pagePtrIdx ∨
        (s.slice m n).flagsDrv.has drvConst = true ∧
          s.cntrAfter date fixed m n (s.slice m n).pagePtrIdx ≠ 0 := by
  have hcntr : t.refCntr m (s.slice m n).pagePtrIdx =
      s.cntrAfter date fixed m n (s.slice m n).pagePtrIdx := by
    rw [h.refCntr, if_pos rfl]
  rw [RabState.unrefs, (h.managed_next stack).mpr hdue.1, (freeReq_flags stack date fixed t m n).2.1,
    ← h.pagesOld_isSome stack]
  change (true && true && ((t.pagesOld (freeReq stack date fixed t m n)).isSome ||
    (t.slice m n).flagsDrv.has drvConst && decide (t.refCntr m (t.slice m n).pagePtrIdx ≠ 0))) = true ↔ _
  rw [h.slice_next, hcntr]
  simp

/-- A slot that is not due is left as it is. -/
theorem skip (h : s.FreedBelow date fixed m n t) (hdue : ¬ s.Due date fixed m n) :
    s.FreedBelow date fixed m (n + 1) t := by
  have hlt : ∀ k, k < n + 1 ∧ s.Due date fixed m k ↔ k < n ∧ s.Due date fixed m k := by
    intro k
    constructor
    · intro hk
      have hne : k ≠ n := fun heq => hdue (heq ▸ hk.2)
      exact ⟨by omega, hk.2⟩
    · exact fun hk => ⟨by omega, hk.2⟩
  have hfield : ∀ i, s.cntrAfter date fixed m (n + 1) i = s.cntrAfter date fixed m n i ∧
      (s.ListLasts date fixed m (n + 1) i ↔ s.ListLasts date fixed m n i) :=
    fun i => field_succ_of_not fun hno => hdue hno.1
  refine ⟨h.ctrl, h.active, h.port0, ?_, ?_, ?_, ?_, h.pinned, ?_⟩
  · intro m' k
    simp only [h.slice, hlt]
  · intro m' i
    simp only [h.pagePtr, (hfield i).2]
  · intro m' i
    rw [h.refCntr, (hfield i).1]
  · intro p k
    have hwrites : k < n + 1 ∧ s.WritesHw date fixed m k ↔ k < n ∧ s.WritesHw date fixed m k := by
      constructor
      · exact fun hk => ⟨((hlt k).mp ⟨hk.1, hk.2.1⟩).1, hk.2⟩
      · exact fun hk => ⟨by omega, hk.2⟩
    simp only [h.hw, hwrites]
  · obtain ⟨new, hput, hnew⟩ := h.put
    refine ⟨new, hput, ?_⟩
    intro p
    rw [hnew]
    constructor
    · exact fun hk => hk.imp fun k hk => ⟨by omega, hk.2⟩
    · exact fun hk => hk.imp fun k hk => ⟨((hlt k).mp ⟨hk.1, hk.2.1⟩).1, hk.2⟩

/-- What freeing the slot makes of the hardware slice -/
theorem withFlags_next (h : s.FreedBelow date fixed m n t) (hdue : s.Due date fixed m n)
    (hsame : t.hw .port1 n = s.hw .port1 n) :
    (if t.clearsHw (freeReq stack date fixed t m n) = true ∧
        Port.port1 = (freeReq stack date fixed t m n).rabPort ∧
        n = (freeReq stack date fixed t m n).rabSlice then
      (s.hw .port1 n).withFlags 0#8 else s.hw .port1 n) =
      if s.WritesHw date fixed m n then (s.hw .port1 n).withFlags 0#8 else s.hw .port1 n := by
  have hclears : t.clearsHw (freeReq stack date fixed t m n) =
      if (t.pagesOld (freeReq stack date fixed t m n)).isSome ∨
          (t.slice m n).flagsDrv.has drvConst = true then decide (t.l1.mappingActive = m)
      else decide ((t.hw .port1 n).flags ≠ 0#8) := by
    rw [RabState.clearsHw, (h.managed_next stack).mpr hdue.1, Bool.true_and]
    have hport : (freeReq stack date fixed t m n).rabPort = .port1 := rfl
    simp only [hport, true_and, (freeReq_flags stack date fixed t m n).2.1]
    rfl
  by_cases hcase : s.ListLasts date fixed m n (s.slice m n).pagePtrIdx ∨
      (s.slice m n).flagsDrv.has drvConst = true
  · have hclears' : t.clearsHw (freeReq stack date fixed t m n) = true ↔ s.l1.mappingActive = m := by
      rw [hclears, if_pos (by rw [h.pagesOld_isSome, h.slice_next]; exact hcase), h.active,
        decide_eq_true_eq]
    have hwrites : s.WritesHw date fixed m n ↔ s.l1.mappingActive = m := by
      constructor
      · intro hno
        apply hno.2.resolve_right
        intro hno'
        cases hcase with
        | inl hlasts => exact hno'.1 hlasts
        | inr hconst => rw [hno'.2] at hconst; cases hconst
      · exact fun hactive => ⟨hdue, Or.inl hactive⟩
    by_cases hactive : s.l1.mappingActive = m
    · rw [if_pos ⟨hclears'.mpr hactive, rfl, rfl⟩, if_pos (hwrites.mpr hactive)]
    · rw [if_neg fun hno => hactive (hclears'.mp hno.1), if_neg fun hno => hactive (hwrites.mp hno)]
  · have hclears' : t.clearsHw (freeReq stack date fixed t m n) = true ↔
        (s.hw .port1 n).flags ≠ 0#8 := by
      rw [hclears, if_neg (by rw [h.pagesOld_isSome, h.slice_next]; exact hcase), hsame,
        decide_eq_true_eq]
    rw [not_or, Bool.not_eq_true] at hcase
    rw [@if_pos (s.WritesHw date fixed m n) _ ⟨hdue, Or.inr hcase⟩]
    by_cases hflags : (s.hw .port1 n).flags = 0#8
    · rw [if_neg fun hno => hclears'.mp hno.1 hflags, HwSlice.withFlags, ← hflags]
    · rw [if_pos ⟨hclears'.mpr hflags, rfl, rfl⟩]

theorem mem_released (h : s.FreedBelow date fixed m n t) (hdue : s.Due date fixed m n) (p : Pin) :
    p ∈ t.released (freeReq stack date fixed t m n) ↔ s.Puts date fixed m n p := by
  have hflags := (freeReq_flags stack date fixed t m n).2.2
  rw [h.slice_next] at hflags
  have hkeeps : (t.sliceIsManagedByHost (freeReq stack date fixed t m n) = true ∧
      (!(freeReq stack date fixed t m n).flagsDrv.has drvStriped) = true ∧
      (!(freeReq stack date fixed t m n).flagsDrv.has drvEvery) = true) ↔
      (s.slice m n).flagsDrv.has drvStriped = false ∧
        ((s.slice m n).flagsDrv.has drvEvery = true → m + 1 = nMappingsPort1) := by
    rw [h.managed_next, hflags.1, hflags.2]
    have hmanaged : s.Managed n := hdue.1
    cases (s.slice m n).flagsDrv.has drvEvery <;> simp [hmanaged]
  rw [released]
  by_cases hif : (s.slice m n).flagsDrv.has drvStriped = false ∧
      ((s.slice m n).flagsDrv.has drvEvery = true → m + 1 = nMappingsPort1)
  · rw [if_pos (hkeeps.mpr hif), h.pagesOld_next]
    by_cases hlasts : s.ListLasts date fixed m n (s.slice m n).pagePtrIdx
    · obtain ⟨pages, hpages⟩ := Option.isSome_iff_exists.mp hlasts.1
      rw [if_pos hlasts, hpages]
      change p ∈ (List.range' (t.slice m n).pageIdxStart
        ((t.slice m n).pageIdxEnd + 1 - (t.slice m n).pageIdxStart)).map (Pin.mk pages.id) ↔ _
      rw [h.slice_next, List.mem_map]
      constructor
      · intro hp
        obtain ⟨idx, hidx, rfl⟩ := hp
        rw [List.mem_range'_1] at hidx
        exact ⟨hdue, hlasts, hif.1, hif.2, pages, hpages, rfl, hidx.1, by change idx ≤ _; omega⟩
      · intro hp
        obtain ⟨-, -, -, -, pages', hpages', hid, hstart, hend⟩ := hp
        rw [hpages] at hpages'
        cases hpages'
        refine ⟨p.idx, ?_, ?_⟩
        · rw [List.mem_range'_1]
          omega
        · rw [← hid]
    · rw [if_neg hlasts]
      simp [Puts, hlasts]
  · rw [if_neg fun hno => hif (hkeeps.mp hno)]
    simp only [List.not_mem_nil, false_iff]
    exact fun hno => hif ⟨hno.2.2.1, hno.2.2.2.1⟩

/-- A slot that is due is freed. -/
theorem free (h : s.FreedBelow date fixed m n t) (hdue : s.Due date fixed m n) (hn : n + 1 < 2 ^ 32)
    (stack : SliceReq) :
    s.FreedBelow date fixed m (n + 1) (t.sliceFree (freeReq stack date fixed t m n)) := by
  have hframe := t.sliceFree_frame (freeReq stack date fixed t m n)
  have hmanaged := (h.managed_next stack).mpr hdue.1
  have hidx : (t.slice m n).pagePtrIdx = (s.slice m n).pagePtrIdx := by rw [h.slice_next]
  refine ⟨hframe.2.1.trans h.ctrl, hframe.1.trans h.active, ?_, ?_, ?_, ?_, ?_,
    hframe.2.2.1.trans h.pinned, ?_⟩
  · funext k
    rw [sliceFree_entry0, if_neg fun hno => Port.noConfusion hno.1, h.port0]
  · intro m' k
    by_cases hk : m' = m ∧ k = n
    · obtain ⟨rfl, rfl⟩ := hk
      rw [sliceFree_slice, if_pos ⟨hmanaged, rfl, rfl, rfl⟩, h.slice_next,
        if_pos ⟨rfl, by omega, hdue⟩]
    · have hlt : (m' = m ∧ k < n + 1 ∧ s.Due date fixed m k) ↔ m' = m ∧ k < n ∧ s.Due date fixed m k := by
        constructor
        · intro hno
          have hne : k ≠ n := fun heq => hk ⟨hno.1, heq⟩
          exact ⟨hno.1, by omega, hno.2.2⟩
        · exact fun hno => ⟨hno.1, by omega, hno.2.2⟩
      rw [sliceFree_slice, if_neg fun hno => hk hno.2.2, h.slice]
      simp only [hlt]
  · intro m' i
    rw [sliceFree_pagePtr, h.pagePtr]
    by_cases hm : m' = m
    · subst hm
      rw [h.refCntr, if_pos rfl]
      by_cases hi : (s.slice m' n).pagePtrIdx = i
      · have hnext := (field_succ hdue hi hn).2
        have hsome := h.pagesOld_isSome stack
        rw [hi] at hsome
        by_cases hlasts : s.ListLasts date fixed m' n i
        · by_cases hzero : sub32 (s.cntrAfter date fixed m' n i) 1 = 0
          · rw [if_pos ⟨hmanaged, rfl, hsome.mpr hlasts, hi.symm.trans hidx.symm, hzero⟩,
              if_pos ⟨rfl, fun hno => (hnext.mp hno).2 hzero⟩]
          · rw [if_neg fun hno => hzero hno.2.2.2.2, if_neg fun hno => hno.2 hlasts,
              if_neg fun hno => hno.2 (hnext.mpr ⟨hlasts, hzero⟩)]
        · rw [if_neg fun hno => hlasts (hsome.mp hno.2.2.1), if_pos ⟨rfl, hlasts⟩,
            if_pos ⟨rfl, fun hno => hlasts (hnext.mp hno).1⟩]
      · rw [if_neg fun hno => hi (hno.2.2.2.1.trans hidx).symm]
        simp only [(field_succ_of_not fun hno => hi hno.2 :
          _ ∧ (s.ListLasts date fixed m' (n + 1) i ↔ s.ListLasts date fixed m' n i)).2]
    · rw [if_neg fun hno => hm hno.2.1, if_neg fun hno => hm hno.1, if_neg fun hno => hm hno.1]
  · intro m' i
    rw [sliceFree_refCntr, h.refCntr]
    by_cases hm : m' = m
    · subst hm
      rw [@if_pos (m' = m') _ rfl, @if_pos (m' = m') _ rfl]
      by_cases hi : (s.slice m' n).pagePtrIdx = i
      · have hunrefs := h.unrefs_next hdue stack
        rw [hi] at hunrefs
        rw [(field_succ hdue hi hn).1]
        by_cases hunref : t.unrefs (freeReq stack date fixed t m' n) = true
        · rw [if_pos ⟨hunref, rfl, hi.symm.trans hidx.symm⟩, if_pos (hunrefs.mp hunref)]
        · rw [if_neg fun hno => hunref hno.1, if_neg fun hno => hunref (hunrefs.mpr hno)]
      · rw [if_neg fun hno => hi (hno.2.2.trans hidx).symm, (field_succ_of_not fun hno => hi hno.2).1]
    · rw [if_neg fun hno => hm hno.2.1, if_neg hm, if_neg hm]
  · intro p k
    rw [sliceFree_hw]
    by_cases hk : p = .port1 ∧ k = n
    · obtain ⟨rfl, rfl⟩ := hk
      have hsame : t.hw .port1 k = s.hw .port1 k := by
        rw [h.hw, if_neg fun hno => absurd hno.2.1 (Nat.lt_irrefl k)]
      rw [hsame, h.withFlags_next hdue hsame]
      simp
    · have hlt : (p = .port1 ∧ k < n + 1 ∧ s.WritesHw date fixed m k) ↔
          p = .port1 ∧ k < n ∧ s.WritesHw date fixed m k := by
        constructor
        · intro hno
          have hne : k ≠ n := fun heq => hk ⟨hno.1, heq⟩
          exact ⟨hno.1, by omega, hno.2.2⟩
        · exact fun hno => ⟨hno.1, by omega, hno.2.2⟩
      rw [if_neg fun hno => hk hno.2, h.hw]
      simp only [hlt]
  · obtain ⟨new, hput, hnew⟩ := h.put
    refine ⟨new ++ t.released (freeReq stack date fixed t m n), ?_, ?_⟩
    · rw [sliceFree_put, hput, List.append_assoc]
    · intro p
      rw [List.mem_append, hnew, h.mem_released hdue]
      constructor
      · intro hp
        cases hp with
        | inl hp => exact hp.imp fun k hk => ⟨by omega, hk.2⟩
        | inr hp => exact ⟨n, by omega, hp⟩
      · intro hp
        obtain ⟨k, hk, hputs⟩ := hp
        by_cases hkn : k = n
        · exact Or.inr (hkn ▸ hputs)
        · exact Or.inl ⟨k, by omega, hputs⟩

end FreedBelow

theorem freedBelow_zero (s : RabState) (date : Nat) (fixed : Bool) (m : Nat) :
    s.FreedBelow date fixed m 0 s := by
  have hrefs : ∀ i, s.dueRefs date fixed m 0 i = 0 := fun _ => rfl
  have hconst : ∀ i, s.dueConstRefs date fixed m 0 i = 0 := fun _ => rfl
  refine ⟨rfl, rfl, rfl, ?_, ?_, ?_, ?_, rfl, ⟨[], by simp, by simp⟩⟩
  · exact fun m' k => (if_neg fun hno => absurd hno.2.1 (Nat.not_lt_zero k)).symm
  · intro m' i
    by_cases hptr : (s.pagePtr m' i).isSome = true
    · rw [if_neg]
      intro hno
      apply hno.2
      rw [ListLasts, hrefs, ← hno.1]
      exact ⟨hptr, by omega⟩
    · rw [Option.not_isSome_iff_eq_none] at hptr
      rw [hptr, ite_self]
  · intro m' i
    split
    · next hm =>
      rw [cntrAfter, hrefs, hconst, hm]
      simp +contextual
    · rfl
  · exact fun p k => (if_neg fun hno => absurd hno.2.1 (Nat.not_lt_zero k)).symm

theorem range_next {pre post : List Nat} (h : List.range n = pre ++ k :: post) : k = pre.length := by
  have hlen := congrArg List.length h
  rw [List.length_range, List.length_append, List.length_cons] at hlen
  have hget := congrArg (fun xs => xs[pre.length]?) h
  simp only [List.getElem?_append_right le_rfl, Nat.sub_self, List.getElem?_cons_zero] at hget
  rw [List.getElem?_range (by omega)] at hget
  exact (Option.some.inj hget).symm

/-- Freeing the due slots of one mapping -/
theorem exec_freeMapping (plat : Platform) (stack : SliceReq) (s : RabState) (date : Nat) (fixed : Bool)
    (m n : Nat) (hn : n < 2 ^ 32) : ∃ t,
      (driver plat).exec (Prog.foldl (fun _ k => freePort1 stack date fixed m k) () (List.range n)) s =
        (.ok (), t) ∧ s.FreedBelow date fixed m n t := by
  have htriple : (driver plat).Triple always always (fun t => s.FreedBelow date fixed m 0 t)
      (Prog.foldl (fun _ k => freePort1 stack date fixed m k) () (List.range n))
      fun r t => r = .ok () ∧ s.FreedBelow date fixed m (List.range n).length t := by
    apply Triple.each (R := fun pre t => s.FreedBelow date fixed m pre.length t)
    intro pre k post hrange t ht _
    have hk : k = pre.length := range_next hrange
    have hlt : k < n := List.mem_range.mp (hrange ▸ List.mem_append_right pre List.mem_cons_self)
    have hexec : (driver plat).exec (freePort1 stack date fixed m k) t =
        (.ok (), if t.sliceCheck (freeReq stack date fixed t m k) then
          t.sliceFree (freeReq stack date fixed t m k) else t) := by
      change (driver plat).exec (if t.sliceCheck (freeReq stack date fixed t m k) then _ else _) t = _
      split <;> rfl
    refine ⟨along_of_forall (fun _ _ => trivial) _ _, ?_⟩
    rw [hexec, hk, ht.next_eq, List.length_append]
    refine ⟨rfl, ?_⟩
    split
    · next hdue => exact ht.free hdue (by omega) stack
    · next hdue => exact ht.skip hdue
  have hrun := (htriple.run (freedBelow_zero s date fixed m)).2
  rw [List.length_range] at hrun
  exact ⟨_, Prod.ext hrun.1 rfl, hrun.2⟩

/-- The shadow of Port 0 once the due slots below `n` are freed -/
def port0After (s : RabState) (date : Nat) (fixed : Bool) (n k : Nat) : L1EntryPort0 :=
  if k < n ∧ s.DuePort0 date fixed k then (s.l1.port0 k).cleared else s.l1.port0 k

/-- The state once the due slots of Port 0 below `n` are freed. -/
structure FreedPort0 (s : RabState) (date : Nat) (fixed : Bool) (n : Nat) (t : RabState) : Prop where
  l1 : t.l1 = { s.l1 with port0 := s.port0After date fixed n }
  hw : ∀ p k, t.hw p k = if p = .port0 ∧ k < n ∧ s.DuePort0 date fixed k then
    (s.hw p k).withFlags 0#8 else s.hw p k
  ctrl : t.ctrl = s.ctrl
  kernel : t.kernel = s.kernel

theorem FreedPort0.next (h : s.FreedPort0 date fixed n t) (stack : SliceReq) :
    s.FreedPort0 date fixed (n + 1) (if t.sliceCheck (freeReq0 stack date fixed n) then
      t.sliceFree (freeReq0 stack date fixed n) else t) := by
  have hentry : t.l1.port0 n = s.l1.port0 n := by
    rw [h.l1]
    change s.port0After date fixed n n = _
    rw [port0After, if_neg fun hno => absurd hno.1 (Nat.lt_irrefl n)]
  have hfixed : (freeReq0 stack date fixed n).flagsDrv.has drvFixed = fixed := by
    have hset : ∀ fixed : Bool, (fixedFlag drvConst fixed).has drvFixed = fixed := by decide
    exact hset fixed
  have hcheck : t.sliceCheck (freeReq0 stack date fixed n) = true ↔ s.DuePort0 date fixed n := by
    have hentry' : t.entry (freeReq0 stack date fixed n) = s.l1.port0 n := hentry
    have hdate : (freeReq0 stack date fixed n).dateCur = u8 date := rfl
    rw [RabState.sliceCheck, hentry', hdate, hfixed, DuePort0]
    cases (s.l1.port0 n).fixed <;> cases fixed <;> simp [Expired, eq_comm (a := maxDateMh)]
  by_cases hdue : s.DuePort0 date fixed n
  · have hport : (freeReq0 stack date fixed n).rabPort = .port0 := rfl
    have hrelease : (t.releaseHw (freeReq0 stack date fixed n)).l1 = t.l1 ∧
        (t.releaseHw (freeReq0 stack date fixed n)).kernel = t.kernel := by
      rw [releaseHw]
      split <;> exact ⟨rfl, rfl⟩
    have hframe := t.sliceFree_frame (freeReq0 stack date fixed n)
    rw [if_pos (hcheck.mpr hdue)]
    refine ⟨?_, ?_, hframe.2.1.trans h.ctrl, ?_⟩
    · rw [sliceFree_port0 hport]
      have hupdate : Function.update (s.port0After date fixed n) n (s.l1.port0 n).cleared =
          s.port0After date fixed (n + 1) := by
        funext k
        by_cases hk : k = n
        · subst hk
          rw [Function.update_self, port0After, if_pos ⟨by omega, hdue⟩]
        · have hlt : k < n + 1 ∧ s.DuePort0 date fixed k ↔ k < n ∧ s.DuePort0 date fixed k :=
            and_congr_left fun _ => by omega
          simp only [Function.update_of_ne hk, port0After, hlt]
      have hclear : ∀ u : RabState, (u.clearEntry (freeReq0 stack date fixed n)).l1 =
          ⟨Function.update u.l1.port0 n (u.l1.port0 n).cleared, u.l1.mappings, u.l1.mappingActive⟩ :=
        fun _ => rfl
      rw [hclear, hrelease.1, hentry, h.l1, ← hupdate]
    · intro p k
      rw [sliceFree_hw]
      by_cases hk : p = .port0 ∧ k = n
      · obtain ⟨rfl, rfl⟩ := hk
        have hsame : t.hw .port0 k = s.hw .port0 k := by
          rw [h.hw, if_neg fun hno => absurd hno.2.1 (Nat.lt_irrefl k)]
        rw [hsame, @if_pos (Port.port0 = Port.port0 ∧ _) _ ⟨rfl, by omega, hdue⟩]
        have hclears : t.clearsHw (freeReq0 stack date fixed k) = true ↔ (t.hw .port0 k).flags ≠ 0#8 := by
          rw [clearsHw]
          simp [sliceIsManagedByHost, pagesOld, freeReq0, -decide_not]
          exact decide_eq_true_iff
        rw [hsame] at hclears
        by_cases hflags : (s.hw .port0 k).flags = 0#8
        · rw [if_neg fun hno => hclears.mp hno.1 hflags, HwSlice.withFlags, ← hflags]
        · rw [if_pos ⟨hclears.mpr hflags, rfl, rfl⟩]
      · rw [if_neg fun hno => hk hno.2, h.hw]
        have hlt : (p = .port0 ∧ k < n + 1 ∧ s.DuePort0 date fixed k) ↔
            p = .port0 ∧ k < n ∧ s.DuePort0 date fixed k := by
          constructor
          · intro hno
            have hne : k ≠ n := fun heq => hk ⟨hno.1, heq⟩
            exact ⟨hno.1, by omega, hno.2.2⟩
          · exact fun hno => ⟨hno.1, by omega, hno.2.2⟩
        simp only [hlt]
    · rw [sliceFree_port0 hport, clearEntry_frame.2.1, hrelease.2, h.kernel]
  · rw [if_neg fun hno => hdue (hcheck.mp hno)]
    have hlt : ∀ k, k < n + 1 ∧ s.DuePort0 date fixed k ↔ k < n ∧ s.DuePort0 date fixed k := by
      intro k
      constructor
      · intro hk
        have hne : k ≠ n := fun heq => hdue (heq ▸ hk.2)
        exact ⟨by omega, hk.2⟩
      · exact fun hk => ⟨by omega, hk.2⟩
    refine ⟨?_, ?_, h.ctrl, h.kernel⟩
    · have hsame : s.port0After date fixed (n + 1) = s.port0After date fixed n := by
        funext k
        simp only [port0After, hlt]
      rw [h.l1, hsame]
    · intro p k
      simp only [hlt]
      exact h.hw p k

theorem freedPort0_zero (s : RabState) (date : Nat) (fixed : Bool) : s.FreedPort0 date fixed 0 s := by
  have hzero : s.port0After date fixed 0 = s.l1.port0 :=
    funext fun k => if_neg fun hno => absurd hno.1 (Nat.not_lt_zero k)
  refine ⟨?_, ?_, rfl, rfl⟩
  · rw [hzero]
  · exact fun p k => (if_neg fun hno => absurd hno.2.1 (Nat.not_lt_zero k)).symm

/-- Freeing the due slots of Port 0 -/
theorem exec_freePort0 (plat : Platform) (stack : SliceReq) (s : RabState) (date : Nat) (fixed : Bool)
    (n : Nat) : ∃ t,
      (driver plat).exec (Prog.foldl (fun _ k => freePort0 stack date fixed k) () (List.range n)) s =
        (.ok (), t) ∧ s.FreedPort0 date fixed n t := by
  have htriple : (driver plat).Triple always always (fun t => s.FreedPort0 date fixed 0 t)
      (Prog.foldl (fun _ k => freePort0 stack date fixed k) () (List.range n))
      fun r t => r = .ok () ∧ s.FreedPort0 date fixed (List.range n).length t := by
    apply Triple.each (R := fun pre t => s.FreedPort0 date fixed pre.length t)
    intro pre k post hrange t ht _
    have hexec : (driver plat).exec (freePort0 stack date fixed k) t =
        (.ok (), if t.sliceCheck (freeReq0 stack date fixed k) then
          t.sliceFree (freeReq0 stack date fixed k) else t) := by
      change (driver plat).exec (if t.sliceCheck (freeReq0 stack date fixed k) then _ else _) t = _
      split <;> rfl
    refine ⟨along_of_forall (fun _ _ => trivial) _ _, ?_⟩
    rw [hexec, range_next hrange, List.length_append]
    exact ⟨rfl, ht.next stack⟩
  have hrun := (htriple.run (freedPort0_zero s date fixed)).2
  rw [List.length_range] at hrun
  exact ⟨_, Prod.ext hrun.1 rfl, hrun.2⟩

/-- Two states agree on what decides which slots of a mapping are due and what freeing them does. -/
structure SameMapping (s t : RabState) (m : Nat) : Prop where
  ctrl : t.ctrl = s.ctrl
  active : t.l1.mappingActive = s.l1.mappingActive
  slice : ∀ k, t.slice m k = s.slice m k
  pagePtr : ∀ i, t.pagePtr m i = s.pagePtr m i
  refCntr : ∀ i, t.refCntr m i = s.refCntr m i

namespace SameMapping

theorem due (h : s.SameMapping t m) (k : Nat) : t.Due date fixed m k ↔ s.Due date fixed m k := by
  rw [Due, Due, Managed, Managed, h.ctrl, h.slice]

theorem dueRefs (h : s.SameMapping t m) (n i : Nat) :
    t.dueRefs date fixed m n i = s.dueRefs date fixed m n i := by
  simp only [RabState.dueRefs, h.due, h.slice]

theorem listLasts (h : s.SameMapping t m) (n i : Nat) :
    t.ListLasts date fixed m n i ↔ s.ListLasts date fixed m n i := by
  rw [ListLasts, ListLasts, h.pagePtr, h.refCntr, h.dueRefs]

theorem cntrAfter (h : s.SameMapping t m) (n i : Nat) :
    t.cntrAfter date fixed m n i = s.cntrAfter date fixed m n i := by
  simp only [RabState.cntrAfter, RabState.dueConstRefs, h.pagePtr, h.refCntr, h.dueRefs, h.due, h.slice]

theorem writesHw (h : s.SameMapping t m) (k : Nat) :
    t.WritesHw date fixed m k ↔ s.WritesHw date fixed m k := by
  rw [WritesHw, WritesHw, h.due, h.active, h.slice, h.listLasts]

theorem puts (h : s.SameMapping t m) (k : Nat) (p : Pin) :
    t.Puts date fixed m k p ↔ s.Puts date fixed m k p := by
  simp only [Puts, h.due, h.slice, h.listLasts, h.pagePtr]

end SameMapping

theorem FreedBelow.sameMapping (h : s.FreedBelow date fixed m n t) {m' : Nat} (hm : m' ≠ m) :
    s.SameMapping t m' :=
  ⟨h.ctrl, h.active, fun k => by rw [h.slice, if_neg fun hno => hm hno.1],
    fun i => by rw [h.pagePtr, if_neg fun hno => hm hno.1], fun i => by rw [h.refCntr, if_neg hm]⟩

theorem FreedPort0.sameMapping (h : s.FreedPort0 date fixed n t) (m : Nat) : s.SameMapping t m := by
  have hmappings : t.l1.mappings = s.l1.mappings := by rw [h.l1]
  refine ⟨h.ctrl, by rw [h.l1], ?_, ?_, ?_⟩
  · intro k
    rw [RabState.slice, RabState.slice, hmappings]
  · intro i
    rw [RabState.pagePtr, RabState.pagePtr, hmappings]
  · intro i
    rw [RabState.refCntr, RabState.refCntr, hmappings]

/-- What `pulp_rab_free` leaves. -/
structure Freed (plat : Platform) (s : RabState) (date : Nat) (fixed : Bool) (t : RabState) : Prop where
  ctrl : t.ctrl = s.ctrl
  active : t.l1.mappingActive = s.l1.mappingActive
  port0 : ∀ k, t.l1.port0 k = s.port0After date fixed nSlicesPort0 k
  hwPort0 : ∀ k, t.hw .port0 k = if k < nSlicesPort0 ∧ s.DuePort0 date fixed k then
    (s.hw .port0 k).withFlags 0#8 else s.hw .port0 k
  slice : ∀ m < nMappingsPort1, ∀ k, t.slice m k =
    if k < plat.nSlicesPort1 ∧ s.Due date fixed m k then (s.slice m k).cleared else s.slice m k
  pagePtr : ∀ m < nMappingsPort1, ∀ i, t.pagePtr m i =
    if s.ListLasts date fixed m plat.nSlicesPort1 i then s.pagePtr m i else none
  refCntr : ∀ m < nMappingsPort1, ∀ i, t.refCntr m i = s.cntrAfter date fixed m plat.nSlicesPort1 i
  hwPort1 : ∀ k, t.hw .port1 k = if k < plat.nSlicesPort1 ∧ ∃ m < nMappingsPort1,
    s.WritesHw date fixed m k then (s.hw .port1 k).withFlags 0#8 else s.hw .port1 k
  pinned : t.kernel.pinned = s.kernel.pinned
  put : ∃ new, t.kernel.put = s.kernel.put ++ new ∧ ∀ p, p ∈ new ↔
    ∃ m < nMappingsPort1, ∃ k < plat.nSlicesPort1, s.Puts date fixed m k p

theorem lt_nMappings {m : Nat} : m < nMappingsPort1 ↔ m = 0 ∨ m = 1 := by
  rw [nMappingsPort1]
  omega

/-- One mapping after the other -/
private theorem Freed.of_loops {plat : Platform} {s t₀ t₁ t₂ : RabState} {date : Nat} {fixed : Bool}
    (h₀ : s.FreedPort0 date fixed nSlicesPort0 t₀)
    (h₁ : t₀.FreedBelow date fixed 0 plat.nSlicesPort1 t₁)
    (h₂ : t₁.FreedBelow date fixed 1 plat.nSlicesPort1 t₂) : s.Freed plat date fixed t₂ := by
  have hsame₀ := h₀.sameMapping
  have hsame₁ : s.SameMapping t₁ 1 := by
    have hfirst : t₀.SameMapping t₁ 1 := h₁.sameMapping (by decide)
    exact ⟨hfirst.ctrl.trans (hsame₀ 1).ctrl, hfirst.active.trans (hsame₀ 1).active,
      fun k => (hfirst.slice k).trans ((hsame₀ 1).slice k),
      fun i => (hfirst.pagePtr i).trans ((hsame₀ 1).pagePtr i),
      fun i => (hfirst.refCntr i).trans ((hsame₀ 1).refCntr i)⟩
  have hsame₂ : t₁.SameMapping t₂ 0 := h₂.sameMapping (by decide)
  have hkernel : t₀.kernel = s.kernel := h₀.kernel
  refine ⟨?_, ?_, ?_, ?_, ?_, ?_, ?_, ?_, ?_, ?_⟩
  · rw [h₂.ctrl, h₁.ctrl, h₀.ctrl]
  · rw [h₂.active, hsame₁.active]
  · intro k
    rw [h₂.port0, h₁.port0, h₀.l1]
  · intro k
    rw [h₂.hw, if_neg fun hno => Port.noConfusion hno.1, h₁.hw,
      if_neg fun hno => Port.noConfusion hno.1, h₀.hw]
    simp only [true_and]
  · intro m hm k
    cases lt_nMappings.mp hm with
    | inl hm =>
      subst hm
      rw [hsame₂.slice, h₁.slice]
      simp only [true_and, (hsame₀ 0).due, (hsame₀ 0).slice]
    | inr hm =>
      subst hm
      rw [h₂.slice]
      simp only [true_and, hsame₁.due, hsame₁.slice]
  · intro m hm i
    cases lt_nMappings.mp hm with
    | inl hm =>
      subst hm
      rw [hsame₂.pagePtr, h₁.pagePtr]
      simp only [true_and, (hsame₀ 0).listLasts, (hsame₀ 0).pagePtr, ite_not]
    | inr hm =>
      subst hm
      rw [h₂.pagePtr]
      simp only [true_and, hsame₁.listLasts, hsame₁.pagePtr, ite_not]
  · intro m hm i
    cases lt_nMappings.mp hm with
    | inl hm =>
      subst hm
      rw [hsame₂.refCntr, h₁.refCntr, if_pos rfl, (hsame₀ 0).cntrAfter]
    | inr hm =>
      subst hm
      rw [h₂.refCntr, if_pos rfl, hsame₁.cntrAfter]
  · intro k
    rw [h₂.hw, h₁.hw, h₀.hw, if_neg (fun hno => Port.noConfusion hno.1 : ¬ (Port.port1 = .port0 ∧ _))]
    simp only [true_and, hsame₁.writesHw, (hsame₀ 0).writesHw, lt_nMappings, or_and_right, exists_or,
      exists_eq_left]
    have htwice : ((s.hw .port1 k).withFlags 0#8).withFlags 0#8 = (s.hw .port1 k).withFlags 0#8 := rfl
    by_cases hk : k < plat.nSlicesPort1
    · by_cases hfirst : s.WritesHw date fixed 0 k <;> by_cases hsecond : s.WritesHw date fixed 1 k <;>
        simp [hk, hfirst, hsecond, htwice]
    · simp [hk]
  · rw [h₂.pinned, h₁.pinned, hkernel]
  · obtain ⟨new₁, hput₁, hnew₁⟩ := h₁.put
    obtain ⟨new₂, hput₂, hnew₂⟩ := h₂.put
    refine ⟨new₁ ++ new₂, ?_, ?_⟩
    · rw [hput₂, hput₁, hkernel, List.append_assoc]
    · intro p
      rw [List.mem_append, hnew₁, hnew₂]
      simp only [hsame₁.puts, (hsame₀ 0).puts, lt_nMappings, or_and_right, exists_or, exists_eq_left]

theorem exec_rabFree (plat : Platform) (stack : SliceReq) (s : RabState) (date : Nat) (fixed : Bool) :
    ∃ t, (driver plat).exec (rabFree plat stack date fixed) s = (.ok (), t) ∧
      s.Freed plat date fixed t := by
  have hn : plat.nSlicesPort1 < 2 ^ 32 := by cases plat <;> decide
  obtain ⟨t₀, hexec₀, h₀⟩ := exec_freePort0 plat stack s date fixed nSlicesPort0
  obtain ⟨t₁, hexec₁, h₁⟩ := exec_freeMapping plat stack t₀ date fixed 0 plat.nSlicesPort1 hn
  obtain ⟨t₂, hexec₂, h₂⟩ := exec_freeMapping plat stack t₁ date fixed 1 plat.nSlicesPort1 hn
  refine ⟨t₂, ?_, .of_loops h₀ h₁ h₂⟩
  change (driver plat).exec ((Prog.foldl (fun _ k => freePort0 stack date fixed k) ()
    (List.range nSlicesPort0)).bind fun _ =>
      (Prog.foldl (fun _ k => freePort1 stack date fixed 0 k) () (List.range plat.nSlicesPort1)).bind
        fun _ => (Prog.foldl (fun _ k => freePort1 stack date fixed 1 k) ()
          (List.range plat.nSlicesPort1)).bind Prog.ret) s = _
  rw [exec_bind, hexec₀]
  simp only
  rw [exec_bind, hexec₁]
  simp only
  rw [exec_bind, hexec₂]
  rfl

end RabState

end

end Hero.Rab
