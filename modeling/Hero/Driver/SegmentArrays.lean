import Hero.Driver.Segmentation

/-!
# The arrays of the segmentation

The elements that `pulp_mem_map_sg` and `pulp_mem_check_num_sg` touch, in the order of the source,
and the bytes requested for them.
-/

namespace Hero.Driver

inductive SgArray where
  | addrPhysVec
  | addrStartVec
  | addrEndVec
  | addrOffsetVec
  | pageStartIdxs
  | pageEndIdxs
  deriving DecidableEq, Repr

namespace SgArray

/-- The size of an element, by the type of the pointer. -/
def elemSize (m : DataModel) : SgArray → Nat
  | addrPhysVec => m.sizeofLong
  | addrStartVec => 4
  | addrEndVec => 4
  | addrOffsetVec => m.sizeofLong
  | pageStartIdxs => 4
  | pageEndIdxs => 4

/-- The argument of `kmalloc`: every array is requested with `n_pages * sizeof(unsigned)`. -/
def requested (m : DataModel) (nPages : Nat) (_ : SgArray) : Nat := m.ulong (nPages * 4)

/-- Element `index` of the array lies in the bytes requested for it. -/
def Holds (m : DataModel) (nPages : Nat) (a : SgArray) (index : Nat) : Prop :=
  (index + 1) * a.elemSize m ≤ a.requested m nPages

instance (m : DataModel) (nPages : Nat) (a : SgArray) (index : Nat) :
    Decidable (a.Holds m nPages index) :=
  inferInstanceAs (Decidable (_ ≤ _))

end SgArray

open SgArray

/-- The elements touched so far and the segments counted so far. -/
structure SgTrace where
  nSegments : Nat
  touched : List (SgArray × Nat)

namespace SgTrace

def touch (t : SgTrace) (l : List (SgArray × Nat)) : SgTrace :=
  { t with touched := t.touched ++ l }

@[simp] theorem touch_nSegments (t : SgTrace) (l : List (SgArray × Nat)) :
    (t.touch l).nSegments = t.nSegments := rfl

@[simp] theorem mem_touch {t : SgTrace} {l : List (SgArray × Nat)} {x : SgArray × Nat} :
    x ∈ (t.touch l).touched ↔ x ∈ t.touched ∨ x ∈ l := List.mem_append

end SgTrace

/-- The translation of the pages: `DEBUG_LEVEL_MEM` decides whether the addresses are printed. -/
def physLoopTouches (debugLevel nPages : Nat) : List (SgArray × Nat) :=
  (List.range nPages).flatMap fun i =>
    (addrPhysVec, i) :: if debugLevel > 1 then [(addrPhysVec, i)] else []

/-- The comparison of page `i` with its predecessor. -/
def compareTouches (i : Nat) : List (SgArray × Nat) := [(addrPhysVec, i), (addrPhysVec, i - 1)]

def breakTouches (debugLevel i : Nat) : List (SgArray × Nat) :=
  if debugLevel > 2 then [(addrPhysVec, i), (addrPhysVec, i - 1)] else []

def mapSgIterTrace (debugLevel : Nat) (m : DataModel) (pages : Nat → Nat) (nPages : Nat)
    (t : SgTrace) (i : Nat) : SgTrace :=
  let t := t.touch (compareTouches i)
  let t :=
    if m.Breaks pages i then
      let t := t.touch (breakTouches debugLevel i ++
        [(addrEndVec, t.nSegments - 1), (pageEndIdxs, t.nSegments - 1)])
      let t := { t with nSegments := t.nSegments + 1 }
      t.touch [(addrStartVec, t.nSegments - 1), (addrPhysVec, i), (addrOffsetVec, t.nSegments - 1),
        (pageStartIdxs, t.nSegments - 1)]
    else t
  if i = nPages - 1 then t.touch [(addrEndVec, t.nSegments - 1), (pageEndIdxs, t.nSegments - 1)]
  else t

/-- `pulp_mem_map_sg` from the initialization on. -/
def mapSgFillTrace (debugLevel : Nat) (m : DataModel) (pages : Nat → Nat) (nPages : Nat)
    (t : SgTrace) : SgTrace :=
  let t := { t.touch [(addrStartVec, 0), (addrEndVec, 0), (pageStartIdxs, 0), (pageEndIdxs, 0)]
    with nSegments := 1 }
  let t := (List.range' 1 (nPages - 1)).foldl (mapSgIterTrace debugLevel m pages nPages) t
  let t := t.touch [(addrOffsetVec, 0), (addrPhysVec, 0)]
  if debugLevel > 1 then
    t.touch ((List.range t.nSegments).flatMap fun i =>
      [(addrStartVec, i), (addrEndVec, i), (addrOffsetVec, i)])
  else t

/-- `pulp_mem_map_sg`; `kmalloc` says which allocations succeed, and the function gives up at the
first that does not. -/
def memMapSgTrace (debugLevel : Nat) (m : DataModel) (kmalloc : SgArray → Bool)
    (pages : Nat → Nat) (nPages : Nat) : SgTrace :=
  if kmalloc addrPhysVec then
    let t : SgTrace := ⟨0, physLoopTouches debugLevel nPages⟩
    if [addrStartVec, addrEndVec, addrOffsetVec, pageStartIdxs, pageEndIdxs].all kmalloc then
      mapSgFillTrace debugLevel m pages nPages t
    else t
  else ⟨0, []⟩

def checkNumSgIterTrace (debugLevel : Nat) (m : DataModel) (pages : Nat → Nat) (t : SgTrace)
    (i : Nat) : SgTrace :=
  let t := t.touch (compareTouches i)
  if m.Breaks pages i then
    let t := t.touch (breakTouches debugLevel i)
    { t with nSegments := t.nSegments + 1 }
  else t

/-- `pulp_mem_check_num_sg` -/
def memCheckNumSgTrace (debugLevel : Nat) (m : DataModel) (kmalloc : SgArray → Bool)
    (pages : Nat → Nat) (nPages : Nat) : SgTrace :=
  if kmalloc addrPhysVec then
    (List.range' 1 (nPages - 1)).foldl (checkNumSgIterTrace debugLevel m pages)
      ⟨1, physLoopTouches debugLevel nPages⟩
  else ⟨0, []⟩

/-- The elements have the width of those the requests are made for, and the requests do not wrap. -/
def SizesFit (m : DataModel) (nPages : Nat) : Prop := m.sizeofLong = 4 ∧ nPages * 4 < 2 ^ 32

section

variable {debugLevel nPages i : Nat} {m : DataModel} {pages : Nat → Nat} {t : SgTrace}

theorem SizesFit.holds (h : SizesFit m nPages) (a : SgArray) {index : Nat} (hi : index < nPages) :
    a.Holds m nPages index := by
  obtain ⟨hlong, hbound⟩ := h
  have hreq : a.requested m nPages = nPages * 4 := by
    rw [requested, DataModel.ulong, hlong]
    exact Nat.mod_eq_of_lt hbound
  have helem : a.elemSize m = 4 := by
    cases a with
    | addrPhysVec => exact hlong
    | addrOffsetVec => exact hlong
    | addrStartVec => rfl
    | addrEndVec => rfl
    | pageStartIdxs => rfl
    | pageEndIdxs => rfl
  rw [SgArray.Holds, hreq, helem]
  omega

/-- The last physical address fits its array only when all elements fit theirs. -/
theorem sizesFit_of_holds (hn : 1 ≤ nPages) (h : addrPhysVec.Holds m nPages (nPages - 1)) :
    SizesFit m nPages := by
  rw [SgArray.Holds, Nat.sub_add_cancel hn] at h
  have hle : m.ulong (nPages * 4) ≤ nPages * 4 := Nat.mod_le _ _
  have hlt := m.ulong_lt (nPages * 4)
  cases m with
  | ilp32 =>
    simp only [requested, elemSize, DataModel.sizeofLong] at h hlt
    exact ⟨rfl, by omega⟩
  | lp64 =>
    simp only [requested, elemSize, DataModel.sizeofLong] at h
    omega

/-- All elements touched so far are below the number of pages, and no more segments than pages have
been counted. -/
structure SgTrace.Below (nPages i : Nat) (t : SgTrace) : Prop where
  index : ∀ x ∈ t.touched, x.2 < nPages
  pos : 0 < t.nSegments
  count : t.nSegments ≤ i

theorem physLoopTouches_below (debugLevel nPages : Nat) :
    ∀ x ∈ physLoopTouches debugLevel nPages, x.2 < nPages := by
  intro x hx
  obtain ⟨i, hi, hx⟩ := List.mem_flatMap.mp hx
  have hlt := List.mem_range.mp hi
  rcases List.mem_cons.mp hx with rfl | hx
  · exact hlt
  · split_ifs at hx
    · rw [List.mem_singleton.mp hx]
      exact hlt
    · exact absurd hx List.not_mem_nil

theorem SgTrace.Below.touch (h : t.Below nPages i) {l : List (SgArray × Nat)}
    (hl : ∀ x ∈ l, x.2 < nPages) : (t.touch l).Below nPages i where
  index := by
    intro x hx
    rcases SgTrace.mem_touch.mp hx with hx | hx
    · exact h.index x hx
    · exact hl x hx
  pos := h.pos
  count := h.count

theorem compareTouches_below (hi : i < nPages) : ∀ x ∈ compareTouches i, x.2 < nPages := by
  intro x hx
  simp only [compareTouches, List.mem_cons, List.not_mem_nil, or_false] at hx
  rcases hx with rfl | rfl
  · exact hi
  · exact (Nat.sub_le i 1).trans_lt hi

theorem breakTouches_below (debugLevel : Nat) (hi : i < nPages) :
    ∀ x ∈ breakTouches debugLevel i, x.2 < nPages := by
  intro x hx
  rw [breakTouches] at hx
  split_ifs at hx
  · exact compareTouches_below hi x hx
  · exact absurd hx List.not_mem_nil

theorem SgTrace.Below.pred_lt (h : t.Below nPages i) (hi : i ≤ nPages) : t.nSegments - 1 < nPages := by
  have hpos := h.pos
  have hcount := h.count
  omega

theorem mapSgIterTrace_below (h : t.Below nPages i) (hi : i < nPages) :
    (mapSgIterTrace debugLevel m pages nPages t i).Below nPages (i + 1) := by
  have hcompare := h.touch (compareTouches_below hi)
  simp only [mapSgIterTrace]
  generalize t.touch (compareTouches i) = u at hcompare
  generalize hv : (if m.Breaks pages i then _ else u) = v
  have hbelow : v.Below nPages (i + 1) := by
    rw [← hv]
    by_cases hbreak : m.Breaks pages i
    · rw [if_pos hbreak]
      have hpred := hcompare.pred_lt hi.le
      have hclose := hcompare.touch (breakTouches_below debugLevel hi)
      have hcount := hcompare.count
      apply SgTrace.Below.touch
      · refine ⟨?_, Nat.succ_pos _, Nat.succ_le_succ hcount⟩
        intro x hx
        rcases SgTrace.mem_touch.mp hx with hx | hx
        · exact hcompare.index x hx
        · rcases List.mem_append.mp hx with hx | hx
          · exact breakTouches_below debugLevel hi x hx
          · simp only [List.mem_cons, List.not_mem_nil, or_false] at hx
            rcases hx with rfl | rfl
            · exact hpred
            · exact hpred
      · simp only [SgTrace.touch_nSegments, List.forall_mem_cons, Nat.add_sub_cancel]
        have hnew : u.nSegments < nPages := by omega
        exact ⟨hnew, hi, hnew, hnew, fun x hx => absurd hx List.not_mem_nil⟩
    · rw [if_neg hbreak]
      exact ⟨hcompare.index, hcompare.pos, hcompare.count.trans (Nat.le_succ i)⟩
  by_cases hlast : i = nPages - 1
  · rw [if_pos hlast]
    have hpred := hbelow.pred_lt hi
    apply hbelow.touch
    simp only [List.forall_mem_cons]
    exact ⟨hpred, hpred, fun x hx => absurd hx List.not_mem_nil⟩
  · rw [if_neg hlast]
    exact hbelow

theorem checkNumSgIterTrace_below (h : t.Below nPages i) (hi : i < nPages) :
    (checkNumSgIterTrace debugLevel m pages t i).Below nPages (i + 1) := by
  have hcompare := h.touch (compareTouches_below hi)
  simp only [checkNumSgIterTrace]
  by_cases hbreak : m.Breaks pages i
  · rw [if_pos hbreak]
    have htouch := hcompare.touch (breakTouches_below debugLevel hi)
    exact ⟨htouch.index, Nat.succ_pos _, Nat.succ_le_succ htouch.count⟩
  · rw [if_neg hbreak]
    exact ⟨hcompare.index, hcompare.pos, hcompare.count.trans (Nat.le_succ i)⟩

/-- A loop over the pages that keeps below them at each page keeps below them throughout. -/
theorem SgTrace.Below.foldl {f : SgTrace → Nat → SgTrace}
    (hstep : ∀ (t : SgTrace) (i : Nat), t.Below nPages i → i < nPages → (f t i).Below nPages (i + 1))
    (hn : 1 ≤ nPages) (h : t.Below nPages 1) :
    ((List.range' 1 (nPages - 1)).foldl f t).Below nPages nPages := by
  have hloop : ∀ k, k ≤ nPages - 1 → ((List.range' 1 k).foldl f t).Below nPages (1 + k) := by
    intro k
    induction k with
    | zero =>
      intro _
      exact h
    | succ k ih =>
      intro hk
      have hlt : 1 + k < nPages := by omega
      rw [List.range'_concat, List.foldl_append, Nat.one_mul]
      exact hstep _ _ (ih (by omega)) hlt
  have hall := hloop (nPages - 1) le_rfl
  rwa [Nat.add_sub_cancel' hn] at hall

section

variable (debugLevel m pages)

theorem mapSgFillTrace_below (hn : 1 ≤ nPages) (ht : ∀ x ∈ t.touched, x.2 < nPages) :
    (mapSgFillTrace debugLevel m pages nPages t).Below nPages nPages := by
  have hinit : SgTrace.Below nPages 1
      { t.touch [(addrStartVec, 0), (addrEndVec, 0), (pageStartIdxs, 0), (pageEndIdxs, 0)]
        with nSegments := 1 } := by
    refine ⟨?_, Nat.one_pos, le_rfl⟩
    intro x hx
    rcases SgTrace.mem_touch.mp hx with hx | hx
    · exact ht x hx
    · simp only [List.mem_cons, List.not_mem_nil, or_false] at hx
      rcases hx with rfl | rfl | rfl | rfl <;> exact hn
  have hstep : ∀ (t : SgTrace) (i : Nat), t.Below nPages i → i < nPages →
      (mapSgIterTrace debugLevel m pages nPages t i).Below nPages (i + 1) :=
    fun _ _ h hi => mapSgIterTrace_below h hi
  have hloop := hinit.foldl hstep hn
  have hfirst : ∀ x ∈ [(addrOffsetVec, 0), (addrPhysVec, 0)], x.2 < nPages := by
    simp only [List.forall_mem_cons]
    exact ⟨hn, hn, fun x hx => absurd hx List.not_mem_nil⟩
  have hoffset := hloop.touch hfirst
  simp only [mapSgFillTrace]
  split_ifs
  · apply hoffset.touch
    intro x hx
    obtain ⟨i, hi, hx⟩ := List.mem_flatMap.mp hx
    have hlt := (List.mem_range.mp hi).trans_le hoffset.count
    simp only [List.mem_cons, List.not_mem_nil, or_false] at hx
    rcases hx with rfl | rfl | rfl <;> exact hlt
  · exact hoffset

/-- Every element `pulp_mem_map_sg` touches belongs to a page. -/
theorem memMapSgTrace_lt (kmalloc : SgArray → Bool) (hn : 1 ≤ nPages) :
    ∀ x ∈ (memMapSgTrace debugLevel m kmalloc pages nPages).touched, x.2 < nPages := by
  have hphys := physLoopTouches_below debugLevel nPages
  simp only [memMapSgTrace]
  split_ifs
  · exact (mapSgFillTrace_below debugLevel m pages hn hphys).index
  · exact hphys
  · exact fun x hx => absurd hx List.not_mem_nil

theorem memCheckNumSgTrace_lt (kmalloc : SgArray → Bool) (hn : 1 ≤ nPages) :
    ∀ x ∈ (memCheckNumSgTrace debugLevel m kmalloc pages nPages).touched, x.2 < nPages := by
  have hinit : SgTrace.Below nPages 1 ⟨1, physLoopTouches debugLevel nPages⟩ :=
    ⟨physLoopTouches_below debugLevel nPages, Nat.one_pos, le_rfl⟩
  rw [memCheckNumSgTrace]
  split_ifs
  · exact (hinit.foldl (fun _ _ h hi => checkNumSgIterTrace_below h hi) hn).index
  · exact fun x hx => absurd hx List.not_mem_nil

end

/-- The elements touched before the loop stay in the trace. -/
theorem mem_touched_foldl {f : SgTrace → Nat → SgTrace} {x : SgArray × Nat}
    (hstep : ∀ t i, x ∈ t.touched → x ∈ (f t i).touched) (l : List Nat) (h : x ∈ t.touched) :
    x ∈ (l.foldl f t).touched := by
  induction l generalizing t with
  | nil => exact h
  | cons i l ih => exact ih (hstep t i h)

theorem mem_mapSgIterTrace {x : SgArray × Nat} (h : x ∈ t.touched) :
    x ∈ (mapSgIterTrace debugLevel m pages nPages t i).touched := by
  simp only [mapSgIterTrace]
  split_ifs <;> simp only [SgTrace.mem_touch, h, true_or]

theorem mem_checkNumSgIterTrace {x : SgArray × Nat} (h : x ∈ t.touched) :
    x ∈ (checkNumSgIterTrace debugLevel m pages t i).touched := by
  simp only [checkNumSgIterTrace]
  split_ifs <;> simp only [SgTrace.mem_touch, h, true_or]

/-- `pulp_mem_map_sg` counts the segments it builds. -/
theorem mapSgIterTrace_nSegments (addrStart addrEnd : Nat) {s : Segments} (h : t.nSegments = s.n) :
    (mapSgIterTrace debugLevel m pages nPages t i).nSegments =
      (mapSgIter m pages nPages addrStart addrEnd s i).n := by
  simp only [mapSgIterTrace, mapSgIter]
  by_cases hbreak : m.Breaks pages i
  · simp only [if_pos hbreak]
    split_ifs
    · exact congrArg (· + 1) h
    · exact congrArg (· + 1) h
  · simp only [if_neg hbreak]
    split_ifs
    · exact h
    · exact h

theorem checkNumSgIterTrace_nSegments :
    (checkNumSgIterTrace debugLevel m pages t i).nSegments =
      if m.Breaks pages i then t.nSegments + 1 else t.nSegments := by
  simp only [checkNumSgIterTrace]
  split_ifs <;> rfl

section

variable (debugLevel m pages nPages)

theorem memMapSgTrace_nSegments (addrStart addrEnd : Nat) :
    (memMapSgTrace debugLevel m (fun _ => true) pages nPages).nSegments =
      (memMapSgLong m pages nPages addrStart addrEnd).n := by
  have hloop : ∀ (l : List Nat) (t : SgTrace) (s : Segments), t.nSegments = s.n →
      (l.foldl (mapSgIterTrace debugLevel m pages nPages) t).nSegments =
        (l.foldl (mapSgIter m pages nPages addrStart addrEnd) s).n := by
    intro l
    induction l with
    | nil => exact fun t s h => h
    | cons i l ih => exact fun t s h => ih _ _ (mapSgIterTrace_nSegments addrStart addrEnd h)
  simp only [memMapSgTrace, mapSgFillTrace, List.all_cons, List.all_nil, Bool.and_self, if_true]
  split_ifs
  · exact hloop _ _ (mapSgInit addrStart addrEnd) rfl
  · exact hloop _ _ (mapSgInit addrStart addrEnd) rfl

theorem memCheckNumSgTrace_nSegments :
    (memCheckNumSgTrace debugLevel m (fun _ => true) pages nPages).nSegments =
      memCheckNumSg m pages nPages := by
  have hloop : ∀ (l : List Nat) (t : SgTrace),
      (l.foldl (checkNumSgIterTrace debugLevel m pages) t).nSegments =
        l.foldl (fun n i => if m.Breaks pages i then n + 1 else n) t.nSegments := by
    intro l
    induction l with
    | nil => exact fun t => rfl
    | cons i l ih =>
      intro t
      rw [List.foldl_cons, List.foldl_cons, ih, checkNumSgIterTrace_nSegments]
  exact hloop _ _

variable (kmalloc : SgArray → Bool)

/-- Once its array is there, the last physical address is written. -/
theorem last_mem_physLoopTouches (hn : 1 ≤ nPages) :
    (addrPhysVec, nPages - 1) ∈ physLoopTouches debugLevel nPages := by
  apply List.mem_flatMap.mpr
  exact ⟨nPages - 1, List.mem_range.mpr (by omega), List.mem_cons_self⟩

theorem last_mem_memMapSgTrace (hn : 1 ≤ nPages) (hk : kmalloc addrPhysVec = true) :
    (addrPhysVec, nPages - 1) ∈ (memMapSgTrace debugLevel m kmalloc pages nPages).touched := by
  have hlast := last_mem_physLoopTouches debugLevel nPages hn
  simp only [memMapSgTrace, if_pos hk]
  split_ifs
  · have hloop : ∀ (l : List Nat) (t : SgTrace), (addrPhysVec, nPages - 1) ∈ t.touched →
        (addrPhysVec, nPages - 1) ∈
          (l.foldl (mapSgIterTrace debugLevel m pages nPages) t).touched :=
      fun l t => mem_touched_foldl (fun t i => mem_mapSgIterTrace) l
    simp only [mapSgFillTrace]
    split_ifs
    · apply SgTrace.mem_touch.mpr
      exact Or.inl (SgTrace.mem_touch.mpr (Or.inl (hloop _ _ (SgTrace.mem_touch.mpr (Or.inl hlast)))))
    · apply SgTrace.mem_touch.mpr
      exact Or.inl (hloop _ _ (SgTrace.mem_touch.mpr (Or.inl hlast)))
  · exact hlast

theorem last_mem_memCheckNumSgTrace (hn : 1 ≤ nPages) (hk : kmalloc addrPhysVec = true) :
    (addrPhysVec, nPages - 1) ∈ (memCheckNumSgTrace debugLevel m kmalloc pages nPages).touched := by
  rw [memCheckNumSgTrace, if_pos hk]
  apply mem_touched_foldl
  · exact fun t i h => mem_checkNumSgIterTrace h
  · exact last_mem_physLoopTouches debugLevel nPages hn

end

end

/-- Every element the function touches lies in the bytes requested for its array. -/
def SgTrace.InBounds (m : DataModel) (nPages : Nat) (t : SgTrace) : Prop :=
  ∀ x ∈ t.touched, x.1.Holds m nPages x.2

instance (m : DataModel) (nPages : Nat) (t : SgTrace) : Decidable (t.InBounds m nPages) :=
  inferInstanceAs (Decidable (∀ x ∈ t.touched, x.1.Holds m nPages x.2))

/-- A function that, unless refused its first array, touches the last physical address and nothing
beyond the pages. -/
theorem SgTrace.inBounds_iff {m : DataModel} {nPages : Nat} {t : SgTrace} {got : Bool}
    (hn : 1 ≤ nPages) (hlt : ∀ x ∈ t.touched, x.2 < nPages) (hnone : got = false → t.touched = [])
    (hlast : got = true → (addrPhysVec, nPages - 1) ∈ t.touched) :
    t.InBounds m nPages ↔ got = false ∨ SizesFit m nPages := by
  constructor
  · intro h
    cases got with
    | false => exact Or.inl rfl
    | true => exact Or.inr (sizesFit_of_holds hn (h _ (hlast rfl)))
  · intro h x hx
    rcases h with hgot | hfit
    · rw [hnone hgot] at hx
      exact absurd hx List.not_mem_nil
    · exact hfit.holds x.1 (hlt x hx)

/-- Both functions stay within their arrays exactly when `unsigned long` is as wide as `unsigned` and
the requests do not wrap, unless they are refused the first array. -/
theorem segmentation_inBounds_iff (debugLevel : Nat) (m : DataModel) (pages : Nat → Nat)
    {nPages : Nat} (hn : 1 ≤ nPages) (kmallocMap kmallocCheck : SgArray → Bool) :
    ((memMapSgTrace debugLevel m kmallocMap pages nPages).InBounds m nPages ↔
        kmallocMap addrPhysVec = false ∨ SizesFit m nPages) ∧
      ((memCheckNumSgTrace debugLevel m kmallocCheck pages nPages).InBounds m nPages ↔
        kmallocCheck addrPhysVec = false ∨ SizesFit m nPages) := by
  constructor
  · apply SgTrace.inBounds_iff hn (memMapSgTrace_lt debugLevel m pages kmallocMap hn)
    · intro hgot
      rw [memMapSgTrace, if_neg (by rw [hgot]; exact Bool.false_ne_true)]
    · exact last_mem_memMapSgTrace debugLevel nPages m pages kmallocMap hn
  · apply SgTrace.inBounds_iff hn (memCheckNumSgTrace_lt debugLevel m pages kmallocCheck hn)
    · intro hgot
      rw [memCheckNumSgTrace, if_neg (by rw [hgot]; exact Bool.false_ne_true)]
    · exact last_mem_memCheckNumSgTrace debugLevel nPages m pages kmallocCheck hn

/-- Two pages on a machine with 4-byte `unsigned long`. -/
theorem segmentation_inBounds_iff_two :
    ((memMapSgTrace 0 .ilp32 (fun _ => true) id 2).InBounds .ilp32 2 ↔
        (fun _ : SgArray => true) addrPhysVec = false ∨ SizesFit .ilp32 2) ∧
      ((memCheckNumSgTrace 0 .ilp32 (fun _ => true) id 2).InBounds .ilp32 2 ↔
        (fun _ : SgArray => true) addrPhysVec = false ∨ SizesFit .ilp32 2) :=
  segmentation_inBounds_iff 0 .ilp32 id (by decide) (fun _ => true) (fun _ => true)

/-- With 8-byte `unsigned long`, one page is enough to write past the end of its array. -/
theorem segmentation_not_inBounds :
    ¬ (memMapSgTrace 0 .lp64 (fun _ => true) id 1).InBounds .lp64 1 ∧
      ¬ (memCheckNumSgTrace 0 .lp64 (fun _ => true) id 1).InBounds .lp64 1 := by
  decide

end Hero.Driver
