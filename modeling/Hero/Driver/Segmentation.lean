import Hero.Driver.Mem

/-!
# Segmentation in machine words

`pulp_mem_map_sg` and `pulp_mem_check_num_sg` with `unsigned long` addresses of either width. The
addresses may pass the top of the address space between two pages; unwrapped, they are those of
`memMapSg`.
-/

namespace Hero.Driver

/-- The two data models the driver is built for. -/
inductive DataModel where
  | ilp32
  | lp64
  deriving DecidableEq, Repr

namespace DataModel

def sizeofLong : DataModel → Nat
  | ilp32 => 4
  | lp64 => 8

/-- Conversion to `unsigned long`, and to `size_t`. -/
def ulong (m : DataModel) (x : Nat) : Nat := x % 2 ^ (8 * m.sizeofLong)

/-- The physical addresses of the pages. -/
def addrPhys (m : DataModel) (pages : Nat → Nat) (i : Nat) : Nat := m.ulong (pageToPhys (pages i))

/-- The test of the loops: page `i` does not follow its predecessor in physical memory. -/
def Breaks (m : DataModel) (pages : Nat → Nat) (i : Nat) : Prop :=
  m.addrPhys pages i ≠ m.ulong (m.addrPhys pages (i - 1) + pageSize)

instance (m : DataModel) (pages : Nat → Nat) (i : Nat) : Decidable (m.Breaks pages i) :=
  inferInstanceAs (Decidable (_ ≠ _))

end DataModel

def mapSgIter (m : DataModel) (pages : Nat → Nat) (nPages addrStart addrEnd : Nat) (s : Segments)
    (i : Nat) : Segments :=
  let bound := u32 (pageBase addrStart + pageSize * i)
  let s := if m.Breaks pages i then (s.finish bound (i - 1)).add bound (m.addrPhys pages i) i else s
  if i = nPages - 1 then s.finish addrEnd i else s

def memMapSgLong (m : DataModel) (pages : Nat → Nat) (nPages addrStart addrEnd : Nat) : Segments :=
  let s := (List.range' 1 (nPages - 1)).foldl (mapSgIter m pages nPages addrStart addrEnd)
    (mapSgInit addrStart addrEnd)
  s.setOffset (m.ulong (m.addrPhys pages 0 + pageOffset addrStart))

def memCheckNumSg (m : DataModel) (pages : Nat → Nat) (nPages : Nat) : Nat :=
  (List.range' 1 (nPages - 1)).foldl
    (fun nSegments i => if m.Breaks pages i then nSegments + 1 else nSegments) 1

namespace DataModel

variable (m : DataModel) (pages : Nat → Nat)

/-- Both widths hold a whole number of pages. -/
theorem exists_frames : ∃ c, 0 < c ∧ 2 ^ (8 * m.sizeofLong) = c * pageSize := by
  cases m with
  | ilp32 => exact ⟨2 ^ 20, by decide, by decide⟩
  | lp64 => exact ⟨2 ^ 52, by decide, by decide⟩

theorem ulong_lt (x : Nat) : m.ulong x < 2 ^ (8 * m.sizeofLong) :=
  Nat.mod_lt x (Nat.two_pow_pos _)

@[simp] theorem ulong_ulong (x : Nat) : m.ulong (m.ulong x) = m.ulong x := Nat.mod_mod ..

@[simp] theorem ulong_ulong_add (x y : Nat) : m.ulong (m.ulong x + y) = m.ulong (x + y) :=
  Nat.mod_add_mod ..

/-- An offset in a page does not carry out of the address of the page. -/
theorem ulong_page_add (pfn : Nat) {off : Nat} (hoff : off < pageSize) :
    m.ulong (pageToPhys pfn + off) = m.ulong (pageToPhys pfn) + off := by
  obtain ⟨c, hc, hframes⟩ := m.exists_frames
  simp only [ulong, pageToPhys, hframes, Nat.mul_mod_mul_right]
  have hmod := Nat.mod_lt pfn hc
  have hle := Nat.mul_le_mul_right pageSize (show pfn % c + 1 ≤ c from hmod)
  rw [Nat.add_mul] at hle
  rw [Nat.add_mod, Nat.mul_mod_mul_right, Nat.mod_eq_of_lt (show off < c * pageSize by omega),
    Nat.mod_eq_of_lt (by omega)]

/-- Page numbers that run on over the top of the address space wherever the addresses do. -/
def unwrapped : Nat → Nat
  | 0 => pages 0
  | i + 1 => if m.Breaks pages (i + 1) then pages (i + 1) else unwrapped i + 1

theorem ulong_unwrapped (i : Nat) : m.addrPhys (m.unwrapped pages) i = m.addrPhys pages i := by
  induction i with
  | zero => rfl
  | succ i ih =>
    by_cases hbreak : m.Breaks pages (i + 1)
    · simp only [addrPhys, unwrapped, if_pos hbreak]
    · have hnext : m.addrPhys pages (i + 1) = m.ulong (m.addrPhys pages i + pageSize) :=
        not_not.mp hbreak
      rw [hnext, ← ih]
      simp only [addrPhys, unwrapped, if_neg hbreak, ulong_ulong_add, pageToPhys, Nat.succ_mul]

/-- Unwrapped, pages follow each other exactly where the loops find that they do. -/
theorem breaks_iff {i : Nat} (hi : 1 ≤ i) :
    m.Breaks pages i ↔
      pageToPhys (m.unwrapped pages i) ≠ pageToPhys (m.unwrapped pages (i - 1)) + pageSize := by
  obtain ⟨j, rfl⟩ := Nat.exists_eq_add_of_le' hi
  rw [Nat.add_sub_cancel]
  constructor
  · intro hbreak heq
    have hword := congrArg m.ulong heq
    rw [show m.ulong (pageToPhys (m.unwrapped pages (j + 1))) = _ from m.ulong_unwrapped pages (j + 1),
      ← m.ulong_ulong_add,
      show m.ulong (pageToPhys (m.unwrapped pages j)) = _ from m.ulong_unwrapped pages j] at hword
    exact hbreak hword
  · intro hne hnext
    apply hne
    have hnot : ¬ m.Breaks pages (j + 1) := not_not.mpr hnext
    rw [unwrapped, if_neg hnot, pageToPhys, pageToPhys, Nat.succ_mul]

end DataModel

namespace Segments

/-- Segments whose ends and offsets are converted to machine words. -/
def mapWords (f g : Nat → Nat) (s : Segments) : Segments where
  n := s.n
  vec := fun k =>
    { s.vec k with addrEnd := f (s.vec k).addrEnd, addrOffset := g (s.vec k).addrOffset }

variable (f g : Nat → Nat) (s : Segments)

theorem mapWords_finish {x y : Nat} (hxy : f x = y) (pageIdxEnd : Nat) :
    (s.mapWords f g).finish y pageIdxEnd = (s.finish x pageIdxEnd).mapWords f g := by
  simp only [finish, mapWords, mk.injEq, true_and]
  funext k
  by_cases hk : k = s.n - 1
  · simp only [hk, Function.update_self, hxy]
  · simp only [Function.update_of_ne hk]

theorem mapWords_add {x y : Nat} (hxy : g x = y) (addrStart pageIdxStart : Nat) :
    (s.mapWords f g).add addrStart y pageIdxStart = (s.add addrStart x pageIdxStart).mapWords f g := by
  simp only [add, mapWords, mk.injEq, true_and]
  funext k
  by_cases hk : k = s.n
  · simp only [hk, Function.update_self, hxy]
  · simp only [Function.update_of_ne hk]

theorem mapWords_setOffset {x y : Nat} (hxy : g x = y) :
    (s.mapWords f g).setOffset y = (s.setOffset x).mapWords f g := by
  simp only [setOffset, mapWords, mk.injEq, true_and]
  funext k
  by_cases hk : k = 0
  · simp only [hk, Function.update_self, hxy]
  · simp only [Function.update_of_ne hk]

end Segments

section

variable (m : DataModel) (pages : Nat → Nat) (nPages addrStart addrEnd : Nat)

/-- The loops make the same segments of the pages and of the unwrapped pages, up to the conversion
of the offsets and one of the ends that keeps `unsigned` values. -/
theorem mapSgIter_mapWords {f : Nat → Nat} (hf : ∀ x, f (u32 x) = u32 x) (s : Segments) {i : Nat}
    (hi : 1 ≤ i) :
    mapSgIter m pages nPages addrStart (f addrEnd) (s.mapWords f m.ulong) i =
      (mapSgStep (fun i => pageToPhys (m.unwrapped pages i)) nPages addrStart addrEnd s i).mapWords f
        m.ulong := by
  have hbreak := m.breaks_iff pages hi
  have hbound := hf (pageBase addrStart + pageSize * i)
  simp only [mapSgIter, mapSgStep]
  generalize u32 (pageBase addrStart + pageSize * i) = bound at hbound
  have hsplit : (if m.Breaks pages i then
        ((s.mapWords f m.ulong).finish bound (i - 1)).add bound (m.addrPhys pages i) i
      else s.mapWords f m.ulong) =
      (if pageToPhys (m.unwrapped pages i) ≠ pageToPhys (m.unwrapped pages (i - 1)) + pageSize then
        (s.finish bound (i - 1)).add bound (pageToPhys (m.unwrapped pages i)) i
      else s).mapWords f m.ulong := by
    by_cases h : m.Breaks pages i
    · rw [if_pos h, if_pos (hbreak.mp h), Segments.mapWords_finish f _ s hbound]
      exact Segments.mapWords_add f m.ulong _ (m.ulong_unwrapped pages i) _ _
    · rw [if_neg h, if_neg (fun hne => h (hbreak.mpr hne))]
  rw [hsplit]
  by_cases hlast : i = nPages - 1
  · rw [if_pos hlast, if_pos hlast, Segments.mapWords_finish f _ _ rfl]
  · rw [if_neg hlast, if_neg hlast]

/-- The segments of `pulp_mem_map_sg` are those of the unwrapped pages, as machine words. -/
theorem memMapSgLong_eq {f : Nat → Nat} (hf : ∀ x, f (u32 x) = u32 x) :
    memMapSgLong m pages nPages addrStart (f addrEnd) =
      (memMapSg (m.unwrapped pages) nPages addrStart addrEnd).mapWords f m.ulong := by
  have hloop : ∀ (l : List Nat) (s : Segments), (∀ i ∈ l, 1 ≤ i) →
      l.foldl (mapSgIter m pages nPages addrStart (f addrEnd)) (s.mapWords f m.ulong) =
        (l.foldl (mapSgStep (fun i => pageToPhys (m.unwrapped pages i)) nPages addrStart addrEnd)
          s).mapWords f m.ulong := by
    intro l
    induction l with
    | nil =>
      intro s _
      rfl
    | cons i l ih =>
      intro s hl
      have hi := hl i List.mem_cons_self
      rw [List.foldl_cons, List.foldl_cons, mapSgIter_mapWords m pages nPages addrStart addrEnd hf s hi]
      exact ih _ (fun j hj => hl j (List.mem_cons_of_mem i hj))
  have hinit : mapSgInit addrStart (f addrEnd) = (mapSgInit addrStart addrEnd).mapWords f m.ulong := by
    simp only [mapSgInit, Segments.mapWords, DataModel.ulong, Nat.zero_mod]
  have hrange : ∀ i ∈ List.range' 1 (nPages - 1), 1 ≤ i := by
    intro i hi
    exact (List.mem_range'_1.mp hi).1
  simp only [memMapSgLong, memMapSg]
  rw [hinit, hloop _ _ hrange]
  apply Segments.mapWords_setOffset
  exact (m.ulong_ulong_add (pageToPhys (pages 0)) (pageOffset addrStart)).symm

/-- Both loops count the breaks. -/
theorem memCheckNumSg_eq :
    memCheckNumSg m pages nPages = (memMapSgLong m pages nPages addrStart addrEnd).n := by
  have hloop : ∀ (l : List Nat) (s : Segments),
      l.foldl (fun nSegments i => if m.Breaks pages i then nSegments + 1 else nSegments) s.n =
        (l.foldl (mapSgIter m pages nPages addrStart addrEnd) s).n := by
    intro l
    induction l with
    | nil =>
      intro s
      rfl
    | cons i l ih =>
      intro s
      have hn : (mapSgIter m pages nPages addrStart addrEnd s i).n =
          if m.Breaks pages i then s.n + 1 else s.n := by
        simp only [mapSgIter]
        split_ifs
        · rfl
        · rfl
        · rfl
        · rfl
      rw [List.foldl_cons, List.foldl_cons, ← hn]
      exact ih _
  exact hloop _ (mapSgInit addrStart addrEnd)

end

namespace Segmented

variable {phys : Nat → Nat} {nPages addrStart addrEnd : Nat} {s : Segments}

theorem start_lt_end (h : Segmented phys nPages addrStart addrEnd s)
    (hpages : ∀ i, i < nPages ↔ pageBase addrStart + pageSize * i < addrEnd)
    (hlt : addrStart < addrEnd) {k : Nat} (hk : k < s.n) :
    (s.vec k).addrStart < (s.vec k).addrEnd := by
  by_cases hnext : k + 1 < s.n
  · rw [h.end_link k hnext]
    exact h.start_lt (Nat.lt_succ_self k) hnext
  · have hlast := h.tiling.last
    rw [show s.n - 1 = k by omega] at hlast
    rw [hlast]
    rcases h.start_eq hk with ⟨_, hstart, _⟩ | ⟨_, hstart, hpos, _⟩
    · omega
    · have hmono := h.page_mono (show k ≤ s.n - 1 by omega) (by omega)
      have hpage := h.page_last
      rw [hstart, ← hpages]
      omega

end Segmented

/-- The segments lay the range and its pages end to end, translate every address to the page it lies
in, and cannot be merged. -/
structure Segmentation (m : DataModel) (pages : Nat → Nat) (nPages addrStart addrEnd : Nat)
    (s : Segments) : Prop where
  range : Tiling s.n addrStart addrEnd (fun k => (s.vec k).addrStart) (fun k => (s.vec k).addrEnd)
  range_pos : ∀ k, k < s.n → (s.vec k).addrStart < (s.vec k).addrEnd
  page : Tiling s.n 0 nPages (fun k => (s.vec k).pageIdxStart) (fun k => (s.vec k).pageIdxEnd + 1)
  page_pos : ∀ k, k < s.n → (s.vec k).pageIdxStart ≤ (s.vec k).pageIdxEnd
  translates : ∀ k va, k < s.n → (s.vec k).addrStart ≤ va → va < (s.vec k).addrEnd →
    m.ulong ((s.vec k).addrOffset + (va - (s.vec k).addrStart)) =
      m.addrPhys pages (va / pageSize - addrStart / pageSize) + pageOffset va
  breaks : ∀ k, k + 1 < s.n →
    m.addrPhys pages (s.vec (k + 1)).pageIdxStart ≠
      m.ulong (m.addrPhys pages (s.vec k).pageIdxEnd + pageSize)

/-- Segments of the unwrapped pages are segments of the pages. -/
theorem Segmented.mapWords {m : DataModel} {pages : Nat → Nat} {nPages addrStart addrEnd : Nat}
    {s : Segments} (hlt : addrStart < addrEnd)
    (hpages : ∀ i, i < nPages ↔ pageBase addrStart + pageSize * i < addrEnd)
    (h : Segmented (fun i => pageToPhys (m.unwrapped pages i)) nPages addrStart addrEnd s) :
    Segmentation m pages nPages addrStart addrEnd
      (s.mapWords id m.ulong) where
  range := h.tiling
  range_pos := by
    intro k hk
    exact h.start_lt_end hpages hlt hk
  page := by
    have hbase := pageBase_le addrStart
    apply h.pages_tiling
    apply (hpages 0).mpr
    omega
  page_pos := by
    intro k hk
    exact h.page_le hk
  translates := by
    intro k va hk hlo hhi
    have hexact := h.translates hpages hk hlo hhi
    have hpage := m.ulong_page_add (m.unwrapped pages (va / pageSize - addrStart / pageSize))
      (pageOffset_lt va)
    calc m.ulong (m.ulong (s.vec k).addrOffset + (va - (s.vec k).addrStart))
        = m.ulong ((s.vec k).addrOffset + (va - (s.vec k).addrStart)) := m.ulong_ulong_add _ _
      _ = m.addrPhys (m.unwrapped pages) (va / pageSize - addrStart / pageSize) + pageOffset va := by
          rw [hexact, hpage, DataModel.addrPhys]
      _ = m.addrPhys pages (va / pageSize - addrStart / pageSize) + pageOffset va := by
          rw [m.ulong_unwrapped]
  breaks := by
    intro k hk
    have hpage := h.page_lt k hk
    have hprev : (s.vec (k + 1)).pageIdxStart - 1 = (s.vec k).pageIdxEnd := by
      rw [← h.page_link k hk, Nat.add_sub_cancel]
    have hbreak := (m.breaks_iff pages (by omega)).mpr (h.broken k hk)
    rw [DataModel.Breaks, hprev] at hbreak
    exact hbreak

/-- What `pulp_mem_map_sg` and `pulp_mem_check_num_sg` compute for the pages of a range. -/
theorem memMapSgLong_segmentation (m : DataModel) (pages : Nat → Nat) {addrStart addrEnd : Nat}
    (hlt : addrStart < addrEnd) (hend : addrEnd < 2 ^ 32) :
    let nPages := memGetNumPages addrStart (addrEnd - addrStart)
    Segmentation m pages nPages addrStart addrEnd (memMapSgLong m pages nPages addrStart addrEnd) ∧
      memCheckNumSg m pages nPages = (memMapSgLong m pages nPages addrStart addrEnd).n := by
  intro nPages
  have hpages := lt_memGetNumPages_iff hlt.le hend
  refine ⟨?_, memCheckNumSg_eq m pages nPages addrStart addrEnd⟩
  have hwords := memMapSgLong_eq m pages nPages addrStart addrEnd (f := id) (fun _ => rfl)
  rw [id] at hwords
  rw [hwords]
  exact (memMapSg_spec hlt.le hend.le hpages).mapWords hlt hpages

/-- A range of three pages, the last of them elsewhere. -/
theorem memMapSgLong_segmentation_three :
    Segmentation .lp64 (fun i => if i < 2 then 7 + i else 3) 3 4000 8300
        (memMapSgLong .lp64 (fun i => if i < 2 then 7 + i else 3) 3 4000 8300) ∧
      memCheckNumSg .lp64 (fun i => if i < 2 then 7 + i else 3) 3 =
        (memMapSgLong .lp64 (fun i => if i < 2 then 7 + i else 3) 3 4000 8300).n := by
  have hspec := @memMapSgLong_segmentation .lp64 (fun i => if i < 2 then 7 + i else 3) 4000 8300
    (by omega) (by omega)
  have hn : memGetNumPages 4000 (8300 - 4000) = 3 := by decide
  simp only [hn] at hspec
  exact hspec

end Hero.Driver
