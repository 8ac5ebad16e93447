import Hero.Driver.Mem

/-!
# Striping tables

The table `pulp_rab_req_striped` computes for each element, and when it translates every stripe
exactly.
-/

namespace Hero.Rab

open Driver

/-- `ElemType`: direction of the transfers of an element. -/
inductive ElemType where
  | inout
  | input
  | output
  deriving DecidableEq, Repr

/-- `RabStripeElemUser` together with the two address arrays it points to. -/
structure StripeElemUser where
  id : Nat
  type : ElemType
  flags : Nat
  maxStripeSizeB : Nat
  nStripes : Nat
  stripeAddrStart : Nat → Nat
  stripeAddrEnd : Nat → Nat

/-- `RabStripeSlice` -/
structure StripeSlice where
  addrStart : Nat
  addrEnd : Nat
  addrOffset : Nat
  deriving DecidableEq, Repr

/-- `RabStripe` -/
structure Stripe where
  sliceConfigs : List StripeSlice
  deriving DecidableEq, Repr

def Stripe.nSlices (st : Stripe) : Nat := st.sliceConfigs.length

/-- The slices reserved for each stripe of an element. -/
def nSlicesPerStripe (maxStripeSizeB : Nat) : Nat :=
  let n := maxStripeSizeB / pageSize
  let n := if n * pageSize < maxStripeSizeB then n + 1 else n
  n + 1

theorem le_nSlicesPerStripe {n size : Nat} (h : n ≤ 1 ∨ pageSize * (n - 2) < size) :
    n ≤ nSlicesPerStripe size := by
  simp only [nSlicesPerStripe]
  by_cases hrem : size / pageSize * pageSize < size
  · rw [if_pos hrem]
    simp only [pageSize] at *
    omega
  · rw [if_neg hrem]
    simp only [pageSize] at *
    omega

/-- The loop that advances `seg_idx_start`; `none` if it reads outside the segments or runs out of
fuel. -/
def seekStart (seg : Segments) (addr : Nat) : Nat → Nat → Option Nat
  | 0, _ => none
  | fuel + 1, idx =>
    if idx + 1 < seg.n then do
      let next ← seg.get? (idx + 1)
      if addr ≥ next.addrStart then seekStart seg addr fuel (idx + 1) else return idx
    else return idx

/-- The loop that advances `seg_idx_end`. -/
def seekEnd (seg : Segments) (addr : Nat) : Nat → Nat → Option Nat
  | 0, _ => none
  | fuel + 1, idx =>
    if idx < seg.n then do
      let cur ← seg.get? idx
      if addr > cur.addrEnd then seekEnd seg addr fuel (idx + 1) else return idx
    else return idx

/-- The configuration of slice `k` of stripe `j`, taken from segment `cur`. -/
def sliceConfig (e : StripeElemUser) (j nSlices k : Nat) (cur : Segment) : StripeSlice :=
  let start := e.stripeAddrStart j
  let addrEnd := if k + 1 < nSlices then cur.addrEnd else e.stripeAddrEnd j
  if k = 0 then
    let interPage := sub32 (pageBase start) (pageBase cur.addrStart)
    -- no additional offset for the first slice of the first stripe
    let intraPage := if j ≠ 0 then pageOffset start else 0
    ⟨start, addrEnd, cur.addrOffset + interPage + intraPage⟩
  else ⟨cur.addrStart, addrEnd, cur.addrOffset⟩

section

variable (e : StripeElemUser) (seg : Segments)

def stripe (j segIdxStart segIdxEnd : Nat) : Option Stripe := do
  let nSlices := sub32 (segIdxEnd + 1) segIdxStart
  let configs ← (List.range nSlices).mapM fun k => do
    let cur ← seg.get? (segIdxStart + k)
    return sliceConfig e j nSlices k cur
  return ⟨configs⟩

/-- The first iterations of the loop over the stripes, with the segment indices they leave. -/
def stripeLoop : Nat → Option (List Stripe × Nat × Nat)
  | 0 => some ([], 0, 0)
  | j + 1 => do
    let (stripes, segIdxStart, segIdxEnd) ← stripeLoop j
    let segIdxStart ← seekStart seg (e.stripeAddrStart j) (seg.n + 1) segIdxStart
    let segIdxEnd ← seekEnd seg (e.stripeAddrEnd j) (seg.n + 1) segIdxEnd
    let st ← stripe e seg j segIdxStart segIdxEnd
    return (stripes ++ [st], segIdxStart, segIdxEnd)

end

namespace StripeElemUser

def addrStart (e : StripeElemUser) : Nat := e.stripeAddrStart 0

def addrEnd (e : StripeElemUser) : Nat := e.stripeAddrEnd (e.nStripes - 1)

/-- The number of pages of an element. -/
def len (e : StripeElemUser) : Nat := memGetNumPages e.addrStart (sub32 e.addrEnd e.addrStart)

def segments (e : StripeElemUser) (pages : Nat → Nat) : Segments :=
  memMapSg pages e.len e.addrStart e.addrEnd

end StripeElemUser

/-- The striping table of one element whose pages are `pages`. -/
def stripeTable (e : StripeElemUser) (pages : Nat → Nat) : Option (List Stripe) := do
  let (stripes, _, _) ← stripeLoop e (e.segments pages) e.nStripes
  return stripes

/-- The striping tables of a request, one element after the other. -/
def stripeTables (elements : List (StripeElemUser × (Nat → Nat))) : Option (List (List Stripe)) :=
  elements.mapM fun elem => stripeTable elem.1 elem.2

namespace StripeSlice

/-- The addresses a slice configuration translates. -/
def Covers (sl : StripeSlice) (va : Nat) : Prop := sl.addrStart ≤ va ∧ va < sl.addrEnd

def translate (sl : StripeSlice) (va : Nat) : Nat := sl.addrOffset + (va - sl.addrStart)

end StripeSlice

/-- The physical address of `va` in an element that starts at `elemStart`. -/
def physOf (pages : Nat → Nat) (elemStart va : Nat) : Nat :=
  pageToPhys (pages (va / pageSize - elemStart / pageSize)) + pageOffset va

/-- The configurations of a stripe are its exact translation. -/
structure Stripe.Exact (e : StripeElemUser) (pages : Nat → Nat) (j : Nat) (st : Stripe) :
    Prop where
  covers : ∀ va, (∃ sl ∈ st.sliceConfigs, sl.Covers va) ↔
    e.stripeAddrStart j ≤ va ∧ va < e.stripeAddrEnd j
  disjoint : st.sliceConfigs.Pairwise fun sl sl' => ∀ va, ¬ (sl.Covers va ∧ sl'.Covers va)
  translates : ∀ sl ∈ st.sliceConfigs, ∀ va, sl.Covers va →
    sl.translate va = physOf pages e.addrStart va
  fits : st.nSlices ≤ nSlicesPerStripe e.maxStripeSizeB

/-- The requests the driver accepts: stripes in order, none longer than announced. -/
structure StripeElemUser.WellFormed (e : StripeElemUser) : Prop where
  pos : 0 < e.nStripes
  start_mono : ∀ j, j + 1 < e.nStripes → e.stripeAddrStart j ≤ e.stripeAddrStart (j + 1)
  end_mono : ∀ j, j + 1 < e.nStripes → e.stripeAddrEnd j ≤ e.stripeAddrEnd (j + 1)
  le : ∀ j, j < e.nStripes → e.stripeAddrStart j ≤ e.stripeAddrEnd j
  size : ∀ j, j < e.nStripes → e.stripeAddrEnd j - e.stripeAddrStart j ≤ e.maxStripeSizeB
  lt : ∀ j, j < e.nStripes → e.stripeAddrEnd j < 2 ^ 32

namespace StripeElemUser.WellFormed

variable {e : StripeElemUser}

theorem start_le (h : e.WellFormed) {j : Nat} (hj : j < e.nStripes) :
    e.addrStart ≤ e.stripeAddrStart j := by
  induction j with
  | zero => exact le_rfl
  | succ j ih => exact (ih (by omega)).trans (h.start_mono j hj)

theorem end_le (h : e.WellFormed) {j k : Nat} (hjk : j ≤ k) (hk : k < e.nStripes) :
    e.stripeAddrEnd j ≤ e.stripeAddrEnd k := by
  induction k with
  | zero =>
    obtain rfl : j = 0 := by omega
    exact le_rfl
  | succ k ih =>
    rcases Nat.le_succ_iff.mp hjk with hle | rfl
    · exact (ih hle (by omega)).trans (h.end_mono k hk)
    · exact le_rfl

theorem end_le_addrEnd (h : e.WellFormed) {j : Nat} (hj : j < e.nStripes) :
    e.stripeAddrEnd j ≤ e.addrEnd :=
  h.end_le (by omega) (by have := h.pos; omega)

theorem addrEnd_lt (h : e.WellFormed) : e.addrEnd < 2 ^ 32 :=
  h.lt _ (by have := h.pos; omega)

theorem addrStart_le (h : e.WellFormed) : e.addrStart ≤ e.addrEnd :=
  (h.le 0 h.pos).trans (h.end_le_addrEnd h.pos)

theorem pages (h : e.WellFormed) (i : Nat) :
    i < e.len ↔ pageBase e.addrStart + pageSize * i < e.addrEnd := by
  rw [StripeElemUser.len, sub32_of_le h.addrStart_le]
  exact lt_memGetNumPages_iff h.addrStart_le h.addrEnd_lt i

theorem segmented (h : e.WellFormed) (pages : Nat → Nat) :
    Segmented (fun i => pageToPhys (pages i)) e.len e.addrStart e.addrEnd (e.segments pages) :=
  memMapSg_spec h.addrStart_le h.addrEnd_lt.le h.pages

end StripeElemUser.WellFormed

/-- The page of `addr` and all pages of the element before it lie in one piece of physical
memory. -/
def InFirstRun (pages : Nat → Nat) (elemStart addr : Nat) : Prop :=
  ∀ i, i < addr / pageSize - elemStart / pageSize →
    pageToPhys (pages (i + 1)) = pageToPhys (pages i) + pageSize

instance (pages : Nat → Nat) (elemStart addr : Nat) : Decidable (InFirstRun pages elemStart addr) :=
  inferInstanceAs (Decidable (∀ i, i < _ → _))

/-- The element starts on a page, or no later stripe starts in its first run of pages. -/
def StripeElemUser.Aligned (e : StripeElemUser) (pages : Nat → Nat) : Prop :=
  pageOffset e.addrStart = 0 ∨ ∀ j, 0 < j → j < e.nStripes →
    e.stripeAddrStart j < e.stripeAddrEnd j → ¬ InFirstRun pages e.addrStart (e.stripeAddrStart j)

section

variable {seg : Segments} {addr idx fuel : Nat}

theorem get?_of_lt (hidx : idx < seg.n) : seg.get? idx = some (seg.vec idx) := if_pos hidx

theorem seekStart_spec (hidx : idx < seg.n) (hlo : (seg.vec idx).addrStart ≤ addr)
    (hfuel : seg.n ≤ idx + fuel) :
    ∃ r, seekStart seg addr fuel idx = some r ∧ r < seg.n ∧ (seg.vec r).addrStart ≤ addr ∧
      (r + 1 < seg.n → addr < (seg.vec (r + 1)).addrStart) := by
  induction fuel generalizing idx with
  | zero => omega
  | succ fuel ih =>
    rw [seekStart]
    by_cases hnext : idx + 1 < seg.n
    · rw [if_pos hnext, get?_of_lt hnext]
      by_cases hge : addr ≥ (seg.vec (idx + 1)).addrStart
      · simpa [hge] using ih hnext hge (by omega)
      · refine ⟨idx, by simp [hge], hidx, hlo, ?_⟩
        intro _
        exact not_le.mp hge
    · rw [if_neg hnext]
      exact ⟨idx, rfl, hidx, hlo, fun h => absurd h hnext⟩

theorem seekEnd_spec (hidx : idx < seg.n) (hprev : idx = 0 ∨ (seg.vec (idx - 1)).addrEnd < addr)
    (hlast : addr ≤ (seg.vec (seg.n - 1)).addrEnd) (hfuel : seg.n < idx + fuel) :
    ∃ r, seekEnd seg addr fuel idx = some r ∧ r < seg.n ∧
      (r = 0 ∨ (seg.vec (r - 1)).addrEnd < addr) ∧ addr ≤ (seg.vec r).addrEnd := by
  induction fuel generalizing idx with
  | zero => omega
  | succ fuel ih =>
    rw [seekEnd, if_pos hidx, get?_of_lt hidx]
    by_cases hgt : addr > (seg.vec idx).addrEnd
    · have hnext : idx + 1 < seg.n := by
        by_contra hend
        obtain rfl : idx = seg.n - 1 := by omega
        omega
      simpa [hgt] using ih hnext (Or.inr hgt) (by omega)
    · exact ⟨idx, by simp [hgt], hidx, hprev, not_lt.mp hgt⟩

end

/-- Where stripe `j` starts and ends in the segments. -/
structure Cut (e : StripeElemUser) (seg : Segments) (j r t : Nat) : Prop where
  start_lt : r < seg.n
  lo : (seg.vec r).addrStart ≤ e.stripeAddrStart j
  lo_next : r + 1 < seg.n → e.stripeAddrStart j < (seg.vec (r + 1)).addrStart
  end_lt : t < seg.n
  hi_prev : t = 0 ∨ (seg.vec (t - 1)).addrEnd < e.stripeAddrEnd j
  hi : e.stripeAddrEnd j ≤ (seg.vec t).addrEnd

private theorem mapM_range {α : Type} {f : Nat → Option α} {g : Nat → α} {n : Nat}
    (h : ∀ k, k < n → f k = some (g k)) : (List.range n).mapM f = some ((List.range n).map g) := by
  induction n with
  | zero => rfl
  | succ n ih =>
    rw [List.range_succ, List.mapM_append, ih (fun k hk => h k (by omega)), List.mapM_cons,
      h n (by omega)]
    simp

/-- The stripe that a cut from segment `r` to segment `t` gives. -/
def cutStripe (e : StripeElemUser) (seg : Segments) (j r t : Nat) : Stripe :=
  ⟨(List.range (t + 1 - r)).map fun k => sliceConfig e j (t + 1 - r) k (seg.vec (r + k))⟩

section

variable {e : StripeElemUser} {cur : Segment} {j n k : Nat}

theorem sliceConfig_addrStart : (sliceConfig e j n k cur).addrStart =
    if k = 0 then e.stripeAddrStart j else cur.addrStart := by
  by_cases hk : k = 0
  · simp only [sliceConfig, if_pos hk]
  · simp only [sliceConfig, if_neg hk]

theorem sliceConfig_addrEnd : (sliceConfig e j n k cur).addrEnd =
    if k + 1 < n then cur.addrEnd else e.stripeAddrEnd j := by
  by_cases hk : k = 0
  · simp only [sliceConfig, if_pos hk]
  · simp only [sliceConfig, if_neg hk]

theorem sliceConfig_translate_succ (hk : k ≠ 0) (va : Nat) :
    (sliceConfig e j n k cur).translate va = cur.addrOffset + (va - cur.addrStart) := by
  simp only [sliceConfig, if_neg hk, StripeSlice.translate]

/-- The first slice of a later stripe adds the offset in the page also where the segment has it. -/
theorem sliceConfig_translate_zero {va : Nat} (hlo : cur.addrStart ≤ e.stripeAddrStart j)
    (hva : e.stripeAddrStart j ≤ va)
    (hj : j = 0 → cur.addrStart = e.stripeAddrStart j) :
    (sliceConfig e j n 0 cur).translate va = cur.addrOffset + (va - cur.addrStart) +
      if j = 0 then 0 else pageOffset cur.addrStart := by
  have hbase : pageBase cur.addrStart ≤ pageBase (e.stripeAddrStart j) :=
    Nat.mul_le_mul_right pageSize (Nat.div_le_div_right hlo)
  have hle := pageBase_le (e.stripeAddrStart j)
  have hstart := pageBase_add_pageOffset (e.stripeAddrStart j)
  have hcur := pageBase_add_pageOffset cur.addrStart
  simp only [sliceConfig, if_true, StripeSlice.translate]
  rw [sub32_of_le hbase]
  by_cases h0 : j = 0
  · rw [if_pos h0, if_neg (not_not.mpr h0), hj h0]
    omega
  · rw [if_neg h0, if_pos h0]
    omega

end

namespace Cut

variable {e : StripeElemUser} {pages : Nat → Nat} {seg : Segments} {j r t nPages b : Nat}

section

variable {phys : Nat → Nat}

theorem le_succ (h : Cut e seg j r t) (hseg : Segmented phys nPages e.addrStart b seg)
    (hle : e.stripeAddrStart j ≤ e.stripeAddrEnd j) : r ≤ t + 1 := by
  have hr := h.start_lt
  have hlo := h.lo
  have hhi := h.hi
  by_contra hgt
  have hlink := hseg.end_link t (by omega)
  have hlt := hseg.start_lt (show t + 1 < r by omega) hr
  omega

theorem empty (h : Cut e seg j (t + 1) t) (hseg : Segmented phys nPages e.addrStart b seg)
    (hle : e.stripeAddrStart j ≤ e.stripeAddrEnd j) : e.stripeAddrStart j = e.stripeAddrEnd j := by
  have hlo := h.lo
  have hhi := h.hi
  have hlink := hseg.end_link t h.start_lt
  omega

/-- The slices of a stripe tile its range. -/
theorem tiling (h : Cut e seg j r t) (hseg : Segmented phys nPages e.addrStart b seg)
    (hle : e.stripeAddrStart j ≤ e.stripeAddrEnd j) (hrt : r ≤ t) :
    Tiling (t + 1 - r) (e.stripeAddrStart j) (e.stripeAddrEnd j)
      (fun k => (sliceConfig e j (t + 1 - r) k (seg.vec (r + k))).addrStart)
      (fun k => (sliceConfig e j (t + 1 - r) k (seg.vec (r + k))).addrEnd) := by
  simp only [sliceConfig_addrStart, sliceConfig_addrEnd]
  apply hseg.tiling.window hrt h.end_lt
  · by_cases hnext : r + 1 < seg.n
    · rw [hseg.end_link r hnext]
      exact (h.lo_next hnext).le
    · have ht := h.end_lt
      obtain rfl : r = t := by omega
      exact hle.trans h.hi
  · rcases h.hi_prev with rfl | hprev
    · obtain rfl : r = 0 := by omega
      exact h.lo.trans hle
    · by_cases h0 : t = 0
      · subst h0
        obtain rfl : r = 0 := by omega
        exact h.lo.trans hle
      · have hlink := hseg.end_link (t - 1) (by have := h.end_lt; omega)
        rw [Nat.sub_add_cancel (by omega)] at hlink
        omega
  · exact hle

/-- A stripe touches at most one segment more than it has pages. -/
theorem fits (h : Cut e seg j r t) (hseg : Segmented phys nPages e.addrStart b seg)
    (hsize : e.stripeAddrEnd j - e.stripeAddrStart j ≤ e.maxStripeSizeB) :
    t + 1 - r ≤ nSlicesPerStripe e.maxStripeSizeB := by
  have hpos : t + 1 - r ≤ 1 ∨ pageSize * (t + 1 - r - 2) < e.maxStripeSizeB := by
    by_cases hrt : t ≤ r
    · exact Or.inl (by omega)
    · have ht := h.end_lt
      have hnext := h.lo_next (by omega)
      have hlong := hseg.start_add_le (show 0 < r + 1 by omega) (show r + 1 ≤ t by omega) ht
      have hlink := hseg.end_link (t - 1) (by omega)
      rw [Nat.sub_add_cancel (by omega)] at hlink
      have hprev := h.hi_prev.resolve_left (by omega)
      rw [show t - (r + 1) = t + 1 - r - 2 by omega] at hlong
      exact Or.inr (by omega)
  exact le_nSlicesPerStripe hpos

end

theorem stripe_eq {phys : Nat → Nat} (h : Cut e seg j r t)
    (hseg : Segmented phys nPages e.addrStart b seg)
    (hle : e.stripeAddrStart j ≤ e.stripeAddrEnd j) :
    stripe e seg j r t = some (cutStripe e seg j r t) := by
  have hrt := h.le_succ hseg hle
  have ht := h.end_lt
  simp only [stripe, sub32_of_le hrt]
  rw [mapM_range (g := fun k => sliceConfig e j (t + 1 - r) k (seg.vec (r + k)))]
  · rfl
  · intro k hk
    rw [get?_of_lt (by omega)]
    rfl

section

variable {phys : Nat → Nat} {k va : Nat}

/-- The part of a stripe that slice `k` covers lies in segment `r + k`. -/
theorem in_segment (h : Cut e seg j r t) (hrt : r ≤ t) (hk : k < t + 1 - r)
    (hva : (sliceConfig e j (t + 1 - r) k (seg.vec (r + k))).Covers va) :
    (seg.vec (r + k)).addrStart ≤ va ∧ va < (seg.vec (r + k)).addrEnd := by
  obtain ⟨hlo, hhi⟩ := hva
  rw [sliceConfig_addrStart] at hlo
  rw [sliceConfig_addrEnd] at hhi
  refine ⟨?_, ?_⟩
  · by_cases h0 : k = 0
    · subst h0
      rw [if_pos rfl] at hlo
      exact h.lo.trans hlo
    · rwa [if_neg h0] at hlo
  · by_cases hlast : k + 1 < t + 1 - r
    · rwa [if_pos hlast] at hhi
    · obtain rfl : t = r + k := by omega
      rw [if_neg hlast] at hhi
      exact hhi.trans_le h.hi

theorem first_covers (h : Cut e seg j r t) (hseg : Segmented phys nPages e.addrStart b seg)
    (hrt : r ≤ t) (hlt : e.stripeAddrStart j < e.stripeAddrEnd j) :
    (sliceConfig e j (t + 1 - r) 0 (seg.vec (r + 0))).Covers (e.stripeAddrStart j) := by
  refine ⟨?_, ?_⟩
  · rw [sliceConfig_addrStart, if_pos rfl]
  · rw [sliceConfig_addrEnd]
    by_cases hone : 0 + 1 < t + 1 - r
    · have hnext : r + 1 < seg.n := by
        have ht := h.end_lt
        omega
      rw [if_pos hone, Nat.add_zero, hseg.end_link r hnext]
      exact h.lo_next hnext
    · rwa [if_neg hone]

theorem first_start (h : Cut e seg 0 r t) (hseg : Segmented phys nPages e.addrStart b seg) :
    r = 0 := by
  by_contra hr
  have hlt := hseg.start_lt (Nat.pos_of_ne_zero hr) h.start_lt
  have hlo := h.lo
  rw [hseg.start_first] at hlt
  exact absurd (hlt.trans_le hlo) (lt_irrefl _)

/-- The offset of a slice is right up to the offset of its segment in the page. -/
theorem translate_eq (h : Cut e seg j r t)
    (hseg : Segmented (fun i => pageToPhys (pages i)) nPages e.addrStart b seg)
    (hpages : ∀ i, i < nPages ↔ pageBase e.addrStart + pageSize * i < b)
    (hrt : r ≤ t) (hk : k < t + 1 - r)
    (hva : (sliceConfig e j (t + 1 - r) k (seg.vec (r + k))).Covers va) :
    (sliceConfig e j (t + 1 - r) k (seg.vec (r + k))).translate va =
      physOf pages e.addrStart va +
        if k = 0 ∧ j ≠ 0 ∧ r = 0 then pageOffset e.addrStart else 0 := by
  have hin := h.in_segment hrt hk hva
  have hn : r + k < seg.n := by
    have ht := h.end_lt
    omega
  have htr := hseg.translates hpages hn hin.1 hin.2
  have hlt := hseg.tiling.hi_le hn
  by_cases h0 : k = 0
  · subst h0
    have hva' := hva.1
    rw [sliceConfig_addrStart, if_pos rfl] at hva'
    rw [Nat.add_zero] at htr hlt hin hn
    have hfirst : j = 0 → (seg.vec r).addrStart = e.stripeAddrStart j := by
      rintro rfl
      obtain rfl := h.first_start hseg
      exact hseg.start_first
    change (sliceConfig e j (t + 1 - r) 0 (seg.vec r)).translate va = _
    rw [sliceConfig_translate_zero h.lo hva' hfirst, htr]
    congr 1
    by_cases hj : j = 0
    · rw [if_pos hj, if_neg (fun hc => hc.2.1 hj)]
    · rw [if_neg hj]
      by_cases hr : r = 0
      · rw [if_pos ⟨rfl, hj, hr⟩, hr, hseg.start_first]
      · rw [if_neg (fun hc => hr hc.2.2), hseg.pageOffset_start (Nat.pos_of_ne_zero hr) hn]
  · rw [sliceConfig_translate_succ h0, htr, if_neg (fun hc => h0 hc.1), Nat.add_zero, physOf]

end

/-- Everything but the offsets of a stripe is exact. -/
theorem exact_iff (h : Cut e seg j r t)
    (hseg : Segmented (fun i => pageToPhys (pages i)) nPages e.addrStart e.addrEnd seg)
    (hpages : ∀ i, i < nPages ↔ pageBase e.addrStart + pageSize * i < e.addrEnd)
    (hwf : e.WellFormed) (hj : j < e.nStripes) :
    (cutStripe e seg j r t).Exact e pages j ↔
      (e.stripeAddrStart j < e.stripeAddrEnd j → j = 0 ∨ 0 < r ∨ pageOffset e.addrStart = 0) := by
  have hle := hwf.le j hj
  rcases Nat.lt_or_eq_of_le (h.le_succ hseg hle) with hlt | rfl
  · have hrt : r ≤ t := by omega
    have htile := h.tiling hseg hle hrt
    have hmem : ∀ sl, sl ∈ (cutStripe e seg j r t).sliceConfigs ↔
        ∃ k, k < t + 1 - r ∧ sliceConfig e j (t + 1 - r) k (seg.vec (r + k)) = sl := by
      intro sl
      simp [cutStripe]
    constructor
    · intro hex hpos
      have hcov := h.first_covers hseg hrt hpos
      have htr := hex.translates _ ((hmem _).mpr ⟨0, by omega, rfl⟩) _ hcov
      rw [h.translate_eq hseg hpages hrt (by omega) hcov] at htr
      by_contra hcon
      rw [if_pos ⟨rfl, by omega, by omega⟩] at htr
      omega
    · intro hcond
      refine ⟨?_, ?_, ?_, ?_⟩
      · intro va
        rw [← htile.mem_iff]
        constructor
        · intro hx
          obtain ⟨sl, hsl, hcov⟩ := hx
          obtain ⟨k, hk, rfl⟩ := (hmem sl).mp hsl
          exact ⟨k, hk, hcov⟩
        · intro hx
          obtain ⟨k, hk, hcov⟩ := hx
          exact ⟨_, (hmem _).mpr ⟨k, hk, rfl⟩, hcov⟩
      · rw [cutStripe, List.pairwise_map]
        apply List.pairwise_lt_range.imp_of_mem
        intro k l hk hl hkl va hboth
        rw [List.mem_range] at hk hl
        have heq := htile.eq_of_mem hk hl hboth.1 hboth.2
        omega
      · intro sl hsl va hcov
        obtain ⟨k, hk, rfl⟩ := (hmem sl).mp hsl
        rw [h.translate_eq hseg hpages hrt hk hcov]
        have hin := htile.mem_iff.mp ⟨k, hk, hcov⟩
        have hc := hcond (by omega)
        split
        · omega
        · exact Nat.add_zero _
      · rw [Stripe.nSlices, cutStripe, List.length_map, List.length_range]
        exact h.fits hseg (hwf.size j hj)
  · have heq := h.empty hseg hle
    have hnil : (cutStripe e seg j (t + 1) t).sliceConfigs = [] := by
      simp [cutStripe]
    constructor
    · intro _ hpos
      omega
    · intro _
      refine ⟨?_, ?_, ?_, ?_⟩
      · intro va
        simp [hnil]
        omega
      · rw [hnil]
        exact List.Pairwise.nil
      · intro sl hsl
        rw [hnil] at hsl
        exact absurd hsl List.not_mem_nil
      · simp [Stripe.nSlices, hnil]

end Cut

section

variable {e : StripeElemUser} {pages : Nat → Nat}

/-- After `j` iterations the indices do not lie past stripe `j`, and each stripe so far is cut where
it starts and ends. -/
theorem stripeLoop_spec (pages : Nat → Nat) (hwf : e.WellFormed) (j : Nat) (hj : j ≤ e.nStripes) :
    ∃ stripes r t, stripeLoop e (e.segments pages) j = some (stripes, r, t) ∧
      stripes.length = j ∧ r < (e.segments pages).n ∧ t < (e.segments pages).n ∧
      (j < e.nStripes → ((e.segments pages).vec r).addrStart ≤ e.stripeAddrStart j ∧
        (t = 0 ∨ ((e.segments pages).vec (t - 1)).addrEnd < e.stripeAddrEnd j)) ∧
      ∀ i, i < j → ∃ r t, Cut e (e.segments pages) i r t ∧
        stripes[i]? = some (cutStripe e (e.segments pages) i r t) := by
  have hseg := hwf.segmented pages
  generalize e.segments pages = seg at hseg ⊢
  induction j with
  | zero =>
    refine ⟨[], 0, 0, rfl, rfl, hseg.pos, hseg.pos, ?_, by omega⟩
    intro _
    exact ⟨hseg.start_first.le, Or.inl rfl⟩
  | succ j ih =>
    obtain ⟨stripes, r, t, hloop, hlen, hr, ht, hready, hcuts⟩ := ih (by omega)
    obtain ⟨hlo, hprev⟩ := hready hj
    have hlast : e.stripeAddrEnd j ≤ (seg.vec (seg.n - 1)).addrEnd := by
      rw [show (seg.vec (seg.n - 1)).addrEnd = e.addrEnd from hseg.tiling.last]
      exact hwf.end_le_addrEnd hj
    obtain ⟨r', hr', hrn, hrlo, hrnext⟩ :=
      seekStart_spec hr hlo (show seg.n ≤ r + (seg.n + 1) by omega)
    obtain ⟨t', ht', htn, htprev, hthi⟩ :=
      seekEnd_spec ht hprev hlast (show seg.n < t + (seg.n + 1) by omega)
    have hcut : Cut e seg j r' t' := ⟨hrn, hrlo, hrnext, htn, htprev, hthi⟩
    have hst := hcut.stripe_eq hseg (hwf.le j hj)
    refine ⟨stripes ++ [cutStripe e seg j r' t'], r', t', ?_, by simp [hlen], hrn, htn, ?_, ?_⟩
    · simp [stripeLoop, hloop, hr', ht', hst]
    · intro hnext
      have hstart := hwf.start_mono j hnext
      have hend := hwf.end_mono j hnext
      exact ⟨hrlo.trans hstart, htprev.imp_right fun hlt => hlt.trans_le hend⟩
    · intro i hi
      rcases Nat.lt_succ_iff_lt_or_eq.mp hi with hlt | rfl
      · obtain ⟨r, t, hc, hget⟩ := hcuts i hlt
        refine ⟨r, t, hc, ?_⟩
        rw [List.getElem?_append_left (by omega), hget]
      · refine ⟨r', t', hcut, ?_⟩
        rw [List.getElem?_append_right (by omega), hlen, Nat.sub_self]
        rfl

theorem stripeLoop_length {seg : Segments} {j r t : Nat} {stripes : List Stripe}
    (h : stripeLoop e seg j = some (stripes, r, t)) : stripes.length = j := by
  induction j generalizing stripes r t with
  | zero =>
    cases h
    rfl
  | succ j ih =>
    simp only [stripeLoop, Option.bind_eq_bind, Option.bind_eq_some_iff, Prod.exists] at h
    obtain ⟨prev, r', t', hprev, _, _, _, _, st, _, heq⟩ := h
    cases heq
    rw [List.length_append, ih hprev]
    rfl

theorem stripeTable_length {table : List Stripe} (h : stripeTable e pages = some table) :
    table.length = e.nStripes := by
  simp only [stripeTable, Option.bind_eq_bind, Option.bind_eq_some_iff, Prod.exists] at h
  obtain ⟨stripes, r, t, hloop, heq⟩ := h
  cases heq
  exact stripeLoop_length hloop

/-- A stripe starts in the first segment exactly if its page belongs to the first run. -/
theorem Cut.first_iff {j r t : Nat} (h : Cut e (e.segments pages) j r t) (hwf : e.WellFormed)
    (hj : j < e.nStripes) (hlt : e.stripeAddrStart j < e.stripeAddrEnd j) :
    r = 0 ↔ InFirstRun pages e.addrStart (e.stripeAddrStart j) := by
  have hseg := hwf.segmented pages
  have hsecond := hseg.lt_second_iff hwf.pages (hwf.start_le hj)
    (hlt.trans_le (hwf.end_le_addrEnd hj))
  rw [InFirstRun, ← hsecond]
  constructor
  · rintro rfl
    exact h.lo_next
  · intro hfirst
    by_contra hr
    have hlo := h.lo
    have hstart := hseg.tiling.lo_mono (Nat.one_le_iff_ne_zero.mpr hr) h.start_lt
    have hfirst' := hfirst (by have := h.start_lt; omega)
    omega

/-- A table has one exact stripe for each stripe of the element. -/
def TableExact (e : StripeElemUser) (pages : Nat → Nat) (table : List Stripe) : Prop :=
  table.length = e.nStripes ∧
    ∀ j, j < e.nStripes → ∃ st, table[j]? = some st ∧ st.Exact e pages j

/-- The driver builds a table for every element, and it is exact iff the element is aligned. -/
theorem stripeTable_spec (pages : Nat → Nat) (hwf : e.WellFormed) :
    ∃ table, stripeTable e pages = some table ∧ (TableExact e pages table ↔ e.Aligned pages) := by
  obtain ⟨stripes, r, t, hloop, hlen, _, _, _, hcuts⟩ :=
    stripeLoop_spec pages hwf e.nStripes le_rfl
  refine ⟨stripes, by simp [stripeTable, hloop], ?_⟩
  have hseg := hwf.segmented pages
  constructor
  · intro hex
    by_contra hal
    rw [StripeElemUser.Aligned, not_or] at hal
    obtain ⟨hoff, hall⟩ := hal
    simp only [not_forall, not_not] at hall
    obtain ⟨j, hpos, hj, hlt, hfirst⟩ := hall
    obtain ⟨r, t, hcut, hget⟩ := hcuts j hj
    obtain ⟨st, hst, hstex⟩ := hex.2 j hj
    obtain rfl : cutStripe e (e.segments pages) j r t = st := Option.some.inj (hget.symm.trans hst)
    have hr := (hcut.first_iff hwf hj hlt).mpr hfirst
    have hcond := (hcut.exact_iff hseg hwf.pages hwf hj).mp hstex hlt
    omega
  · intro hal
    refine ⟨hlen, ?_⟩
    intro j hj
    obtain ⟨r, t, hcut, hget⟩ := hcuts j hj
    refine ⟨_, hget, (hcut.exact_iff hseg hwf.pages hwf hj).mpr ?_⟩
    intro hlt
    rcases hal with hoff | hall
    · exact Or.inr (Or.inr hoff)
    · by_cases h0 : j = 0
      · exact Or.inl h0
      · have hnot := hall j (Nat.pos_of_ne_zero h0) hj hlt
        rw [← hcut.first_iff hwf hj hlt] at hnot
        exact Or.inr (Or.inl (Nat.pos_of_ne_zero hnot))

end

private theorem mapM_cons_eq {α β : Type} {f : α → Option β} {x : α} {xs : List α} {y : β}
    (hx : f x = some y) (p : α → β → Prop) :
    (∃ ys, (x :: xs).mapM f = some ys ∧ List.Forall₂ p (x :: xs) ys) ↔
      p x y ∧ ∃ ys, xs.mapM f = some ys ∧ List.Forall₂ p xs ys := by
  rw [List.mapM_cons, hx]
  cases hxs : xs.mapM f with
  | none => simp
  | some ys => simp

/-- For every request the driver accepts, its striping tables are exact translations of all stripes
exactly if every element is aligned. -/
theorem stripe_tables_exact_iff (elements : List (StripeElemUser × (Nat → Nat)))
    (hwf : ∀ elem ∈ elements, elem.1.WellFormed) :
    (∃ tables, stripeTables elements = some tables ∧
      List.Forall₂ (fun elem table => TableExact elem.1 elem.2 table) elements tables) ↔
      ∀ elem ∈ elements, elem.1.Aligned elem.2 := by
  induction elements with
  | nil => simp [stripeTables]
  | cons elem elements ih =>
    obtain ⟨table, htable, hiff⟩ :=
      stripeTable_spec elem.2 (hwf elem List.mem_cons_self)
    have ih' := ih fun elem h => hwf elem (List.mem_cons_of_mem _ h)
    rw [stripeTables] at ih' ⊢
    rw [mapM_cons_eq (f := fun elem => stripeTable elem.1 elem.2) (x := elem) htable, ih', hiff,
      List.forall_mem_cons]

/-- Two stripes of one page each, the element starting at `addr`. -/
def twoStripes (addr : Nat) : StripeElemUser :=
  ⟨0, .input, 7, pageSize, 2, fun j => addr + pageSize * j, fun j => addr + pageSize * (j + 1)⟩

theorem twoStripes_wellFormed {addr : Nat} (haddr : addr < 2 ^ 31) : (twoStripes addr).WellFormed := by
  refine ⟨show 0 < 2 by decide, ?_, ?_, ?_, ?_, ?_⟩ <;> intro j hj <;>
    simp only [twoStripes, pageSize] at * <;> omega

theorem stripe_tables_exact_two :
    ∃ tables, stripeTables [(twoStripes 0x2000, fun i => 16 + i)] = some tables ∧
      List.Forall₂ (fun elem table => TableExact elem.1 elem.2 table)
        [(twoStripes 0x2000, fun i => 16 + i)] tables := by
  apply (stripe_tables_exact_iff _ ?_).mpr
  · intro elem helem
    obtain rfl := List.mem_singleton.mp helem
    exact Or.inl (by decide)
  · intro elem helem
    obtain rfl := List.mem_singleton.mp helem
    exact twoStripes_wellFormed (by decide)

/-- In an element that starts in the middle of a page, the second stripe is sent to the page after
its own. -/
theorem stripe_tables_not_exact :
    (twoStripes 0x1800).WellFormed ∧
      ¬ ∃ tables, stripeTables [(twoStripes 0x1800, fun i => 16 + i)] = some tables ∧
        List.Forall₂ (fun elem table => TableExact elem.1 elem.2 table)
          [(twoStripes 0x1800, fun i => 16 + i)] tables := by
  refine ⟨twoStripes_wellFormed (by decide), ?_⟩
  intro hex
  obtain ⟨tables, htables, hall⟩ := hex
  have heval : stripeTables [(twoStripes 0x1800, fun i => 16 + i)] =
      some [[⟨[⟨0x1800, 0x2800, 0x10800⟩]⟩, ⟨[⟨0x2800, 0x3800, 0x12000⟩]⟩]] := by decide
  rw [heval] at htables
  obtain rfl := Option.some.inj htables
  cases hall with
  | cons htable _ =>
    obtain ⟨st, hst, hexact⟩ := htable.2 1 (by decide)
    obtain rfl := Option.some.inj hst
    have htr := hexact.translates ⟨0x2800, 0x3800, 0x12000⟩ (by decide) 0x2800
      ⟨by decide, by decide⟩
    exact absurd htr (by decide)

end Hero.Rab
