import Hero.Framework.Tiling
import Mathlib.Data.List.Range
import Mathlib.Logic.Function.Basic
import Mathlib.Tactic.Ring

/-!
# User-space memory of the driver

Page counts and the grouping of pinned pages into physically contiguous segments.
-/

namespace Hero.Driver

/-- Conversion to `unsigned`. -/
def u32 (x : Nat) : Nat := x % 2 ^ 32

/-- Conversion to `unsigned char`. -/
def u8 (x : Nat) : Nat := x % 2 ^ 8

/-- Difference of two `unsigned` values. -/
def sub32 (x y : Nat) : Nat := if y ≤ x then x - y else x + 2 ^ 32 - y

def pageSize : Nat := 4096

/-- The offset of an address in its page. -/
def pageOffset (addr : Nat) : Nat := addr % pageSize

/-- The address rounded down to its page. -/
def pageBase (addr : Nat) : Nat := addr / pageSize * pageSize

/-- `page_to_phys` -/
def pageToPhys (pfn : Nat) : Nat := pfn * pageSize

def memGetNumPages (addrStart sizeB : Nat) : Nat :=
  let sum := u32 (pageOffset addrStart + sizeB)
  if pageOffset sum = 0 then sum / pageSize else sum / pageSize + 1

structure Segment where
  addrStart : Nat
  addrEnd : Nat
  addrOffset : Nat
  pageIdxStart : Nat
  pageIdxEnd : Nat
  deriving DecidableEq, Repr

/-- The arrays `pulp_mem_map_sg` allocates; only the first `n` entries are written. -/
structure Segments where
  n : Nat
  vec : Nat → Segment

namespace Segments

/-- A checked access to the arrays. -/
def get? (s : Segments) (k : Nat) : Option Segment := if k < s.n then some (s.vec k) else none

def finish (s : Segments) (addrEnd pageIdxEnd : Nat) : Segments where
  n := s.n
  vec := Function.update s.vec (s.n - 1)
    { s.vec (s.n - 1) with addrEnd := addrEnd, pageIdxEnd := pageIdxEnd }

def add (s : Segments) (addrStart addrOffset pageIdxStart : Nat) : Segments where
  n := s.n + 1
  vec := Function.update s.vec s.n
    { s.vec s.n with addrStart := addrStart, addrOffset := addrOffset, pageIdxStart := pageIdxStart }

def setOffset (s : Segments) (addrOffset : Nat) : Segments where
  n := s.n
  vec := Function.update s.vec 0 { s.vec 0 with addrOffset := addrOffset }

end Segments

/-- One iteration of the loop over the pages. -/
def mapSgStep (phys : Nat → Nat) (nPages addrStart addrEnd : Nat) (s : Segments) (i : Nat) :
    Segments :=
  let bound := u32 (pageBase addrStart + pageSize * i)
  let s := if phys i ≠ phys (i - 1) + pageSize then
    (s.finish bound (i - 1)).add bound (phys i) i else s
  if i = nPages - 1 then s.finish addrEnd i else s

def mapSgInit (addrStart addrEnd : Nat) : Segments := ⟨1, fun _ => ⟨addrStart, addrEnd, 0, 0, 0⟩⟩

def memMapSg (pages : Nat → Nat) (nPages addrStart addrEnd : Nat) : Segments :=
  let phys := fun i => pageToPhys (pages i)
  let s := (List.range' 1 (nPages - 1)).foldl (mapSgStep phys nPages addrStart addrEnd)
    (mapSgInit addrStart addrEnd)
  s.setOffset (phys 0 + pageOffset addrStart)

example : memGetNumPages 4000 200 = 2 := by decide

section

variable {x y : Nat}

theorem u32_of_lt (hx : x < 2 ^ 32) : u32 x = x := Nat.mod_eq_of_lt hx

theorem sub32_of_le (hyx : y ≤ x) : sub32 x y = x - y := if_pos hyx

theorem pageBase_add_pageOffset (addr : Nat) : pageBase addr + pageOffset addr = addr :=
  Nat.div_add_mod' addr pageSize

theorem pageBase_le (addr : Nat) : pageBase addr ≤ addr := Nat.div_mul_le_self addr pageSize

theorem pageOffset_lt (addr : Nat) : pageOffset addr < pageSize := Nat.mod_lt addr (by decide)

end

/-- The pages of a range are those that start before its end. -/
theorem lt_memGetNumPages_iff_add {addrStart sizeB : Nat} (hlt : pageOffset addrStart + sizeB < 2 ^ 32)
    (i : Nat) :
    i < memGetNumPages addrStart sizeB ↔ pageBase addrStart + pageSize * i < addrStart + sizeB := by
  have hsplit := pageBase_add_pageOffset addrStart
  simp only [memGetNumPages, u32_of_lt hlt]
  by_cases hrem : pageOffset (pageOffset addrStart + sizeB) = 0
  · rw [if_pos hrem]
    simp only [pageOffset, pageSize] at hrem hsplit ⊢
    omega
  · rw [if_neg hrem]
    simp only [pageOffset, pageSize] at hrem hsplit ⊢
    omega

theorem lt_memGetNumPages_iff {addrStart addrEnd : Nat} (hle : addrStart ≤ addrEnd)
    (hlt : addrEnd < 2 ^ 32) (i : Nat) :
    i < memGetNumPages addrStart (addrEnd - addrStart) ↔
      pageBase addrStart + pageSize * i < addrEnd := by
  have hsplit := pageBase_add_pageOffset addrStart
  rw [lt_memGetNumPages_iff_add (by omega), Nat.add_sub_of_le hle]

namespace Segments

theorem finish_vec_last (s : Segments) (addrEnd pageIdxEnd : Nat) :
    (s.finish addrEnd pageIdxEnd).vec (s.n - 1) =
      { s.vec (s.n - 1) with addrEnd := addrEnd, pageIdxEnd := pageIdxEnd } :=
  Function.update_self ..

theorem finish_vec_of_ne (s : Segments) (addrEnd pageIdxEnd : Nat) {k : Nat} (hk : k ≠ s.n - 1) :
    (s.finish addrEnd pageIdxEnd).vec k = s.vec k :=
  Function.update_of_ne hk ..

theorem add_vec_last (s : Segments) (addrStart addrOffset pageIdxStart : Nat) :
    (s.add addrStart addrOffset pageIdxStart).vec s.n =
      { s.vec s.n with addrStart := addrStart, addrOffset := addrOffset,
                       pageIdxStart := pageIdxStart } :=
  Function.update_self ..

theorem add_vec_of_ne (s : Segments) (addrStart addrOffset pageIdxStart : Nat) {k : Nat}
    (hk : k ≠ s.n) : (s.add addrStart addrOffset pageIdxStart).vec k = s.vec k :=
  Function.update_of_ne hk ..

/-- The starts and offsets do not depend on how the last segment ends. -/
theorem finish_start (s : Segments) (addrEnd pageIdxEnd k : Nat) :
    ((s.finish addrEnd pageIdxEnd).vec k).addrStart = (s.vec k).addrStart ∧
      ((s.finish addrEnd pageIdxEnd).vec k).addrOffset = (s.vec k).addrOffset ∧
      ((s.finish addrEnd pageIdxEnd).vec k).pageIdxStart = (s.vec k).pageIdxStart := by
  by_cases hk : k = s.n - 1
  · subst hk
    rw [finish_vec_last]
    exact ⟨rfl, rfl, rfl⟩
  · rw [finish_vec_of_ne s _ _ hk]
    exact ⟨rfl, rfl, rfl⟩

theorem setOffset_vec_first (s : Segments) (addrOffset : Nat) :
    (s.setOffset addrOffset).vec 0 = { s.vec 0 with addrOffset := addrOffset } := by
  simp only [setOffset, Function.update_self]

theorem setOffset_vec_succ (s : Segments) (addrOffset k : Nat) :
    (s.setOffset addrOffset).vec (k + 1) = s.vec (k + 1) := by
  simp only [setOffset, Function.update_of_ne (Nat.succ_ne_zero k)]

theorem setOffset_bounds (s : Segments) (addrOffset k : Nat) :
    ((s.setOffset addrOffset).vec k).addrStart = (s.vec k).addrStart ∧
      ((s.setOffset addrOffset).vec k).addrEnd = (s.vec k).addrEnd ∧
      ((s.setOffset addrOffset).vec k).pageIdxStart = (s.vec k).pageIdxStart ∧
      ((s.setOffset addrOffset).vec k).pageIdxEnd = (s.vec k).pageIdxEnd := by
  cases k with
  | zero =>
    rw [setOffset_vec_first]
    exact ⟨rfl, rfl, rfl, rfl⟩
  | succ k =>
    rw [setOffset_vec_succ]
    exact ⟨rfl, rfl, rfl, rfl⟩

end Segments

/-- The first `i` pages from `addrStart` are grouped in maximal physically contiguous segments; the
end of the last segment is still open. -/
structure Grouped (phys : Nat → Nat) (addrStart i : Nat) (s : Segments) : Prop where
  pos : 0 < s.n
  start_first : (s.vec 0).addrStart = addrStart
  page_first : (s.vec 0).pageIdxStart = 0
  page_last : (s.vec (s.n - 1)).pageIdxStart < i
  page_lt : ∀ k, k + 1 < s.n → (s.vec k).pageIdxStart < (s.vec (k + 1)).pageIdxStart
  start_succ : ∀ k, k + 1 < s.n →
    (s.vec (k + 1)).addrStart = pageBase addrStart + pageSize * (s.vec (k + 1)).pageIdxStart
  end_link : ∀ k, k + 1 < s.n → (s.vec k).addrEnd = (s.vec (k + 1)).addrStart
  page_link : ∀ k, k + 1 < s.n → (s.vec k).pageIdxEnd + 1 = (s.vec (k + 1)).pageIdxStart
  offset_succ : ∀ k, k + 1 < s.n → (s.vec (k + 1)).addrOffset = phys (s.vec (k + 1)).pageIdxStart
  contiguous : ∀ k p, k < s.n → (s.vec k).pageIdxStart ≤ p →
    (k + 1 < s.n → p < (s.vec (k + 1)).pageIdxStart) → p < i →
    phys p = phys (s.vec k).pageIdxStart + pageSize * (p - (s.vec k).pageIdxStart)
  broken : ∀ k, k + 1 < s.n → phys (s.vec (k + 1)).pageIdxStart ≠
    phys ((s.vec (k + 1)).pageIdxStart - 1) + pageSize

namespace Grouped

variable {phys : Nat → Nat} {addrStart i : Nat} {s : Segments}

theorem init (addrEnd : Nat) : Grouped phys addrStart 1 (mapSgInit addrStart addrEnd) := by
  have hone : ∀ k, ¬ k + 1 < (mapSgInit addrStart addrEnd).n := by
    intro k hk
    exact absurd hk (by simp [mapSgInit])
  refine ⟨Nat.one_pos, rfl, rfl, Nat.one_pos, fun k hk => absurd hk (hone k),
    fun k hk => absurd hk (hone k), fun k hk => absurd hk (hone k), fun k hk => absurd hk (hone k),
    fun k hk => absurd hk (hone k), ?_, fun k hk => absurd hk (hone k)⟩
  intro k p _ _ _ hp
  obtain rfl : p = 0 := by omega
  simp [mapSgInit]

theorem page_mono (h : Grouped phys addrStart i s) {k l : Nat} (hkl : k ≤ l) (hl : l < s.n) :
    (s.vec k).pageIdxStart ≤ (s.vec l).pageIdxStart := by
  induction l with
  | zero =>
    obtain rfl : k = 0 := by omega
    exact le_rfl
  | succ l ih =>
    rcases Nat.le_succ_iff.mp hkl with hle | rfl
    · exact (ih hle (by omega)).trans (h.page_lt l hl).le
    · exact le_rfl

/-- A page that follows its predecessor in physical memory stays in the last segment. -/
theorem extend (h : Grouped phys addrStart i s) (hphys : phys i = phys (i - 1) + pageSize) :
    Grouped phys addrStart (i + 1) s := by
  have hlast := h.page_last
  have hpos := h.pos
  refine { h with page_last := by omega, contiguous := ?_ }
  intro k p hk hstart hnext hp
  by_cases hpi : p = i
  · subst hpi
    obtain rfl : k = s.n - 1 := by
      by_contra hne
      have hmono := h.page_mono (show k + 1 ≤ s.n - 1 by omega) (by omega)
      have hlt := hnext (by omega)
      omega
    have hprev := h.contiguous (s.n - 1) (p - 1) hk (by omega) (by omega) (by omega)
    rw [hphys, hprev, Nat.add_assoc, ← Nat.mul_succ]
    congr 2
    omega
  · exact h.contiguous k p hk hstart hnext (by omega)

/-- The grouping reads neither the end of the last segment nor the offset of the first. -/
theorem congr {t : Segments} (h : Grouped phys addrStart i s) (hn : t.n = s.n)
    (hstart : ∀ k, (t.vec k).addrStart = (s.vec k).addrStart)
    (hpage : ∀ k, (t.vec k).pageIdxStart = (s.vec k).pageIdxStart)
    (hend : ∀ k, k + 1 < s.n →
      (t.vec k).addrEnd = (s.vec k).addrEnd ∧ (t.vec k).pageIdxEnd = (s.vec k).pageIdxEnd)
    (hoffset : ∀ k, (t.vec (k + 1)).addrOffset = (s.vec (k + 1)).addrOffset) :
    Grouped phys addrStart i t := by
  refine ⟨?_, ?_, ?_, ?_, ?_, ?_, ?_, ?_, ?_, ?_, ?_⟩ <;> simp only [hn, hstart, hpage, hoffset]
  · exact h.pos
  · exact h.start_first
  · exact h.page_first
  · exact h.page_last
  · exact h.page_lt
  · exact h.start_succ
  · intro k hk
    rw [(hend k hk).1]
    exact h.end_link k hk
  · intro k hk
    rw [(hend k hk).2]
    exact h.page_link k hk
  · exact h.offset_succ
  · exact h.contiguous
  · exact h.broken

theorem finish (h : Grouped phys addrStart i s) (addrEnd pageIdxEnd : Nat) :
    Grouped phys addrStart i (s.finish addrEnd pageIdxEnd) := by
  apply h.congr (by rfl)
  · exact fun k => (s.finish_start addrEnd pageIdxEnd k).1
  · exact fun k => (s.finish_start addrEnd pageIdxEnd k).2.2
  · intro k hk
    rw [s.finish_vec_of_ne _ _ (by omega)]
    exact ⟨rfl, rfl⟩
  · exact fun k => (s.finish_start addrEnd pageIdxEnd (k + 1)).2.1

theorem setOffset (h : Grouped phys addrStart i s) (addrOffset : Nat) :
    Grouped phys addrStart i (s.setOffset addrOffset) := by
  apply h.congr (by rfl)
  · exact fun k => (s.setOffset_bounds addrOffset k).1
  · exact fun k => (s.setOffset_bounds addrOffset k).2.2.1
  · exact fun k _ => ⟨(s.setOffset_bounds addrOffset k).2.1, (s.setOffset_bounds addrOffset k).2.2.2⟩
  · intro k
    rw [s.setOffset_vec_succ]

/-- A page elsewhere in physical memory closes the last segment and opens the next one. -/
theorem split (h : Grouped phys addrStart i s) (hphys : phys i ≠ phys (i - 1) + pageSize) :
    let bound := pageBase addrStart + pageSize * i
    Grouped phys addrStart (i + 1) ((s.finish bound (i - 1)).add bound (phys i) i) := by
  intro bound
  have hpos := h.pos
  have hf := h.finish bound (i - 1)
  have hlast := hf.page_last
  have hfl := s.finish_vec_last bound (i - 1)
  generalize hfdef : s.finish bound (i - 1) = f at hf hfl hlast ⊢
  have hn : f.n = s.n := by
    rw [← hfdef]
    rfl
  have hold : ∀ k, k < f.n → (f.add bound (phys i) i).vec k = f.vec k := by
    intro k hk
    exact f.add_vec_of_ne _ _ _ (by omega)
  have hnew := f.add_vec_last bound (phys i) i
  have hcases : ∀ k, k + 1 < f.n + 1 → k + 1 < f.n ∨ k = f.n - 1 ∧ k + 1 = f.n := by
    intro k hk
    omega
  have hn' : (f.add bound (phys i) i).n = f.n + 1 := rfl
  refine ⟨Nat.succ_pos _, ?_, ?_, ?_, ?_, ?_, ?_, ?_, ?_, ?_, ?_⟩
  · rw [hold 0 hf.pos]
    exact hf.start_first
  · rw [hold 0 hf.pos]
    exact hf.page_first
  · rw [hn', Nat.add_sub_cancel, hnew]
    exact Nat.lt_succ_self i
  · intro k hk
    rcases hcases k hk with hin | ⟨heq, hsucc⟩
    · rw [hold k (by omega), hold (k + 1) hin]
      exact hf.page_lt k hin
    · rw [hsucc, hnew, hold k (by omega), heq]
      exact hlast
  · intro k hk
    rcases hcases k hk with hin | ⟨heq, hsucc⟩
    · rw [hold (k + 1) hin]
      exact hf.start_succ k hin
    · rw [hsucc, hnew]
  · intro k hk
    rcases hcases k hk with hin | ⟨heq, hsucc⟩
    · rw [hold k (by omega), hold (k + 1) hin]
      exact hf.end_link k hin
    · rw [hsucc, hnew, hold k (by omega), heq, hn, hfl]
  · intro k hk
    rcases hcases k hk with hin | ⟨heq, hsucc⟩
    · rw [hold k (by omega), hold (k + 1) hin]
      exact hf.page_link k hin
    · rw [hsucc, hnew, hold k (by omega), heq, hn, hfl]
      simp only
      omega
  · intro k hk
    rcases hcases k hk with hin | ⟨heq, hsucc⟩
    · rw [hold (k + 1) hin]
      exact hf.offset_succ k hin
    · rw [hsucc, hnew]
  · intro k p hk hstart hnext hp
    rcases Nat.lt_succ_iff_lt_or_eq.mp hk with hin | rfl
    · rw [hold k hin] at hstart ⊢
      rcases hcases k (by omega) with hin' | ⟨heq, hsucc⟩
      · have hlt := hnext (by omega)
        rw [hold (k + 1) hin'] at hlt
        have hmono := hf.page_mono (show k + 1 ≤ f.n - 1 by omega) (by omega)
        exact hf.contiguous k p hin hstart (fun _ => hlt) (by omega)
      · have hlt := hnext (by omega)
        rw [hsucc, hnew] at hlt
        exact hf.contiguous k p hin hstart (by omega) hlt
    · rw [hnew] at hstart ⊢
      obtain rfl : p = i := by
        simp only at hstart
        omega
      simp
  · intro k hk
    rcases hcases k hk with hin | ⟨heq, hsucc⟩
    · rw [hold (k + 1) hin]
      exact hf.broken k hin
    · rw [hsucc, hnew]
      exact hphys

end Grouped

/-- The last segment is closed once all pages have been looked at. -/
def Closed (nPages addrEnd i : Nat) (s : Segments) : Prop :=
  nPages ≤ i → (s.vec (s.n - 1)).addrEnd = addrEnd ∧ (s.vec (s.n - 1)).pageIdxEnd + 1 = max nPages 1

section

variable {phys pages : Nat → Nat} {nPages addrStart addrEnd i : Nat} {s : Segments}

theorem mapSgStep_spec (h : Grouped phys addrStart i s) (hi : i < nPages)
    (hfit : pageBase addrStart + pageSize * i < 2 ^ 32) :
    Grouped phys addrStart (i + 1) (mapSgStep phys nPages addrStart addrEnd s i) ∧
      Closed nPages addrEnd (i + 1) (mapSgStep phys nPages addrStart addrEnd s i) := by
  have hone := h.page_last
  simp only [mapSgStep, u32_of_lt hfit]
  generalize ht : (if phys i ≠ phys (i - 1) + pageSize then _ else s) = t
  have hgroup : Grouped phys addrStart (i + 1) t := by
    rw [← ht]
    by_cases hphys : phys i = phys (i - 1) + pageSize
    · rw [if_neg (not_not.mpr hphys)]
      exact h.extend hphys
    · rw [if_pos hphys]
      exact h.split hphys
  by_cases hend : i = nPages - 1
  · rw [if_pos hend]
    refine ⟨hgroup.finish addrEnd i, ?_⟩
    intro _
    have hlast := t.finish_vec_last addrEnd i
    have hn : (t.finish addrEnd i).n = t.n := rfl
    rw [hn, hlast]
    refine ⟨rfl, ?_⟩
    simp only
    omega
  · rw [if_neg hend]
    refine ⟨hgroup, ?_⟩
    intro hle
    omega

/-- The segments cover the range, each is physically contiguous, and each starts where the physical
addresses break. -/
structure Segmented (phys : Nat → Nat) (nPages addrStart addrEnd : Nat) (s : Segments) : Prop
    extends Grouped phys addrStart (max nPages 1) s where
  tiling : Tiling s.n addrStart addrEnd (fun k => (s.vec k).addrStart) (fun k => (s.vec k).addrEnd)
  offset_first : (s.vec 0).addrOffset = phys 0 + pageOffset addrStart
  page_end : (s.vec (s.n - 1)).pageIdxEnd + 1 = max nPages 1

theorem mapSgLoop_spec (phys : Nat → Nat) (addrStart addrEnd : Nat) {m : Nat} (hm : m ≤ nPages - 1)
    (hfit : ∀ i, i < nPages → pageBase addrStart + pageSize * i < 2 ^ 32) :
    let s := (List.range' 1 m).foldl (mapSgStep phys nPages addrStart addrEnd)
      (mapSgInit addrStart addrEnd)
    Grouped phys addrStart (1 + m) s ∧ Closed nPages addrEnd (1 + m) s := by
  induction m with
  | zero =>
    refine ⟨Grouped.init addrEnd, ?_⟩
    intro hle
    simp [mapSgInit]
    omega
  | succ m ih =>
    have hprev := ih (by omega)
    rw [List.range'_concat, List.foldl_append]
    simp only [Nat.one_mul, List.foldl_cons, List.foldl_nil]
    have hi : 1 + m < nPages := by omega
    exact mapSgStep_spec hprev.1 hi (hfit _ hi)

/-- Segments other than the first start on a page. -/
theorem Grouped.start_eq (h : Grouped phys addrStart i s) {k : Nat} (hk : k < s.n) :
    k = 0 ∧ (s.vec k).addrStart = addrStart ∧ (s.vec k).pageIdxStart = 0 ∨
      0 < k ∧ (s.vec k).addrStart = pageBase addrStart + pageSize * (s.vec k).pageIdxStart ∧
        0 < (s.vec k).pageIdxStart ∧ (s.vec k).addrOffset = phys (s.vec k).pageIdxStart := by
  cases k with
  | zero => exact Or.inl ⟨rfl, h.start_first, h.page_first⟩
  | succ k =>
    have hlt := h.page_lt k hk
    exact Or.inr ⟨Nat.succ_pos k, h.start_succ k hk, by omega, h.offset_succ k hk⟩

theorem Grouped.tiling (h : Grouped phys addrStart (max nPages 1) s) (hle : addrStart ≤ addrEnd)
    (hpages : ∀ i, i < nPages ↔ pageBase addrStart + pageSize * i < addrEnd)
    (hlast : (s.vec (s.n - 1)).addrEnd = addrEnd) :
    Tiling s.n addrStart addrEnd (fun k => (s.vec k).addrStart) (fun k => (s.vec k).addrEnd) := by
  have hbase := pageBase_add_pageOffset addrStart
  have hoff := pageOffset_lt addrStart
  have hbound : ∀ k, k < s.n → (s.vec k).addrStart ≤ addrEnd := by
    intro k hk
    rcases h.start_eq hk with ⟨_, heq, _⟩ | ⟨_, heq, hpos, _⟩
    · omega
    · have hmono := h.page_mono (show k ≤ s.n - 1 by omega) (by omega)
      have hlt := h.page_last
      have := (hpages (s.vec k).pageIdxStart).mp (by omega)
      omega
  refine ⟨h.pos, h.start_first, hlast, h.end_link, ?_⟩
  intro k hk
  by_cases hnext : k + 1 < s.n
  · have hlt := h.page_lt k hnext
    have hmul := Nat.mul_lt_mul_of_pos_left hlt (show 0 < pageSize by decide)
    rw [h.end_link k hnext, h.start_succ k hnext]
    rcases h.start_eq hk with ⟨_, heq, hzero⟩ | ⟨_, heq, _⟩
    · have hone := Nat.mul_le_mul_left pageSize hlt
      rw [hzero] at hone
      omega
    · omega
  · obtain rfl : k = s.n - 1 := by omega
    rw [hlast]
    exact hbound _ hk

/-- There is at least one segment. -/
theorem memMapSg_pos (pages : Nat → Nat) (nPages addrStart addrEnd : Nat) :
    0 < (memMapSg pages nPages addrStart addrEnd).n := by
  apply List.foldlRecOn (motive := fun s : Segments => 0 < s.n) (List.range' 1 (nPages - 1))
  · exact Nat.one_pos
  · intro s hs i _
    simp only [mapSgStep]
    split_ifs
    · exact Nat.succ_pos s.n
    · exact hs
    · exact Nat.succ_pos s.n
    · exact hs

/-- What `pulp_mem_map_sg` computes for the pages of a range. -/
theorem memMapSg_spec (hle : addrStart ≤ addrEnd) (hend : addrEnd ≤ 2 ^ 32)
    (hpages : ∀ i, i < nPages ↔ pageBase addrStart + pageSize * i < addrEnd) :
    Segmented (fun i => pageToPhys (pages i)) nPages addrStart addrEnd
      (memMapSg pages nPages addrStart addrEnd) := by
  have hloop := mapSgLoop_spec (fun i => pageToPhys (pages i)) addrStart addrEnd
    (le_refl (nPages - 1)) (fun i hi => ((hpages i).mp hi).trans_le hend)
  simp only [memMapSg]
  generalize (List.range' 1 (nPages - 1)).foldl _ _ = s at hloop ⊢
  have hmax : 1 + (nPages - 1) = max nPages 1 := by omega
  rw [hmax] at hloop
  have hclosed := hloop.2 (le_max_left _ _)
  have hgroup := hloop.1.setOffset (pageToPhys (pages 0) + pageOffset addrStart)
  have hlast := s.setOffset_bounds (pageToPhys (pages 0) + pageOffset addrStart) (s.n - 1)
  refine ⟨hgroup, hgroup.tiling hle hpages (hlast.2.1.trans hclosed.1), ?_, ?_⟩
  · rw [s.setOffset_vec_first]
  · rw [show (s.setOffset _).n = s.n from rfl, hlast.2.2.2]
    exact hclosed.2

private theorem exists_page (hpages : ∀ i, i < nPages ↔ pageBase addrStart + pageSize * i < addrEnd)
    {va : Nat} (hlo : addrStart ≤ va) (hhi : va < addrEnd) :
    ∃ p, p < nPages ∧ va / pageSize = addrStart / pageSize + p ∧
      va = pageBase addrStart + pageSize * p + pageOffset va := by
  have hle : addrStart / pageSize ≤ va / pageSize := Nat.div_le_div_right hlo
  obtain ⟨p, hp⟩ : ∃ p, va / pageSize = addrStart / pageSize + p := Nat.exists_eq_add_of_le hle
  have hva := pageBase_add_pageOffset va
  have hbase : pageBase va = pageBase addrStart + pageSize * p := by
    rw [pageBase, pageBase, hp]
    ring
  have hlt : p < nPages := by
    rw [hpages]
    omega
  exact ⟨p, hlt, hp, by omega⟩

private theorem lt_of_page_lt {b p q off : Nat} (h : b + pageSize * p + off < b + pageSize * q) :
    p < q := by
  have hmul : pageSize * p < pageSize * q := by omega
  exact Nat.lt_of_mul_lt_mul_left hmul

private theorem le_of_page_le {b p q off : Nat} (hoff : off < pageSize)
    (h : b + pageSize * q ≤ b + pageSize * p + off) : q ≤ p := by
  have hmul : pageSize * q < pageSize * (p + 1) := by
    rw [Nat.mul_succ]
    omega
  exact Nat.lt_succ_iff.mp (Nat.lt_of_mul_lt_mul_left hmul)

namespace Segmented

/-- A segment translates each address of its range to the page the address lies in. -/
theorem translates (h : Segmented phys nPages addrStart addrEnd s)
    (hpages : ∀ i, i < nPages ↔ pageBase addrStart + pageSize * i < addrEnd) {k va : Nat}
    (hk : k < s.n) (hlo : (s.vec k).addrStart ≤ va) (hhi : va < (s.vec k).addrEnd) :
    (s.vec k).addrOffset + (va - (s.vec k).addrStart) =
      phys (va / pageSize - addrStart / pageSize) + pageOffset va := by
  have hbase := pageBase_add_pageOffset addrStart
  have hoff := pageOffset_lt va
  obtain ⟨p, hlt, hp, hva⟩ :=
    exists_page hpages ((h.tiling.le_lo hk).trans hlo) (hhi.trans_le (h.tiling.hi_le hk))
  have hnext : k + 1 < s.n → p < (s.vec (k + 1)).pageIdxStart := by
    intro hk'
    rw [h.end_link k hk', h.start_succ k hk', hva] at hhi
    exact lt_of_page_lt hhi
  rw [hp, Nat.add_sub_cancel_left]
  rcases h.start_eq hk with ⟨rfl, hstart, hpage⟩ | ⟨_, hstart, _, hoffset⟩
  · have hrun := h.contiguous 0 p hk (by omega) hnext (by omega)
    rw [hpage, Nat.sub_zero] at hrun
    rw [hstart] at hlo
    rw [h.offset_first, hrun, hstart]
    omega
  · rw [hstart, hva] at hlo
    have hpage := le_of_page_le hoff hlo
    have hmul := Nat.mul_le_mul_left pageSize hpage
    rw [h.contiguous k p hk hpage hnext (by omega), hoffset, hstart, Nat.mul_sub]
    omega

theorem page_le (h : Segmented phys nPages addrStart addrEnd s) {k : Nat} (hk : k < s.n) :
    (s.vec k).pageIdxStart ≤ (s.vec k).pageIdxEnd := by
  by_cases hnext : k + 1 < s.n
  · have hlt := h.page_lt k hnext
    have hlink := h.page_link k hnext
    omega
  · have hend := h.page_end
    have hpage := h.page_last
    rw [show s.n - 1 = k by omega] at hend hpage
    omega

/-- The page ranges are laid end to end. -/
theorem pages_tiling (h : Segmented phys nPages addrStart addrEnd s) (hn : 0 < nPages) :
    Tiling s.n 0 nPages (fun k => (s.vec k).pageIdxStart) (fun k => (s.vec k).pageIdxEnd + 1) where
  pos := h.pos
  first := h.page_first
  last := by
    rw [h.page_end]
    omega
  link := h.page_link
  le := by
    intro k hk
    exact (h.page_le hk).trans (Nat.le_succ _)

/-- Each page of a segment but the first follows its predecessor. -/
theorem page_succ (h : Segmented phys nPages addrStart addrEnd s) (hn : 0 < nPages) {k p : Nat}
    (hk : k < s.n) (hlo : (s.vec k).pageIdxStart < p) (hhi : p ≤ (s.vec k).pageIdxEnd) :
    phys p = phys (p - 1) + pageSize := by
  have hle := (h.pages_tiling hn).hi_le hk
  have hnext : ∀ q, q ≤ p → k + 1 < s.n → q < (s.vec (k + 1)).pageIdxStart := by
    intro q hq hk'
    have hlink := h.page_link k hk'
    omega
  rw [h.contiguous k p hk (by omega) (hnext p le_rfl) (by omega),
    h.contiguous k (p - 1) hk (by omega) (hnext (p - 1) (by omega)) (by omega), Nat.add_assoc,
    ← Nat.mul_succ]
  congr 2
  omega

/-- A segment starts in its first page. -/
theorem start_split (h : Segmented phys nPages addrStart addrEnd s) {k : Nat} (hk : k < s.n) :
    (s.vec k).addrStart =
      pageBase addrStart + pageSize * (s.vec k).pageIdxStart + pageOffset (s.vec k).addrStart := by
  rcases h.start_eq hk with ⟨_, hstart, hpage⟩ | ⟨_, hstart, _⟩
  · have hbase := pageBase_add_pageOffset addrStart
    rw [hpage, hstart, Nat.mul_zero, Nat.add_zero, hbase]
  · have hzero : pageOffset (s.vec k).addrStart = 0 := by
      rw [hstart, pageOffset, pageBase, Nat.add_mul_mod_self_left, Nat.mul_mod_left]
    rw [hzero, Nat.add_zero]
    exact hstart

/-- The addresses of a segment lie in its pages. -/
theorem page_mem (h : Segmented phys nPages addrStart addrEnd s)
    (hpages : ∀ i, i < nPages ↔ pageBase addrStart + pageSize * i < addrEnd) {k va : Nat}
    (hk : k < s.n) (hlo : (s.vec k).addrStart ≤ va) (hhi : va < (s.vec k).addrEnd) :
    ∃ p, va / pageSize - addrStart / pageSize = p ∧
      va = pageBase addrStart + pageSize * p + pageOffset va ∧
        (s.vec k).pageIdxStart ≤ p ∧ p ≤ (s.vec k).pageIdxEnd := by
  have hoff := pageOffset_lt va
  obtain ⟨p, hlt, hp, hva⟩ :=
    exists_page hpages ((h.tiling.le_lo hk).trans hlo) (hhi.trans_le (h.tiling.hi_le hk))
  refine ⟨p, by omega, hva, ?_, ?_⟩
  · have hsplit := h.start_split hk
    have hbelow : pageBase addrStart + pageSize * (s.vec k).pageIdxStart ≤
        pageBase addrStart + pageSize * p + pageOffset va := by omega
    exact le_of_page_le hoff hbelow
  · by_cases hnext : k + 1 < s.n
    · have hlink := h.page_link k hnext
      rw [h.end_link k hnext, h.start_succ k hnext, hva] at hhi
      have hlt := lt_of_page_lt hhi
      omega
    · have hend := h.page_end
      rw [show s.n - 1 = k by omega] at hend
      omega

/-- The border below a page of a segment lies in the segment, unless the page is its first. -/
theorem border_mem (h : Segmented phys nPages addrStart addrEnd s)
    (hpages : ∀ i, i < nPages ↔ pageBase addrStart + pageSize * i < addrEnd) {k p : Nat}
    (hk : k < s.n) (hlo : (s.vec k).pageIdxStart < p) (hhi : p ≤ (s.vec k).pageIdxEnd) :
    (s.vec k).addrStart < pageBase addrStart + pageSize * p ∧
      pageBase addrStart + pageSize * p < (s.vec k).addrEnd := by
  constructor
  · have hsplit := h.start_split hk
    have hoff := pageOffset_lt (s.vec k).addrStart
    have hmul := Nat.mul_le_mul_left pageSize (show (s.vec k).pageIdxStart + 1 ≤ p from hlo)
    rw [Nat.mul_succ] at hmul
    omega
  · by_cases hnext : k + 1 < s.n
    · have hlink := h.page_link k hnext
      have hmul := Nat.mul_lt_mul_of_pos_left (show p < (s.vec (k + 1)).pageIdxStart by omega)
        (show 0 < pageSize by decide)
      rw [h.end_link k hnext, h.start_succ k hnext]
      omega
    · have hend := h.page_end
      have hlast := h.tiling.last
      rw [show s.n - 1 = k by omega] at hend hlast
      rw [hlast, ← hpages]
      omega

theorem start_lt (h : Segmented phys nPages addrStart addrEnd s) {k l : Nat} (hkl : k < l)
    (hl : l < s.n) : (s.vec k).addrStart < (s.vec l).addrStart := by
  have hbase := pageBase_add_pageOffset addrStart
  have hoff := pageOffset_lt addrStart
  rcases h.start_eq hl with ⟨hzero, _⟩ | ⟨_, hstart, hpos, _⟩
  · omega
  · rw [hstart]
    rcases h.start_eq (hkl.trans hl) with ⟨_, hstart', _⟩ | ⟨_, hstart', _⟩
    · have hmul := Nat.mul_le_mul_left pageSize hpos
      omega
    · have hlt := h.page_lt k (by omega)
      have hmono := h.page_mono hkl hl
      have hmul := Nat.mul_lt_mul_of_pos_left (hlt.trans_le hmono) (show 0 < pageSize by decide)
      omega

/-- Segments that start on pages are at least as long as their pages. -/
theorem start_add_le (h : Segmented phys nPages addrStart addrEnd s) {k l : Nat} (hk : 0 < k)
    (hkl : k ≤ l) (hl : l < s.n) :
    (s.vec k).addrStart + pageSize * (l - k) ≤ (s.vec l).addrStart := by
  induction l with
  | zero => omega
  | succ l ih =>
    rcases Nat.le_succ_iff.mp hkl with hle | rfl
    · have hprev := ih hle (by omega)
      have hlt := h.page_lt l hl
      rcases h.start_eq (show l < s.n by omega) with ⟨hzero, _⟩ | ⟨_, hstart, _⟩
      · omega
      · rw [h.start_succ l hl, show l + 1 - k = l - k + 1 by omega, Nat.mul_succ]
        have hmul := Nat.mul_le_mul_left pageSize hlt
        rw [Nat.mul_succ] at hmul
        omega
    · simp

theorem pageOffset_start (h : Segmented phys nPages addrStart addrEnd s) {k : Nat} (hk : 0 < k)
    (hn : k < s.n) : pageOffset (s.vec k).addrStart = 0 := by
  rcases h.start_eq hn with ⟨hzero, _⟩ | ⟨_, hstart, _⟩
  · omega
  · rw [hstart, pageOffset, pageBase, Nat.add_mul_mod_self_left, Nat.mul_mod_left]

/-- The first segment holds exactly the first run of physically contiguous pages. -/
theorem lt_second_iff (h : Segmented phys nPages addrStart addrEnd s)
    (hpages : ∀ i, i < nPages ↔ pageBase addrStart + pageSize * i < addrEnd) {va : Nat}
    (hlo : addrStart ≤ va) (hhi : va < addrEnd) :
    (1 < s.n → va < (s.vec 1).addrStart) ↔
      ∀ i, i < va / pageSize - addrStart / pageSize → phys (i + 1) = phys i + pageSize := by
  obtain ⟨p, hlt, hp, hva⟩ := exists_page hpages hlo hhi
  rw [hp, Nat.add_sub_cancel_left]
  constructor
  · intro hfirst i hi
    have hin : ∀ q, q ≤ p → 0 + 1 < s.n → q < (s.vec (0 + 1)).pageIdxStart := by
      intro q hq hn
      have hva' := hfirst hn
      rw [show (s.vec 1).addrStart = _ from h.start_succ 0 hn, hva] at hva'
      exact lt_of_le_of_lt hq (lt_of_page_lt hva')
    have hrun : ∀ q, q ≤ p → phys q = phys 0 + pageSize * q := by
      intro q hq
      have hc := h.contiguous 0 q h.pos (by have := h.page_first; omega) (hin q hq) (by omega)
      rwa [h.page_first, Nat.sub_zero] at hc
    rw [hrun i (by omega), hrun (i + 1) (by omega), Nat.mul_succ]
    omega
  · intro hrun hn
    by_contra hge
    rw [show (s.vec 1).addrStart = _ from h.start_succ 0 hn, hva, not_lt] at hge
    have hpage := le_of_page_le (pageOffset_lt va) hge
    have hpos := h.page_lt 0 hn
    have hcont := hrun ((s.vec (0 + 1)).pageIdxStart - 1) (by omega)
    rw [Nat.sub_add_cancel (by omega)] at hcont
    exact h.broken 0 hn hcont

end Segmented

end

end Hero.Driver
