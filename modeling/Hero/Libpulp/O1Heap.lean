import Hero.Framework.Arena
import Mathlib.Logic.Function.Basic
import Mathlib.Algebra.Order.Group.Nat

/-!
# The heap manager

The constant-time allocator the library is linked with: an arena of fragments whose free ones are
kept in bins by the logarithms of their sizes.
-/

namespace Hero.Libpulp

open Arena

/-- The size of pointers -/
inductive PtrWidth where
  | bits32
  | bits64
  deriving DecidableEq, Repr

namespace PtrWidth

variable (w : PtrWidth)

/-- `sizeof(void*)` -/
def bytes : PtrWidth → Nat
  | .bits32 => 4
  | .bits64 => 8

/-- `O1HEAP_ALIGNMENT` -/
def alignment : Nat := w.bytes * 4

/-- `FRAGMENT_SIZE_MIN` -/
def fragmentSizeMin : Nat := w.alignment * 2

/-- `FRAGMENT_SIZE_MAX` -/
def fragmentSizeMax : PtrWidth → Nat
  | .bits32 => 2147483648
  | .bits64 => 9223372036854775808

/-- `NUM_BINS_MAX` -/
def numBinsMax : Nat := w.bytes * 8

/-- `INSTANCE_SIZE_PADDED` -/
def instanceSizePadded : PtrWidth → Nat
  | .bits32 => 176
  | .bits64 => 576

end PtrWidth

def isPowerOf2 (x : Nat) : Bool := x &&& (x - 1) = 0

def log2Floor (x : Nat) : Nat := x.log2

def log2Ceil (x : Nat) : Nat := log2Floor x + if isPowerOf2 x then 0 else 1

/-- `O1HeapInstance` at `base`, with its fragments in the order of their addresses. -/
structure O1Heap where
  base : Nat
  capacity : Nat
  frags : List Fragment
  bins : Nat → List Nat

namespace O1Heap

variable (w : PtrWidth) (h : O1Heap)

/-- The bin of a free fragment -/
def binIdx (size : Nat) : Nat := log2Floor (size / w.fragmentSizeMin)

def rebin (a size : Nat) : O1Heap :=
  let idx := binIdx w size
  { h with bins := Function.update h.bins idx (a :: h.bins idx) }

def unbin (a size : Nat) : O1Heap :=
  let idx := binIdx w size
  { h with bins := Function.update h.bins idx ((h.bins idx).erase a) }

/-- `o1heapInit` -/
def o1heapInit (base size : Nat) : Option O1Heap :=
  if base ≠ 0 ∧ base % w.alignment = 0 ∧ w.instanceSizePadded + w.fragmentSizeMin ≤ size then
    let capacity := min (size - w.instanceSizePadded) w.fragmentSizeMax
    let capacity := capacity - capacity % w.fragmentSizeMin
    let frag := base + w.instanceSizePadded
    some (rebin w ⟨base, capacity, [⟨frag, capacity, false⟩], fun _ => []⟩ frag capacity)
  else none

/-- The size of the fragment at `a` -/
def sizeOf (a : Nat) : Nat := ((h.frags.find? (·.start = a)).map Fragment.size).getD 0

/-- The size of the fragment for a request -/
def fragmentSize (amount : Nat) : Nat := 2 ^ log2Ceil (amount + w.alignment)

/-- The free fragment a request is served from: the first one of the smallest bin whose fragments are
all large enough. -/
def candidate (amount : Nat) : Option Nat :=
  if 0 < amount ∧ amount ≤ h.capacity - w.alignment then
    let optimalBinIndex := log2Ceil (fragmentSize w amount / w.fragmentSizeMin)
    let binIndex := (List.range w.numBinsMax).find? fun k => optimalBinIndex ≤ k ∧ h.bins k ≠ []
    binIndex.bind fun k => (h.bins k).head?
  else none

/-- Cut the fragment at `a` for a request. -/
def take (a amount : Nat) : O1Heap :=
  let size := fragmentSize w amount
  let leftover := h.sizeOf a - size
  let h := h.unbin w a (h.sizeOf a)
  if w.fragmentSizeMin ≤ leftover then
    rebin w { h with frags := replace a [⟨a, size, true⟩, ⟨a + size, leftover, false⟩] h.frags }
      (a + size) leftover
  else { h with frags := replace a [⟨a, size, true⟩] h.frags }

/-- `o1heapAllocate` -/
def o1heapAllocate (amount : Nat) : Option Nat × O1Heap :=
  match h.candidate w amount with
  | none => (none, h)
  | some a => (some (a + w.alignment), h.take w a amount)

/-- The free neighbour in front of a fragment and the one behind it -/
def joinLeft (a : Nat) : Option Fragment :=
  (h.frags.find? fun f => f.start + f.size = a).filter fun f => !f.used

def joinRight (a : Nat) : Option Fragment :=
  (h.frags.find? fun f => f.start = a + h.sizeOf a).filter fun f => !f.used

/-- Mark the fragment at `a` as free. -/
def markFree (a : Nat) : O1Heap :=
  { h with frags := replace a [⟨a, h.sizeOf a, false⟩] h.frags }

/-- Add the neighbour behind the fragment at `a` to it if that is free. -/
def mergeNext (a : Nat) : O1Heap :=
  match h.joinRight a with
  | some next =>
    { h.unbin w next.start next.size with frags := merge a next.start next.size h.frags }
  | none => h

/-- Add the fragment at `a` to a free neighbour in front of it, and put the result into a bin. -/
def mergePrev (a : Nat) : Option Fragment → O1Heap
  | some prev =>
    let size := h.sizeOf a
    let h := { h.unbin w prev.start prev.size with frags := merge prev.start a size h.frags }
    h.rebin w prev.start (prev.size + size)
  | none => h.rebin w a (h.sizeOf a)

/-- `o1heapFree` -/
def o1heapFree (pointer : Nat) : O1Heap :=
  let a := pointer - w.alignment
  let h := h.markFree a
  (h.mergeNext w a).mergePrev w a (h.joinLeft a)

/-- What the bins say about the fragments. -/
structure Binned (frags : List Fragment) (bins : Nat → List Nat) : Prop where
  free : ∀ k, ∀ a ∈ bins k, ∃ f ∈ frags, f.start = a ∧ f.used = false ∧ binIdx w f.size = k
  nodup : ∀ k, (bins k).Nodup

/-- The fragments cover the arena, in units of the smallest size, and the bins hold free ones. -/
structure Inv : Prop where
  tiles : Tiles (h.base + w.instanceSizePadded) (h.base + w.instanceSizePadded + h.capacity) h.frags
  units : ∀ f ∈ h.frags, f.size % w.fragmentSizeMin = 0
  aligned : h.base % w.alignment = 0
  binned : Binned w h.frags h.bins

section

variable {w : PtrWidth} {h : O1Heap} {a : Nat} {f g : Fragment}

theorem le_two_pow_log2Ceil (x : Nat) : x ≤ 2 ^ log2Ceil x := by
  rw [log2Ceil, log2Floor]
  cases hpow : isPowerOf2 x with
  | false => exact Nat.le_of_lt Nat.lt_log2_self
  | true =>
    by_cases hx : x = 0
    · subst hx
      exact Nat.zero_le _
    · rw [isPowerOf2, decide_eq_true_eq, Nat.and_sub_one_eq_zero_iff_isPowerOfTwo hx] at hpow
      obtain ⟨k, rfl⟩ := hpow
      simp [Nat.log2_two_pow]

/-- A fragment holds the request behind its header, and is made of the smallest ones. -/
theorem fragmentSize_spec {amount : Nat} (hpos : 0 < amount) :
    amount + w.alignment ≤ fragmentSize w amount ∧
      fragmentSize w amount % w.fragmentSizeMin = 0 := by
  have hle : amount + w.alignment ≤ fragmentSize w amount := le_two_pow_log2Ceil _
  refine ⟨hle, ?_⟩
  rw [fragmentSize] at hle ⊢
  generalize log2Ceil (amount + w.alignment) = k at hle ⊢
  apply Nat.mod_eq_zero_of_dvd
  cases w with
  | bits32 =>
    have hk : 4 < k := (Nat.pow_lt_pow_iff_right (by decide : 1 < 2)).mp (by
      simp only [PtrWidth.alignment, PtrWidth.bytes] at hle
      omega)
    exact Nat.pow_dvd_pow 2 hk
  | bits64 =>
    have hk : 5 < k := (Nat.pow_lt_pow_iff_right (by decide : 1 < 2)).mp (by
      simp only [PtrWidth.alignment, PtrWidth.bytes] at hle
      omega)
    exact Nat.pow_dvd_pow 2 hk

theorem fragmentSizeMin_pos : 0 < w.fragmentSizeMin := by
  cases w <;> decide

/-- The size of a fragment in a bin that is looked at is sufficient. -/
theorem fragmentSize_le {amount k size : Nat} (hpos : 0 < amount)
    (hk : log2Ceil (fragmentSize w amount / w.fragmentSizeMin) ≤ k) (hsize : 0 < size)
    (hunit : size % w.fragmentSizeMin = 0) (hidx : binIdx w size = k) : fragmentSize w amount ≤ size := by
  have hunit' := (fragmentSize_spec (w := w) hpos).2
  have hdiv : size / w.fragmentSizeMin ≠ 0 := by
    intro hzero
    have hsum := Nat.div_add_mod size w.fragmentSizeMin
    rw [hzero, hunit] at hsum
    omega
  have hquot : fragmentSize w amount / w.fragmentSizeMin ≤ size / w.fragmentSizeMin := by
    calc fragmentSize w amount / w.fragmentSizeMin
        ≤ 2 ^ log2Ceil (fragmentSize w amount / w.fragmentSizeMin) := le_two_pow_log2Ceil _
      _ ≤ 2 ^ k := Nat.pow_le_pow_right (by decide) hk
      _ ≤ size / w.fragmentSizeMin := by
        rw [← hidx, binIdx]
        exact Nat.log2_self_le hdiv
  have hsize' := Nat.div_add_mod size w.fragmentSizeMin
  have hamount := Nat.div_add_mod (fragmentSize w amount) w.fragmentSizeMin
  have hmul := Nat.mul_le_mul_left w.fragmentSizeMin hquot
  omega

theorem Inv.sizeOf_eq (hinv : Inv w h) (hf : f ∈ h.frags) : h.sizeOf f.start = f.size := by
  have hfind : h.frags.find? (·.start = f.start) = some f := by
    cases hres : h.frags.find? (·.start = f.start) with
    | none => simpa using List.find?_eq_none.mp hres f hf
    | some g =>
      have hg := List.find?_some hres
      have hstart : g.start = f.start := by simpa using hg
      rw [hinv.tiles.eq_of_start (List.mem_of_find?_eq_some hres) hf hstart]
  rw [sizeOf, hfind]
  rfl

theorem unbin_bins (n k : Nat) : (h.unbin w a n).bins k =
    if k = binIdx w n then (h.bins k).erase a else h.bins k := by
  by_cases hk : k = binIdx w n <;> simp [O1Heap.unbin, hk]

theorem rebin_bins (n k : Nat) : (h.rebin w a n).bins k =
    if k = binIdx w n then a :: h.bins k else h.bins k := by
  by_cases hk : k = binIdx w n <;> simp [O1Heap.rebin, hk]

theorem Binned.unbin (hb : Binned w h.frags h.bins)
    (htiles : Tiles (h.base + w.instanceSizePadded) (h.base + w.instanceSizePadded + h.capacity) h.frags)
    (hf : f ∈ h.frags) : Binned w h.frags (h.unbin w f.start f.size).bins ∧
      ∀ k, ∀ b ∈ (h.unbin w f.start f.size).bins k, b ≠ f.start ∧ b ∈ h.bins k := by
  have hmem : ∀ k, ∀ b ∈ (h.unbin w f.start f.size).bins k, b ≠ f.start ∧ b ∈ h.bins k := by
    intro k b hb'
    rw [unbin_bins] at hb'
    by_cases hk : k = binIdx w f.size
    · rw [if_pos hk, (hb.nodup _).mem_erase_iff] at hb'
      exact hb'
    · rw [if_neg hk] at hb'
      refine ⟨?_, hb'⟩
      intro heq
      obtain ⟨g, hg, hstart, -, hidx⟩ := hb.free k b hb'
      rw [htiles.eq_of_start hg hf (hstart.trans heq)] at hidx
      exact hk hidx.symm
  refine ⟨⟨fun k b hb' => hb.free k b (hmem k b hb').2, ?_⟩, hmem⟩
  intro k
  rw [unbin_bins]
  split
  · exact (hb.nodup k).erase _
  · exact hb.nodup k

/-- The bins do not care about fragments that are in none of them. -/
theorem Binned.frags {l l' : List Fragment} {bins : Nat → List Nat} (hb : Binned w l bins)
    (hkeep : ∀ k, ∀ b ∈ bins k, ∀ f ∈ l, f.start = b → f ∈ l') : Binned w l' bins := by
  refine ⟨?_, hb.nodup⟩
  intro k b hmem
  obtain ⟨f, hf, hstart, hfree, hidx⟩ := hb.free k b hmem
  exact ⟨f, hkeep k b hmem f hf hstart, hstart, hfree, hidx⟩

theorem Binned.rebin (hb : Binned w h.frags h.bins) (hf : f ∈ h.frags) (hfree : f.used = false)
    (hnot : ∀ k, f.start ∉ h.bins k) : Binned w h.frags (h.rebin w f.start f.size).bins := by
  constructor
  · intro k b hmem
    rw [rebin_bins] at hmem
    split at hmem
    · next hk =>
      cases hmem with
      | head => exact ⟨f, hf, rfl, hfree, hk.symm⟩
      | tail _ hmem => exact hb.free k b hmem
    · exact hb.free k b hmem
  · intro k
    rw [rebin_bins]
    split
    · exact List.nodup_cons.mpr ⟨hnot k, hb.nodup k⟩
    · exact hb.nodup k

/-- The invariant but for one free fragment that is in no bin. -/
structure Loose (w : PtrWidth) (h : O1Heap) (f : Fragment) : Prop extends Inv w h where
  mem : f ∈ h.frags
  free : f.used = false
  notBinned : ∀ k, f.start ∉ h.bins k

theorem Loose.rebin (hf : Loose w h f) : Inv w (h.rebin w f.start f.size) :=
  ⟨hf.tiles, hf.units, hf.aligned, hf.binned.rebin hf.mem hf.free hf.notBinned⟩

/-- Serving a request cuts a used fragment from the free one and keeps the other ones. -/
theorem Inv.take (hinv : Inv w h) {amount : Nat} (hpos : 0 < amount) (hf : f ∈ h.frags)
    (hle : fragmentSize w amount ≤ f.size) : Inv w (h.take w f.start amount) ∧
      ⟨f.start, fragmentSize w amount, true⟩ ∈ (h.take w f.start amount).frags ∧
      (∀ g ∈ h.frags, g.start ≠ f.start → g ∈ (h.take w f.start amount).frags) ∧
      (h.take w f.start amount).base = h.base := by
  obtain ⟨hamount, hunit⟩ := fragmentSize_spec (w := w) hpos
  obtain ⟨hbinned, hbins⟩ := hinv.binned.unbin hinv.tiles hf
  have hmin := fragmentSizeMin_pos (w := w)
  have hfunit := hinv.units f hf
  have hrest : (f.size - fragmentSize w amount) % w.fragmentSizeMin = 0 :=
    Nat.mod_eq_zero_of_dvd (Nat.dvd_sub (Nat.dvd_of_mod_eq_zero hfunit) (Nat.dvd_of_mod_eq_zero hunit))
  have hkeep : ∀ new, ∀ g ∈ h.frags, g.start ≠ f.start → g ∈ replace f.start new h.frags :=
    fun new g hg hne => mem_replace.mpr (Or.inl ⟨hg, hne⟩)
  have hnew : ∀ new, ∀ g ∈ new, g ∈ replace f.start new h.frags :=
    fun new g hg => mem_replace.mpr (Or.inr ⟨⟨f, hf, rfl⟩, hg⟩)
  have hbinned' : ∀ new, Binned w (replace f.start new h.frags) (h.unbin w f.start f.size).bins :=
    fun new => hbinned.frags fun k b hb g hg hstart =>
      hkeep new g hg (hstart ▸ (hbins k b hb).1)
  rw [O1Heap.take, hinv.sizeOf_eq hf]
  split
  · next hleft =>
    have hnot : ∀ k, f.start + fragmentSize w amount ∉ (h.unbin w f.start f.size).bins k := by
      intro k hb
      obtain ⟨g, hg, hstart, -, -⟩ := hinv.binned.free k _ (hbins k _ hb).2
      have hgpos := (hinv.tiles.mem hg).2.1
      have hne : f ≠ g := by
        intro heq
        subst heq
        omega
      have hdisj := hinv.tiles.disjoint hf hg hne
      omega
    have hloose : Loose w { h.unbin w f.start f.size with
        frags := replace f.start [⟨f.start, fragmentSize w amount, true⟩,
          ⟨f.start + fragmentSize w amount, f.size - fragmentSize w amount, false⟩] h.frags }
        ⟨f.start + fragmentSize w amount, f.size - fragmentSize w amount, false⟩ := by
      refine ⟨⟨?_, ?_, hinv.aligned, hbinned' _⟩, hnew _ _ (by simp), rfl, hnot⟩
      · apply hinv.tiles.replace hf
        refine ⟨rfl, ?_, rfl, ?_, ?_⟩
        · change 0 < fragmentSize w amount
          omega
        · change 0 < f.size - fragmentSize w amount
          omega
        · change f.start + fragmentSize w amount + (f.size - fragmentSize w amount) = _
          omega
      · intro g hg
        obtain ⟨hg, -⟩ | ⟨-, hg⟩ := mem_replace.mp hg
        · exact hinv.units g hg
        · simp only [List.mem_cons, List.not_mem_nil, or_false] at hg
          obtain rfl | rfl := hg
          · exact hunit
          · exact hrest
    exact ⟨hloose.rebin, hnew _ _ (by simp), hkeep _, rfl⟩
  · next hleft =>
    have hzero : f.size - fragmentSize w amount = 0 := by
      rw [Nat.mod_eq_of_lt (by omega)] at hrest
      exact hrest
    refine ⟨⟨?_, ?_, hinv.aligned, hbinned' _⟩, hnew _ _ (by simp), hkeep _, rfl⟩
    · apply hinv.tiles.replace hf
      refine ⟨rfl, ?_, ?_⟩
      · change 0 < fragmentSize w amount
        omega
      · change f.start + fragmentSize w amount = _
        omega
    · intro g hg
      obtain ⟨hg, -⟩ | ⟨-, hg⟩ := mem_replace.mp hg
      · exact hinv.units g hg
      · rw [List.mem_singleton] at hg
        subst hg
        exact hunit

/-- Merging the free fragment with a free neighbour behind it -/
theorem Loose.mergeRight (hf : Loose w h f) (hg : g ∈ h.frags)
    (hnext : f.start + f.size = g.start) :
    Loose w { h.unbin w g.start g.size with frags := merge f.start g.start g.size h.frags }
      { f with size := f.size + g.size } := by
  obtain ⟨hbinned, hbins⟩ := hf.binned.unbin hf.tiles hg
  have hpos := (hf.tiles.mem hf.mem).2.1
  have hmem : ∀ x, x ∈ merge f.start g.start g.size h.frags ↔
      (x ∈ h.frags ∧ x.start ≠ f.start ∧ x.start ≠ g.start) ∨ x = { f with size := f.size + g.size } :=
    fun x => mem_merge hf.tiles hf.mem (by omega)
  refine ⟨⟨hf.tiles.merge hf.mem hg hnext, ?_, hf.aligned, ?_⟩, (hmem _).mpr (Or.inr rfl), hf.free, ?_⟩
  · intro x hx
    obtain ⟨hx, -⟩ | rfl := (hmem x).mp hx
    · exact hf.units x hx
    · change (f.size + g.size) % _ = 0
      rw [Nat.add_mod, hf.units f hf.mem, hf.units g hg]
      simp
  · apply hbinned.frags
    intro k b hb x hx hstart
    obtain ⟨hbg, hb'⟩ := hbins k b hb
    refine (hmem x).mpr (Or.inl ⟨hx, ?_, hstart ▸ hbg⟩)
    intro heq
    exact hf.notBinned k (heq ▸ hstart ▸ hb')
  · intro k hb
    exact hf.notBinned k (hbins k _ hb).2

/-- Merging the free fragment into a free neighbour in front of it -/
theorem Loose.mergeLeft (hf : Loose w h f) (hg : g ∈ h.frags) (hfree : g.used = false)
    (hnext : g.start + g.size = f.start) :
    Loose w { h.unbin w g.start g.size with frags := merge g.start f.start f.size h.frags }
      { g with size := g.size + f.size } := by
  obtain ⟨hbinned, hbins⟩ := hf.binned.unbin hf.tiles hg
  have hpos := (hf.tiles.mem hg).2.1
  have hmem : ∀ x, x ∈ merge g.start f.start f.size h.frags ↔
      (x ∈ h.frags ∧ x.start ≠ g.start ∧ x.start ≠ f.start) ∨ x = { g with size := g.size + f.size } :=
    fun x => mem_merge hf.tiles hg (by omega)
  refine ⟨⟨hf.tiles.merge hg hf.mem hnext, ?_, hf.aligned, ?_⟩, (hmem _).mpr (Or.inr rfl), hfree, ?_⟩
  · intro x hx
    obtain ⟨hx, -⟩ | rfl := (hmem x).mp hx
    · exact hf.units x hx
    · change (g.size + f.size) % _ = 0
      rw [Nat.add_mod, hf.units f hf.mem, hf.units g hg]
      simp
  · apply hbinned.frags
    intro k b hb x hx hstart
    obtain ⟨hbg, hb'⟩ := hbins k b hb
    refine (hmem x).mpr (Or.inl ⟨hx, hstart ▸ hbg, ?_⟩)
    intro heq
    exact hf.notBinned k (heq ▸ hstart ▸ hb')
  · intro k hb
    exact (hbins k _ hb).1 rfl

theorem Inv.markFree (hinv : Inv w h) (hf : f ∈ h.frags) (hused : f.used = true) :
    Loose w (h.markFree f.start) ⟨f.start, f.size, false⟩ ∧
      ∀ g ∈ h.frags, g ≠ f → g ∈ (h.markFree f.start).frags := by
  have hkeep : ∀ g ∈ h.frags, g ≠ f → g ∈ (h.markFree f.start).frags := by
    intro g hg hne
    exact mem_replace.mpr (Or.inl ⟨hg, fun heq => hne (hinv.tiles.eq_of_start hg hf heq)⟩)
  have hnot : ∀ k, f.start ∉ h.bins k := by
    intro k hb
    obtain ⟨g, hg, hstart, hfree, -⟩ := hinv.binned.free k _ hb
    rw [hinv.tiles.eq_of_start hg hf hstart, hused] at hfree
    cases hfree
  refine ⟨⟨⟨?_, ?_, hinv.aligned, ?_⟩, ?_, rfl, hnot⟩, hkeep⟩
  · rw [O1Heap.markFree, hinv.sizeOf_eq hf]
    exact hinv.tiles.replace hf ⟨rfl, (hinv.tiles.mem hf).2.1, rfl⟩
  · intro g hg
    rw [O1Heap.markFree, hinv.sizeOf_eq hf] at hg
    obtain ⟨hg, -⟩ | ⟨-, hg⟩ := mem_replace.mp hg
    · exact hinv.units g hg
    · rw [List.mem_singleton] at hg
      subst hg
      exact hinv.units f hf
  · apply hinv.binned.frags
    intro k b hb g hg hstart
    exact hkeep g hg fun heq => hnot k (heq ▸ hstart ▸ hb)
  · rw [O1Heap.markFree, hinv.sizeOf_eq hf]
    exact mem_replace.mpr (Or.inr ⟨⟨f, hf, rfl⟩, by simp⟩)

private theorem join_spec {p : Fragment → Bool} (hjoin : (h.frags.find? p).filter (fun f => !f.used) = some g) :
    g ∈ h.frags ∧ p g = true ∧ g.used = false := by
  obtain ⟨hfind, hfree⟩ := Option.filter_eq_some_iff.mp hjoin
  exact ⟨List.mem_of_find?_eq_some hfind, List.find?_some hfind, by simpa using hfree⟩

private theorem mem_merge_used (hf : f ∈ h.frags) (htiles : Tiles a b h.frags) (hfree : f.used = false)
    {y x : Fragment} (hy : y ∈ h.frags) (hyfree : y.used = false) (hne : f.start ≠ y.start)
    (hx : x ∈ h.frags) (hused : x.used = true) : x ∈ merge f.start y.start y.size h.frags := by
  refine (mem_merge htiles hf hne).mpr (Or.inl ⟨hx, ?_, ?_⟩)
  · intro heq
    rw [htiles.eq_of_start hx hf heq, hfree] at hused
    cases hused
  · intro heq
    rw [htiles.eq_of_start hx hy heq, hyfree] at hused
    cases hused

/-- The free fragment after the merge with the neighbour behind it -/
private theorem Loose.mergeNext (hf : Loose w h f) :
    ∃ x, x.start = f.start ∧ Loose w (h.mergeNext w f.start) x ∧
      (∀ g ∈ h.frags, g.start < f.start ∨ g.used = true → g ∈ (h.mergeNext w f.start).frags) ∧
      (h.mergeNext w f.start).base = h.base := by
  rw [O1Heap.mergeNext]
  cases hright : h.joinRight f.start with
  | none => exact ⟨f, rfl, hf, fun g hg _ => hg, rfl⟩
  | some y =>
    obtain ⟨hy, hstart, hyfree⟩ := join_spec hright
    rw [decide_eq_true_eq, hf.sizeOf_eq hf.mem] at hstart
    have hpos := (hf.tiles.mem hf.mem).2.1
    refine ⟨{ f with size := f.size + y.size }, rfl, hf.mergeRight hy hstart.symm, ?_, rfl⟩
    intro g hg hor
    obtain hlt | hused := hor
    · exact (mem_merge hf.tiles hf.mem (by omega)).mpr (Or.inl ⟨hg, by omega, by omega⟩)
    · exact mem_merge_used hf.mem hf.tiles hf.free hy hyfree (by omega) hg hused

/-- Freeing a fragment keeps the other used ones. -/
theorem Inv.o1heapFree (hinv : Inv w h) (hf : f ∈ h.frags) (hused : f.used = true) :
    Inv w (h.o1heapFree w (f.start + w.alignment)) ∧
      (∀ g ∈ h.frags, g.used = true → g ≠ f → g ∈ (h.o1heapFree w (f.start + w.alignment)).frags) ∧
      (h.o1heapFree w (f.start + w.alignment)).base = h.base := by
  obtain ⟨hfree, hkeep⟩ := hinv.markFree hf hused
  obtain ⟨x, hstart, hx, hkeep', hbase⟩ := hfree.mergeNext
  change x.start = f.start at hstart
  change Loose w ((h.markFree f.start).mergeNext w f.start) x at hx
  rw [O1Heap.o1heapFree, Nat.add_sub_cancel]
  generalize hh' : (h.markFree f.start).mergeNext w f.start = h' at hx
  have hkeep₂ : ∀ g ∈ (h.markFree f.start).frags, g.start < f.start ∨ g.used = true → g ∈ h'.frags :=
    hh' ▸ hkeep'
  have hbase₂ : h'.base = h.base := hh' ▸ hbase
  have hsize : h'.sizeOf f.start = x.size := hstart ▸ hx.sizeOf_eq hx.mem
  cases hleft : (h.markFree f.start).joinLeft f.start with
  | none =>
    simp only [O1Heap.mergePrev, hsize]
    rw [← hstart]
    refine ⟨hx.rebin, ?_, hbase₂⟩
    intro g hg hgused hne
    exact hkeep₂ g (hkeep g hg hne) (Or.inr hgused)
  | some y =>
    obtain ⟨hy, hnext, hyfree⟩ := join_spec hleft
    rw [decide_eq_true_eq] at hnext
    have hpos := (hfree.tiles.mem hy).2.1
    have hy' : y ∈ h'.frags := hkeep₂ y hy (Or.inl (by omega))
    simp only [O1Heap.mergePrev, hsize]
    have hmerged := hx.mergeLeft hy' hyfree (hnext.trans hstart.symm)
    rw [hstart] at hmerged
    refine ⟨hmerged.rebin, ?_, hbase₂⟩
    intro g hg hgused hne
    have hmem := mem_merge_used hy' hx.tiles hyfree hx.mem hx.free (by omega)
      (hkeep₂ g (hkeep g hg hne) (Or.inr hgused)) hgused
    rw [hstart] at hmem
    exact hmem

/-- The fragment a request is served from is free and large enough. -/
theorem Inv.candidate (hinv : Inv w h) {amount : Nat} (hcand : h.candidate w amount = some a) :
    0 < amount ∧ ∃ f ∈ h.frags, f.start = a ∧ f.used = false ∧ fragmentSize w amount ≤ f.size := by
  rw [O1Heap.candidate] at hcand
  split at hcand
  · next hcond =>
    obtain ⟨k, hfind, hhead⟩ := Option.bind_eq_some_iff.mp hcand
    have hk := List.find?_some hfind
    simp only [decide_eq_true_eq] at hk
    obtain ⟨f, hf, hstart, hfree, hidx⟩ := hinv.binned.free k a (List.mem_of_head? hhead)
    refine ⟨hcond.1, f, hf, hstart, hfree, ?_⟩
    exact fragmentSize_le hcond.1 hk.1 (hinv.tiles.mem hf).2.1 (hinv.units f hf) hidx
  · cases hcand

theorem Inv.o1heapAllocate (hinv : Inv w h) (amount : Nat) :
    Inv w (h.o1heapAllocate w amount).2 ∧ (h.o1heapAllocate w amount).2.base = h.base ∧
      ∀ g ∈ h.frags, g.used = true → g ∈ (h.o1heapAllocate w amount).2.frags := by
  rw [O1Heap.o1heapAllocate]
  cases hcand : h.candidate w amount with
  | none => exact ⟨hinv, rfl, fun g hg _ => hg⟩
  | some a =>
    obtain ⟨hpos, f, hf, rfl, hfree, hle⟩ := hinv.candidate hcand
    obtain ⟨hinv', -, hkeep, hbase⟩ := hinv.take hpos hf hle
    refine ⟨hinv', hbase, ?_⟩
    intro g hg hused
    apply hkeep g hg
    intro heq
    rw [hinv.tiles.eq_of_start hg hf heq, hfree] at hused
    cases hused

/-- The block that serves a request lies behind the header of a fragment that was free. -/
theorem Inv.allocated (hinv : Inv w h) {amount p : Nat}
    (hres : (h.o1heapAllocate w amount).1 = some p) :
    ∃ f ∈ h.frags, f.used = false ∧ h.candidate w amount = some f.start ∧ p = f.start + w.alignment ∧
      fragmentSize w amount ≤ f.size ∧ amount + w.alignment ≤ fragmentSize w amount ∧
      ⟨f.start, fragmentSize w amount, true⟩ ∈ (h.o1heapAllocate w amount).2.frags := by
  rw [O1Heap.o1heapAllocate] at hres ⊢
  cases hcand : h.candidate w amount with
  | none =>
    rw [hcand] at hres
    cases hres
  | some a =>
    obtain ⟨hpos, f, hf, rfl, hfree, hle⟩ := hinv.candidate hcand
    rw [hcand] at hres
    cases hres
    exact ⟨f, hf, hfree, rfl, rfl, hle, (fragmentSize_spec hpos).1, (hinv.take hpos hf hle).2.1⟩

/-- A new heap is one free fragment in the arena. -/
theorem inv_init {base size : Nat} (hinit : o1heapInit w base size = some h) : Inv w h ∧
    h.base = base ∧ w.instanceSizePadded + h.capacity ≤ size ∧ ∀ f ∈ h.frags, f.used = false := by
  rw [o1heapInit] at hinit
  split at hinit
  · next hcond =>
    obtain ⟨-, halign, hsize⟩ := hcond
    have hmin := fragmentSizeMin_pos (w := w)
    have hmax : w.fragmentSizeMin ≤ w.fragmentSizeMax := by cases w <;> decide
    simp only [Option.some.injEq] at hinit
    generalize hc : min (size - w.instanceSizePadded) w.fragmentSizeMax = c at hinit
    have hcmin : w.fragmentSizeMin ≤ c ∧ c ≤ size - w.instanceSizePadded := by omega
    have hmod := Nat.mod_lt c hmin
    have hloose : Loose w ⟨base, c - c % w.fragmentSizeMin,
        [⟨base + w.instanceSizePadded, c - c % w.fragmentSizeMin, false⟩], fun _ => []⟩
        ⟨base + w.instanceSizePadded, c - c % w.fragmentSizeMin, false⟩ := by
      refine ⟨⟨⟨rfl, ?_, rfl⟩, ?_, halign, ⟨?_, ?_⟩⟩, by simp, rfl, fun _ => List.not_mem_nil⟩
      · change 0 < c - c % w.fragmentSizeMin
        omega
      · intro f hf
        rw [List.mem_singleton] at hf
        subst hf
        exact Nat.mod_eq_zero_of_dvd (Nat.dvd_sub_mod c)
      · intro k b hb
        cases hb
      · exact fun _ => List.nodup_nil
    subst hinit
    refine ⟨hloose.rebin, rfl, ?_, ?_⟩
    · change _ + (c - _) ≤ size
      omega
    · intro f hf
      change f ∈ [_] at hf
      rw [List.mem_singleton] at hf
      subst hf
      rfl
  · cases hinit

end

end O1Heap

end Hero.Libpulp
