import Hero.Libpulp.O1Heap
import Hero.Driver.Mmap
import Hero.Framework.Machine

/-!
# The contiguous L3 memory

Allocating blocks of the contiguous L3 memory, as the user sees them and as the accelerator does.
-/

namespace Hero.Libpulp

open Rab O1Heap

/-- The size of pointers of the host -/
def ptrWidth (plat : Platform) : PtrWidth := if plat.isZynq then .bits32 else .bits64

/-- The part of `pulp_mmap` that sets up the heap behind the buffer for the standard output; `window`
is the address at which the L3 memory is mapped. -/
def l3HeapInit (plat : Platform) (window : Nat) : Option O1Heap :=
  o1heapInit (ptrWidth plat) (window + 1024 * 1024) plat.l3MemSizeB

/-- The size of an allocation, for the DMA engine -/
def alignSize (sizeB : BitVec 32) : BitVec 32 :=
  if sizeB &&& 0x7#32 ≠ 0#32 then (sizeB &&& ~~~0x7#32) + 0x8#32 else sizeB

/-- `pulp_l3_malloc`: the virtual and the physical address -/
def pulpL3Malloc (plat : Platform) (window : Nat) (heap : O1Heap) (sizeB : BitVec 32) :
    Option (Nat × Nat) × O1Heap :=
  let res := heap.o1heapAllocate (ptrWidth plat) (alignSize sizeB).toNat
  (res.1.map fun vAddr => (vAddr, vAddr - window + l3MemBaseAddr), res.2)

/-- `pulp_l3_free` -/
def pulpL3Free (plat : Platform) (heap : O1Heap) (vAddr : Nat) : O1Heap :=
  heap.o1heapFree (ptrWidth plat) vAddr

/-- The heap and the blocks that were returned and not freed. -/
structure L3State where
  heap : O1Heap
  live : List Nat

inductive L3Op where
  | malloc (sizeB : BitVec 32)
  | free (vAddr : Nat)

/-- Only live blocks are freed. -/
def l3Machine (plat : Platform) (window : Nat) : Machine L3State L3Op Empty := fun s op =>
  match op with
  | .malloc sizeB =>
    let res := pulpL3Malloc plat window s.heap sizeB
    some (⟨res.2, (res.1.map Prod.fst).toList ++ s.live⟩, [])
  | .free vAddr =>
    if vAddr ∈ s.live then some (⟨pulpL3Free plat s.heap vAddr, s.live.filter (· ≠ vAddr)⟩, [])
    else none

/-- The bytes of a block -/
def blockSize (plat : Platform) (heap : O1Heap) (vAddr : Nat) : Nat :=
  let w := ptrWidth plat
  heap.sizeOf (vAddr - w.alignment) - w.alignment

/-- What is asked of a block that is returned. -/
structure BlockOk (plat : Platform) (window : Nat) (s : L3State) (heap : O1Heap) (sizeB : BitVec 32)
    (vAddr pAddr : Nat) : Prop where
  within : window ≤ vAddr ∧ vAddr + sizeB.toNat ≤ window + plat.l3MemSizeB
  size : sizeB.toNat ≤ blockSize plat heap vAddr
  disjoint : ∀ b ∈ s.live, vAddr + blockSize plat heap vAddr ≤ b ∨
    b + blockSize plat heap b ≤ vAddr
  phys : pAddr = l3MemBaseAddr + (vAddr - window)
  inside : l3MemBaseAddr ≤ pAddr ∧ pAddr < l3MemBaseAddr + plat.l3MemSizeB

def L3Op.Good (plat : Platform) (window : Nat) (s : L3State) : L3Op → Prop
  | .malloc sizeB => ∀ vAddr pAddr, (pulpL3Malloc plat window s.heap sizeB).1 = some (vAddr, pAddr) →
    BlockOk plat window s (pulpL3Malloc plat window s.heap sizeB).2 sizeB vAddr pAddr
  | .free _ => True

/-- The free fragment the heap manager takes for the request begins early enough. -/
def L3Op.Early (plat : Platform) (window : Nat) (s : L3State) : L3Op → Prop
  | .malloc sizeB => ∀ a, s.heap.candidate (ptrWidth plat) (alignSize sizeB).toNat = some a →
    a + (ptrWidth plat).alignment + sizeB.toNat ≤ window + plat.l3MemSizeB
  | .free _ => True

instance (plat : Platform) (window : Nat) (s : L3State) :
    ∀ op, Decidable (L3Op.Early plat window s op)
  | .malloc sizeB => inferInstanceAs (Decidable (∀ a ∈ s.heap.candidate (ptrWidth plat)
      (alignSize sizeB).toNat, a + (ptrWidth plat).alignment + sizeB.toNat ≤
        window + plat.l3MemSizeB))
  | .free _ => isTrue trivial

private theorem and_not_seven (x : BitVec 32) : (x &&& ~~~0x7#32).toNat = x.toNat / 8 * 8 := by
  have hshift : x &&& ~~~0x7#32 = x >>> 3 <<< 3 := by
    ext j hj
    have hbit : ∀ j < 32, (0x7#32).getLsbD j = decide (j < 3) := by decide
    have hbit := hbit j hj
    rw [BitVec.getLsbD_eq_getElem hj] at hbit
    simp only [BitVec.getElem_and, BitVec.getElem_not, BitVec.getElem_shiftLeft, hbit]
    by_cases hlt : j < 3
    · simp [hlt]
    · have hsub : 3 + (j - 3) = j := by omega
      simp [hlt, hsub, BitVec.getLsbD_eq_getElem hj]
  rw [hshift, BitVec.toNat_shiftLeft, BitVec.toNat_ushiftRight, Nat.shiftLeft_eq,
    Nat.shiftRight_eq_div_pow, Nat.mod_eq_of_lt]
  have := x.isLt
  omega

/-- Rounding up does not make a request smaller, unless nothing is left of it. -/
theorem le_alignSize {sizeB : BitVec 32} (hpos : 0 < (alignSize sizeB).toNat) :
    sizeB.toNat ≤ (alignSize sizeB).toNat ∧ 0 < sizeB.toNat := by
  have hlt := sizeB.isLt
  rw [alignSize] at hpos ⊢
  split at hpos
  · next hlow =>
    rw [if_pos hlow]
    have hnonzero : sizeB ≠ 0 := by
      intro hzero
      rw [hzero] at hlow
      exact hlow (by decide)
    have hsize : 0 < sizeB.toNat := by
      rw [Nat.pos_iff_ne_zero]
      intro hzero
      exact hnonzero (BitVec.eq_of_toNat_eq hzero)
    rw [BitVec.toNat_add, and_not_seven] at hpos ⊢
    change 0 < (sizeB.toNat / 8 * 8 + 8) % 2 ^ 32 at hpos
    change sizeB.toNat ≤ (sizeB.toNat / 8 * 8 + 8) % 2 ^ 32 ∧ _
    have hnowrap : sizeB.toNat / 8 * 8 + 8 < 2 ^ 32 := by omega
    rw [Nat.mod_eq_of_lt hnowrap]
    exact ⟨by omega, hsize⟩
  · next hlow =>
    rw [if_neg hlow]
    exact ⟨le_rfl, hpos⟩

/-- The heap is behind the buffer for the standard output, and live blocks are those of used
fragments. -/
structure L3Inv (plat : Platform) (window : Nat) (s : L3State) : Prop where
  heap : Inv (ptrWidth plat) s.heap
  base : s.heap.base = window + 1024 * 1024
  blocks : ∀ b ∈ s.live, ∃ f ∈ s.heap.frags, f.used = true ∧ b = f.start + (ptrWidth plat).alignment

variable {plat : Platform} {window : Nat} {s s' : L3State} {op : L3Op} {es : List Empty}

theorem l3Inv_init {heap : O1Heap} (hinit : l3HeapInit plat window = some heap) :
    L3Inv plat window ⟨heap, []⟩ := by
  obtain ⟨hinv, hbase, -, -⟩ := inv_init hinit
  exact ⟨hinv, hbase, by simp⟩

/-- The blocks of used fragments stay when a request is served, and the new one joins them. -/
theorem L3Inv.malloc (hinv : L3Inv plat window s) (sizeB : BitVec 32) :
    L3Inv plat window ⟨(pulpL3Malloc plat window s.heap sizeB).2,
      ((pulpL3Malloc plat window s.heap sizeB).1.map Prod.fst).toList ++ s.live⟩ := by
  rw [pulpL3Malloc]
  obtain ⟨hheap, hbase, hkeep⟩ := hinv.heap.o1heapAllocate (alignSize sizeB).toNat
  refine ⟨hheap, hbase.trans hinv.base, ?_⟩
  intro b hb
  rw [List.mem_append] at hb
  obtain hb | hb := hb
  · simp only [Option.map_map, Option.mem_toList, Option.map_eq_some_iff] at hb
    obtain ⟨vAddr, hres, rfl⟩ := hb
    obtain ⟨f, -, -, -, hvAddr, -, -, hnew⟩ := hinv.heap.allocated hres
    exact ⟨_, hnew, rfl, hvAddr⟩
  · obtain ⟨f, hf, hused, hfb⟩ := hinv.blocks b hb
    exact ⟨f, hkeep f hf hused, hused, hfb⟩

theorem L3Inv.free (hinv : L3Inv plat window s) {vAddr : Nat} (hlive : vAddr ∈ s.live) :
    L3Inv plat window ⟨pulpL3Free plat s.heap vAddr, s.live.filter (· ≠ vAddr)⟩ := by
  obtain ⟨f, hf, hused, rfl⟩ := hinv.blocks vAddr hlive
  obtain ⟨hheap, hkeep, hbase⟩ := hinv.heap.o1heapFree hf hused
  refine ⟨hheap, hbase.trans hinv.base, ?_⟩
  intro b hb
  simp only [List.mem_filter, decide_eq_true_eq] at hb
  obtain ⟨g, hg, hgused, hgb⟩ := hinv.blocks b hb.1
  refine ⟨g, hkeep g hg hgused ?_, hgused, hgb⟩
  intro heq
  exact hb.2 (heq ▸ hgb)

theorem L3Inv.step (hinv : L3Inv plat window s)
    (hstep : l3Machine plat window s op = some (s', es)) : L3Inv plat window s' := by
  cases op with
  | malloc sizeB =>
    cases hstep
    exact hinv.malloc sizeB
  | free vAddr =>
    simp only [l3Machine] at hstep
    split at hstep
    · next hlive =>
      cases hstep
      exact hinv.free hlive
    · cases hstep

/-- A block lies in the arena and next to no live one, and all that may fail is that the arena ends
before the window does. -/
theorem L3Inv.block (hinv : L3Inv plat window s) {sizeB : BitVec 32} {vAddr : Nat}
    (hres : (s.heap.o1heapAllocate (ptrWidth plat) (alignSize sizeB).toNat).1 = some vAddr)
    (hend : vAddr + sizeB.toNat ≤ window + plat.l3MemSizeB) :
    BlockOk plat window s (s.heap.o1heapAllocate (ptrWidth plat) (alignSize sizeB).toNat).2 sizeB
      vAddr (vAddr - window + l3MemBaseAddr) := by
  obtain ⟨hheap, -, hkeep⟩ := hinv.heap.o1heapAllocate (alignSize sizeB).toNat
  obtain ⟨f, hf, hfree, hcand, rfl, hle, hamount, hnew⟩ := hinv.heap.allocated hres
  obtain ⟨hsize, hpos⟩ := le_alignSize (hinv.heap.candidate hcand).1
  have hstart := (hinv.heap.tiles.mem hf).1
  rw [hinv.base] at hstart
  have hblock := hheap.sizeOf_eq hnew
  dsimp only at hblock
  refine ⟨⟨by omega, hend⟩, ?_, ?_, by omega, by omega, by omega⟩
  · rw [blockSize, Nat.add_sub_cancel, hblock]
    omega
  · intro b hb
    obtain ⟨g, hg, hused, rfl⟩ := hinv.blocks b hb
    have hne : ⟨f.start, fragmentSize (ptrWidth plat) (alignSize sizeB).toNat, true⟩ ≠ g := by
      intro heq
      have hfg := hinv.heap.tiles.eq_of_start hf hg (heq ▸ rfl)
      rw [hfg, hused] at hfree
      cases hfree
    have hdisj := hheap.tiles.disjoint hnew (hkeep g hg hused) hne
    dsimp only at hdisj
    rw [blockSize, blockSize, Nat.add_sub_cancel, Nat.add_sub_cancel, hblock,
      hheap.sizeOf_eq (hkeep g hg hused)]
    omega

theorem good_iff_early (hinv : L3Inv plat window s) :
    op.Good plat window s ↔ op.Early plat window s := by
  cases op with
  | free vAddr => exact Iff.rfl
  | malloc sizeB =>
    constructor
    · intro hgood a hcand
      have hres : (s.heap.o1heapAllocate (ptrWidth plat) (alignSize sizeB).toNat).1 =
          some (a + (ptrWidth plat).alignment) := by
        rw [o1heapAllocate, hcand]
      exact (hgood _ _ (by rw [pulpL3Malloc, hres]; rfl)).within.2
    · intro hearly vAddr pAddr hres
      simp only [pulpL3Malloc, Option.map_eq_some_iff, Prod.mk.injEq] at hres
      obtain ⟨_, hres, rfl, rfl⟩ := hres
      obtain ⟨f, -, -, hcand, hvAddr, -⟩ := hinv.heap.allocated hres
      apply hinv.block hres
      rw [hvAddr]
      exact hearly f.start hcand

/-- Where the window is mapped in the examples -/
private def window₀ : Nat := 0x10000000

private def heap₀ : O1Heap := (l3HeapInit .juno window₀).get (by decide +kernel)

/-- Requests that fill the window -/
private def fill : List L3Op :=
  [120, 60, 30, 14, 7, 3, 1].map fun n => .malloc (BitVec.ofNat 32 (n * 512 * 1024))

private theorem run_fill : ((l3Machine .juno window₀).run ⟨heap₀, []⟩ fill).isSome := by
  decide +kernel

end Hero.Libpulp
