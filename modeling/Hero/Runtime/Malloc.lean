import Hero.Runtime.AllocRuns

/-!
# The C heap

`malloc`, `l1malloc` and `l2malloc` put a word in front of each block that holds its size and, in
its lowest byte, a canary; the frees read the size back from it.  Without a fabric controller the
first two share the allocator of the cluster's L1 memory.
-/

namespace Hero.Runtime

open Hero.Checked Hero.FreeList

/-- The enumerators of `rt_alloc_e` the C heap uses. -/
def rtAllocL2ClData : Nat := 0
def rtAllocFcData : Nat := 1
def rtAllocClData : Nat := 1

/-- `rt_alloc_l1(0)` and `rt_alloc_l2()`. -/
inductive Allocator where
  | l1
  | l2
  deriving DecidableEq, Repr

/-- The allocator `rt_alloc` and `rt_free` use; a single cluster has the only L1 memory. -/
def allocatorOf (flags : Nat) : Allocator := if flags ≥ rtAllocClData then .l1 else .l2

structure Heaps where
  mem : Memory
  firstFree : Allocator → Nat

namespace Heaps

def heap (s : Heaps) (a : Allocator) : Heap := ⟨s.mem, s.firstFree a⟩

def setHeap (s : Heaps) (a : Allocator) (h : Heap) : Heaps :=
  ⟨h.mem, Function.update s.firstFree a h.firstFree⟩

def rtAlloc (s : Heaps) (flags : Nat) (size : Int) : Option (Heaps × Nat) := do
  let (h, ptr) ← (s.heap (allocatorOf flags)).rtUserAlloc size
  return (s.setHeap (allocatorOf flags) h, ptr)

def rtFree (s : Heaps) (flags : Nat) (chunk : Nat) (size : Int) : Option Heaps := do
  return s.setHeap (allocatorOf flags) (← (s.heap (allocatorOf flags)).rtUserFree chunk size)

end Heaps

def canary (ptr : Nat) : BitVec 32 := BitVec.ofNat 32 ptr &&& 0xFF

def canaryAndSizeEncode (ptr : Nat) (size : BitVec 32) : BitVec 32 := (size <<< 8) ||| canary ptr

/-- The canary and the size. -/
def canaryAndSizeDecode (val : BitVec 32) : BitVec 32 × BitVec 32 := (val &&& 0xFF, val >>> 8)

namespace Heaps

/-- `domain_malloc`; the address zero is NULL. -/
def domainMalloc (s : Heaps) (size : BitVec 32) (domain : Nat) : Option (Heaps × Nat) :=
  let size := size + 4
  if 1 <<< 24 ≤ size.toNat then some (s, 0)
  else do
    let (s, ptr) ← s.rtAlloc domain size.toNat
    if ptr = 0 then return (s, 0)
    else return ({ s with mem := Function.update s.mem ptr (canaryAndSizeEncode ptr size) }, ptr + 4)

/-- The part of `domain_free` in front of `rt_free`: its arguments, or no result for the abort. -/
def recover (s : Heaps) (ptr : Nat) : Option (Nat × BitVec 32) :=
  let allocPtr := ptr - 4
  let canaryAndSize := canaryAndSizeDecode (s.mem allocPtr)
  if canaryAndSize.1 ≠ canary allocPtr then none else some (allocPtr, canaryAndSize.2)

def domainFree (s : Heaps) (ptr : Nat) (domain : Nat) : Option Heaps := do
  let args ← s.recover ptr
  s.rtFree domain args.1 args.2.toNat

end Heaps

/-- The three pairs of entry points. -/
inductive Domain where
  /-- `malloc` and `free` -/
  | fc
  /-- `l1malloc` and `l1free` -/
  | cl
  /-- `l2malloc` and `l2free` -/
  | l2
  deriving DecidableEq, Repr

def Domain.flags : Domain → Nat
  | .fc => rtAllocFcData
  | .cl => rtAllocClData
  | .l2 => rtAllocL2ClData

/-- A block by the address of its header and the requested size. -/
structure HeapBlock where
  addr : Nat
  request : BitVec 32
  deriving DecidableEq, Repr

/-- What was taken from the allocator. -/
def HeapBlock.block (b : HeapBlock) : Block := ⟨b.addr, (b.request + 4).toNat⟩

/-- The bytes that were asked for. -/
def HeapBlock.bytes (b : HeapBlock) : Set Nat := Set.Ico (b.addr + 4) (b.addr + 4 + b.request.toNat)

/-- A word with one of these bytes. -/
def HeapBlock.HasWord (b : HeapBlock) (addr : Nat) : Prop :=
  4 ∣ addr ∧ b.addr + 4 ≤ addr ∧ addr < b.addr + 4 + b.request.toNat

instance (b : HeapBlock) (addr : Nat) : Decidable (b.HasWord addr) :=
  inferInstanceAs (Decidable (_ ∧ _ ∧ _))

/-- The heaps and their live blocks. -/
structure HeapRun where
  heaps : Heaps
  live : Allocator → List HeapBlock

inductive HeapOp where
  | malloc (d : Domain) (size : BitVec 32)
  | free (d : Domain) (b : HeapBlock)
  /-- a client writes a word of one of its blocks -/
  | store (a : Allocator) (b : HeapBlock) (addr : Nat) (value : BitVec 32)

/-- What a call returns; `undefined` is an abort, or a call that does not return. -/
inductive HeapEvent where
  | returned (ptr : Nat)
  | freed
  | undefined
  deriving DecidableEq

/-- Sequences of calls with any sizes, of frees of live blocks and of writes to them. -/
def cHeap : Machine HeapRun HeapOp HeapEvent := fun t op =>
  match op with
  | .malloc d size =>
    let a := allocatorOf d.flags
    match t.heaps.domainMalloc size d.flags with
    | none => some (t, [.undefined])
    | some (heaps, ptr) =>
      some (⟨heaps, if ptr = 0 then t.live
        else Function.update t.live a (⟨ptr - 4, size⟩ :: t.live a)⟩, [.returned ptr])
  | .free d b =>
    let a := allocatorOf d.flags
    if b ∈ t.live a then
      match t.heaps.domainFree (b.addr + 4) d.flags with
      | none => some (t, [.undefined])
      | some heaps => some (⟨heaps, Function.update t.live a ((t.live a).erase b)⟩, [.freed])
    else none
  | .store a b addr value =>
    if b ∈ t.live a ∧ b.HasWord addr then
      some ({ t with heaps := { t.heaps with mem := Function.update t.heaps.mem addr value } }, [])
    else none

/-- The memory of the two allocators. -/
structure HeapArenas where
  arena : Allocator → Arena
  apart : ∀ a a', a ≠ a' → (arena a).hi ≤ (arena a').lo ∨ (arena a').hi ≤ (arena a).lo
  room : ∀ a, (arena a).lo < (arena a).hi

/-- Both allocators after their initialisation. -/
def HeapArenas.start (A : HeapArenas) (mem : Memory) : HeapRun :=
  let l2 := Heap.rtUserAllocInit mem (A.arena .l2).base (A.arena .l2).size
  let l1 := Heap.rtUserAllocInit l2.mem (A.arena .l1).base (A.arena .l1).size
  ⟨⟨l1.mem, fun a => match a with | .l1 => l1.firstFree | .l2 => l2.firstFree⟩, fun _ => []⟩

/-- The blocks have the bytes that were asked for and lie apart, and when all are freed the free
list is the initial one. -/
structure HeapRun.Sound (A : HeapArenas) (t : HeapRun) : Prop where
  enough : ∀ a, ∀ b ∈ t.live a, b.bytes ⊆ b.block.chunk.bytes
  apart : ∀ a, (t.live a).Pairwise fun b b' => Disjoint b.block.chunk.bytes b'.block.chunk.bytes
  restored : ∀ a, t.live a = [] → Segment t.heaps.mem (t.heaps.firstFree a)
    [⟨(A.arena a).lo, (A.arena a).hi - (A.arena a).lo⟩] 0

/-- What an operation does right: it returns, keeps the heaps sound, changes nothing if it returns
NULL, and returns exactly the block that was taken. -/
structure HeapRun.Good (A : HeapArenas) (t : HeapRun) (op : HeapOp) : Prop where
  before : t.Sound A
  after : ∀ t' h, cHeap t op = some (t', h) → t'.Sound A ∧ .undefined ∉ h
  unsatisfied : ∀ d size s, op = .malloc d size → t.heaps.domainMalloc size d.flags = some (s, 0) →
    s = t.heaps
  taken : ∀ d b, op = .free d b → b ∈ t.live (allocatorOf d.flags) →
    t.heaps.recover (b.addr + 4) = some (b.addr, b.request + 4)

/-- The size with the header is a `size_t`, or the allocator has no memory left. -/
def HeapRun.Countable (t : HeapRun) (op : HeapOp) : Prop :=
  ∀ d size, op = .malloc d size →
    size.toNat + 4 < 2 ^ 32 ∨ t.heaps.firstFree (allocatorOf d.flags) = 0

section Header

variable {ptr : Nat} {size : BitVec 32}

private theorem getLsbD_mask (i : Nat) : (0xFF#32).getLsbD i = decide (i < 8) := by
  by_cases hi : i < 32
  · have hall : ∀ i < 32, (0xFF#32).getLsbD i = decide (i < 8) := by decide
    exact hall i hi
  · rw [BitVec.getLsbD_of_ge _ _ (by omega)]
    simp
    omega

/-- The header gives back the canary and a size of up to three bytes. -/
theorem canaryAndSizeDecode_encode (h : size.toNat < 2 ^ 24) :
    canaryAndSizeDecode (canaryAndSizeEncode ptr size) = (canary ptr, size) := by
  have hhigh : ∀ i, 24 ≤ i → size.getLsbD i = false := by
    intro i hi
    rw [← BitVec.testBit_toNat]
    exact Nat.testBit_lt_two_pow (h.trans_le (Nat.pow_le_pow_right (by decide) hi))
  unfold canaryAndSizeDecode canaryAndSizeEncode canary
  apply Prod.ext
  · apply BitVec.eq_of_getLsbD_eq
    intro i hi
    simp only [BitVec.ofNat_eq_ofNat, BitVec.getLsbD_and, BitVec.getLsbD_or, BitVec.getLsbD_shiftLeft,
      getLsbD_mask]
    by_cases h8 : i < 8
    · simp [h8]
    · simp [h8]
  · apply BitVec.eq_of_getLsbD_eq
    intro i hi
    simp only [BitVec.ofNat_eq_ofNat, BitVec.getLsbD_ushiftRight, BitVec.getLsbD_and,
      BitVec.getLsbD_or, BitVec.getLsbD_shiftLeft, getLsbD_mask]
    by_cases h24 : i < 24
    · have hword : 8 + i < 32 := by omega
      simp [hword]
    · have hword : ¬ 8 + i < 32 := by omega
      simp [hword, hhigh i (by omega)]

end Header

/-- The arenas and the headers of the live blocks. -/
structure HeapRun.Inv (A : HeapArenas) (t : HeapRun) : Prop where
  arena : ∀ a, ∃ l, (A.arena a).Inv ⟨t.heaps.heap a, (t.live a).map HeapBlock.block⟩ l
  header : ∀ a, ∀ b ∈ t.live a, b.request.toNat + 4 < 2 ^ 24 ∧
    t.heaps.mem b.addr = canaryAndSizeEncode b.addr (b.request + 4)

section Steps

variable {A : HeapArenas} {t t' : HeapRun} {a a' : Allocator} {b : HeapBlock} {d : Domain}
  {size : BitVec 32} {op : HeapOp} {h : List HeapEvent} {l : List Chunk}

theorem add_four (hsize : size.toNat + 4 < 2 ^ 32) : (size + 4).toNat = size.toNat + 4 := by
  rw [BitVec.toNat_add]
  exact Nat.mod_eq_of_lt hsize

theorem HeapBlock.block_injective : Function.Injective HeapBlock.block := by
  intro b b' heq
  simp only [HeapBlock.block, Block.mk.injEq, Int.natCast_inj, BitVec.toNat_inj] at heq
  obtain ⟨haddr, hrequest⟩ := heq
  cases b
  cases b'
  simp_all

/-- The header and the requested bytes fit in what was taken. -/
theorem HeapBlock.le_stop (hb : b.request.toNat + 4 < 2 ^ 32) (hround : Roundable b.block.size) :
    b.addr + 4 + b.request.toNat ≤ b.block.chunk.stop := by
  have hle := le_rounded hround
  have hadd := add_four hb
  unfold HeapBlock.block at hle
  unfold HeapBlock.block Block.chunk Chunk.stop
  dsimp only at hle ⊢
  omega

theorem HeapRun.Inv.sound (hinv : t.Inv A) : t.Sound A := by
  constructor
  · intro a b hb x hx
    obtain ⟨l, harena⟩ := hinv.arena a
    obtain ⟨hround, -⟩ := harena.roundable b.block (List.mem_map_of_mem hb)
    have hstop := HeapBlock.le_stop (b := b) (by have := (hinv.header a b hb).1; omega) hround
    obtain ⟨hlo, hhi⟩ := hx
    exact ⟨by unfold HeapBlock.block Block.chunk; dsimp only; omega, hhi.trans_le hstop⟩
  · intro a
    obtain ⟨l, harena⟩ := hinv.arena a
    have hapart := harena.apart
    dsimp only at hapart
    rwa [List.pairwise_map] at hapart
  · intro a hnone
    obtain ⟨l, harena⟩ := hinv.arena a
    have hsound := harena.sound (A.room a)
    have hl := hsound.restored (by simp [hnone])
    have hlist := hsound.inMemory
    rw [hl] at hlist
    exact hlist

/-- What happens in one arena leaves the other one alone. -/
theorem HeapRun.Inv.setHeap (hinv : t.Inv A) {heap : Heap} {live : List HeapBlock}
    (harena : (A.arena a).Inv ⟨heap, live.map HeapBlock.block⟩ l)
    (hframe : ∀ x, x < (A.arena a).lo ∨ (A.arena a).hi ≤ x → heap.mem x = t.heaps.mem x)
    (hheader : ∀ b ∈ live, b.request.toNat + 4 < 2 ^ 24 ∧
      heap.mem b.addr = canaryAndSizeEncode b.addr (b.request + 4)) :
    HeapRun.Inv A ⟨t.heaps.setHeap a heap, Function.update t.live a live⟩ := by
  have hother : ∀ a', a' ≠ a → ∀ x, (A.arena a').lo ≤ x → x < (A.arena a').hi →
      heap.mem x = t.heaps.mem x := by
    intro a' hne x hlo hhi
    rcases A.apart a' a hne with hle | hle
    · exact hframe x (Or.inl (by omega))
    · exact hframe x (Or.inr (by omega))
  constructor
  · intro a'
    by_cases heq : a' = a
    · subst heq
      refine ⟨l, ?_⟩
      simpa [Heaps.heap, Heaps.setHeap] using harena
    · obtain ⟨l', harena'⟩ := hinv.arena a'
      refine ⟨l', ?_⟩
      have hkept := harena'.congr (hother a' heq)
      simpa [Heaps.heap, Heaps.setHeap, heq] using hkept
  · intro a' b hb
    by_cases heq : a' = a
    · subst heq
      exact hheader b (by simpa using hb)
    · simp only [Function.update_of_ne heq] at hb
      obtain ⟨hsize, hword⟩ := hinv.header a' b hb
      obtain ⟨l', harena'⟩ := hinv.arena a'
      obtain ⟨hround, -, hlo, hhi⟩ := harena'.roundable b.block (List.mem_map_of_mem hb)
      have hstop := HeapBlock.le_stop (b := b) (by omega) hround
      refine ⟨hsize, ?_⟩
      rw [← hword]
      exact hother a' heq b.addr hlo (by omega)

@[simp] theorem setHeap_heap (s : Heaps) (a : Allocator) : s.setHeap a (s.heap a) = s := by
  simp [Heaps.setHeap, Heaps.heap]

theorem alignUp_small {n : Nat} (hn : n < 1 <<< 24) : alignUp (n : Int) = some (rounded n : Int) := by
  have hlt : n < 2 ^ 24 := hn
  refine alignUp_of_nonneg (Int.natCast_nonneg n) ?_
  unfold Fits minChunkSize
  omega

theorem roundable_request (hsize : size.toNat + 4 < 2 ^ 24) : Roundable ((size + 4).toNat : Int) := by
  have hadd : (size + 4).toNat = size.toNat + 4 := add_four (by omega)
  rw [hadd]
  constructor
  · push_cast
    omega
  · unfold Fits minChunkSize
    push_cast
    omega

/-- The words of other live blocks are neither free nor in a block that lies apart from them. -/
theorem header_ne {s : Arena.State} {A : Arena} (hinv : A.Inv s l)
    {b : Block} (hb : b ∈ s.live) : b.addr ∉ bytes l := by
  have hpos := (rounded_pos (hinv.roundable b hb).1).1
  exact Set.disjoint_left.mp (hinv.used b hb) ⟨le_refl _, Nat.lt_add_of_pos_right hpos⟩

theorem header_apart {heap : Heap} {live : List HeapBlock} {A : Arena}
    (hinv : A.Inv ⟨heap, live.map HeapBlock.block⟩ l) (hb : b ∈ live) {b' : HeapBlock}
    (hb' : b' ∈ live.erase b) : Disjoint b.block.chunk.bytes b'.block.chunk.bytes := by
  refine hinv.apart_erase (List.mem_map_of_mem hb) ?_
  rw [← List.map_erase HeapBlock.block_injective]
  exact List.mem_map_of_mem hb'

/-- A request whose size does not wrap is served with a new block, or NULL is returned and nothing
changes. -/
theorem HeapRun.Inv.malloc (hinv : t.Inv A) (hsize : size.toNat + 4 < 2 ^ 32) :
    t.heaps.domainMalloc size d.flags = some (t.heaps, 0) ∨
      ∃ heaps ptr, t.heaps.domainMalloc size d.flags = some (heaps, ptr + 4) ∧
        HeapRun.Inv A ⟨heaps, Function.update t.live (allocatorOf d.flags)
          (⟨ptr, size⟩ :: t.live (allocatorOf d.flags))⟩ := by
  generalize ha : allocatorOf d.flags = a
  have hadd := add_four hsize
  by_cases hlarge : 1 <<< 24 ≤ (size + 4).toNat
  · left
    simp only [Heaps.domainMalloc, hlarge, if_true]
  · have hlt : size.toNat + 4 < 2 ^ 24 := by
      rw [hadd] at hlarge
      omega
    obtain ⟨l, harena⟩ := hinv.arena a
    rcases harena.alloc (roundable_request hlt) with hcall | ⟨heap, ptr, l', hcall, hne, harena', hframe⟩
    · left
      simp only [Heaps.domainMalloc, hlarge, if_false, Heaps.rtAlloc, ha, hcall]
      simp
    · right
      obtain ⟨hround, hdvd, hlo, hhi⟩ := harena'.roundable _ List.mem_cons_self
      have hpos := rounded_pos hround
      unfold Block.chunk Chunk.stop at hhi
      dsimp only at hdvd hpos hlo hhi
      have hnew : (⟨ptr, (size + 4).toNat⟩ : Block).HasWord ptr := by
        refine ⟨by omega, le_refl _, ?_⟩
        unfold Block.chunk Chunk.stop
        dsimp only
        omega
      let mem := Function.update heap.mem ptr (canaryAndSizeEncode ptr (size + 4))
      have hstore : (A.arena a).Inv ⟨⟨mem, heap.firstFree⟩,
          (⟨ptr, size⟩ :: t.live a : List HeapBlock).map HeapBlock.block⟩ l' :=
        harena'.store List.mem_cons_self hnew
      refine ⟨t.heaps.setHeap a ⟨mem, heap.firstFree⟩, ptr, ?_, hinv.setHeap hstore ?_ ?_⟩
      · simp only [Heaps.domainMalloc, hlarge, if_false, Heaps.rtAlloc, ha, hcall,
          Option.bind_eq_bind, Option.bind_some, Option.pure_def, hne]
        rfl
      · intro x hx
        have hptr : x ≠ ptr := by omega
        have hout : x ∉ bytes l := fun hin => by
          have hmem := harena.holds.spaced.mem_bytes hin
          omega
        exact (Function.update_of_ne hptr _ _).trans (hframe x hout)
      · intro b hb
        rcases List.mem_cons.mp hb with rfl | hb
        · exact ⟨hlt, Function.update_self _ _ _⟩
        · obtain ⟨hrequest, hword⟩ := hinv.header a b hb
          have hblock := List.mem_map_of_mem (f := HeapBlock.block) hb
          have hapart := (List.pairwise_cons.mp harena'.apart).1 b.block hblock
          have hptr : b.addr ≠ ptr := by
            rintro rfl
            have hpos' := (rounded_pos (harena.roundable b.block hblock).1).1
            exact Set.disjoint_left.mp hapart ⟨le_refl _, Nat.lt_add_of_pos_right hpos.1⟩
              ⟨le_refl _, Nat.lt_add_of_pos_right hpos'⟩
          refine ⟨hrequest, ?_⟩
          rw [← hword]
          exact (Function.update_of_ne hptr _ _).trans (hframe b.addr (header_ne harena hblock))

/-- Where an allocator has no memory, NULL is returned and nothing changes. -/
theorem domainMalloc_empty (hempty : t.heaps.firstFree (allocatorOf d.flags) = 0) :
    t.heaps.domainMalloc size d.flags = some (t.heaps, 0) := by
  unfold Heaps.domainMalloc
  by_cases hlarge : 1 <<< 24 ≤ (size + 4).toNat
  · rw [if_pos hlarge]
  · have halign := alignUp_small (not_le.mp hlarge)
    generalize (rounded ((size + 4).toNat : Int) : Int) = n at halign
    have hfuel : ([] : List Chunk).length < maxChunks := by simp [maxChunks]
    have hwalk := @walk_eq t.heaps.mem 0 [] (fun pt => t.heaps.mem.size pt < n) (fun _ => false)
      maxChunks 0 rfl (by simp) hfuel
    have hcall : (t.heaps.heap (allocatorOf d.flags)).rtUserAlloc ((size + 4).toNat : Int) =
        some (t.heaps.heap (allocatorOf d.flags), 0) := by
      simp only [List.takeWhile_nil, List.dropWhile_nil, headAddr_nil, lastAddr] at hwalk
      simp only [Heap.rtUserAlloc, halign, Heaps.heap, hempty, hwalk, Option.bind_eq_bind,
        Option.bind_some, if_true, Option.pure_def]
    rw [if_neg hlarge]
    simp only [Heaps.rtAlloc, hcall, Option.bind_eq_bind, Option.bind_some, Option.pure_def,
      setHeap_heap, if_true]

theorem domainFree_eq {s s' : Heaps} {ptr domain : Nat} {args : Nat × BitVec 32}
    (hrecover : s.recover ptr = some args)
    (hfree : s.rtFree domain args.1 args.2.toNat = some s') : s.domainFree ptr domain = some s' := by
  unfold Heaps.domainFree
  rw [hrecover]
  exact (Option.bind_some _ _).trans hfree

/-- The header gives back what was taken. -/
theorem HeapRun.Inv.recover (hinv : t.Inv A) (hb : b ∈ t.live a) :
    t.heaps.recover (b.addr + 4) = some (b.addr, b.request + 4) := by
  obtain ⟨hrequest, hword⟩ := hinv.header a b hb
  have hadd : (b.request + 4).toNat = b.request.toNat + 4 := add_four (by omega)
  have hdecode : canaryAndSizeDecode (canaryAndSizeEncode b.addr (b.request + 4)) =
      (canary b.addr, b.request + 4) := canaryAndSizeDecode_encode (by omega)
  have hcanary : ¬ (canary b.addr ≠ canary b.addr) := not_not.mpr rfl
  simp only [Heaps.recover, Nat.add_sub_cancel, hword, hdecode]
  exact if_neg hcanary

/-- The header gives back what was taken, and freeing the block keeps the heaps in order. -/
theorem HeapRun.Inv.free (hinv : t.Inv A) (hb : b ∈ t.live (allocatorOf d.flags)) :
    t.heaps.recover (b.addr + 4) = some (b.addr, b.request + 4) ∧
      ∃ heaps, t.heaps.domainFree (b.addr + 4) d.flags = some heaps ∧
        HeapRun.Inv A ⟨heaps, Function.update t.live (allocatorOf d.flags)
          ((t.live (allocatorOf d.flags)).erase b)⟩ := by
  generalize ha : allocatorOf d.flags = a at *
  have hrecover := hinv.recover hb
  obtain ⟨l, harena⟩ := hinv.arena a
  have hblock := List.mem_map_of_mem (f := HeapBlock.block) hb
  obtain ⟨heap, l', hcall, harena', hframe⟩ := harena.free hblock
  obtain ⟨hround, -, hlo, hhi⟩ := harena.roundable b.block hblock
  have hpos := (rounded_pos hround).1
  rw [← List.map_erase HeapBlock.block_injective] at harena'
  refine ⟨hrecover, t.heaps.setHeap a heap, ?_, hinv.setHeap harena' ?_ ?_⟩
  · have hfree : t.heaps.rtFree d.flags b.addr ((b.request + 4).toNat : Int) =
        some (t.heaps.setHeap a heap) := by
      simp only [HeapBlock.block] at hcall
      simp only [Heaps.rtFree, ha, hcall, Option.bind_eq_bind, Option.bind_some, Option.pure_def]
    exact domainFree_eq hrecover hfree
  · intro x hx
    refine hframe x ?_ ?_
    · intro hin
      have hmem := harena.holds.spaced.mem_bytes hin
      omega
    · intro hin
      have hge : b.block.addr ≤ x := hin.1
      have hlt := hin.2
      omega
  · intro b' hb'
    have hb'' := List.mem_of_mem_erase hb'
    obtain ⟨hrequest', hword'⟩ := hinv.header a b' hb''
    have hblock' := List.mem_map_of_mem (f := HeapBlock.block) hb''
    refine ⟨hrequest', ?_⟩
    rw [← hword']
    refine hframe b'.addr (header_ne harena hblock') ?_
    have hdisj := header_apart harena hb hb'
    have hpos' := (rounded_pos (harena.roundable b'.block hblock').1).1
    exact Set.disjoint_right.mp hdisj ⟨le_refl _, Nat.lt_add_of_pos_right hpos'⟩

theorem HeapRun.Inv.store (hinv : t.Inv A) (hb : b ∈ t.live a) {addr : Nat} {value : BitVec 32}
    (hword : b.HasWord addr) : HeapRun.Inv A
      { t with heaps := { t.heaps with mem := Function.update t.heaps.mem addr value } } := by
  obtain ⟨l, harena⟩ := hinv.arena a
  have hblock := List.mem_map_of_mem (f := HeapBlock.block) hb
  obtain ⟨hround, hdvd, hlo, hhi⟩ := harena.roundable b.block hblock
  have hrequest := (hinv.header a b hb).1
  have hstop := HeapBlock.le_stop (b := b) (by omega) hround
  obtain ⟨h4, hge, hlt⟩ := hword
  have hin : b.block.HasWord addr := by
    have hround8 := (rounded_pos hround).2
    have haddr : b.block.addr = b.addr := rfl
    have hstop8 : b.block.chunk.stop = b.addr + rounded b.block.size := rfl
    refine ⟨h4, ?_, ?_⟩
    · omega
    · omega
  have hkept : (A.arena a).Inv ⟨⟨Function.update t.heaps.mem addr value, t.heaps.firstFree a⟩,
      (t.live a).map HeapBlock.block⟩ l := harena.store hblock hin
  have hstate : ({ t with heaps := { t.heaps with mem := Function.update t.heaps.mem addr value } } : HeapRun) =
      ⟨t.heaps.setHeap a ⟨Function.update t.heaps.mem addr value, t.heaps.firstFree a⟩,
        Function.update t.live a (t.live a)⟩ := by
    simp [Heaps.setHeap]
  rw [hstate]
  have hword_in : addr ∈ b.block.chunk.bytes := ⟨hin.2.1, by have := hin.2.2; omega⟩
  refine hinv.setHeap hkept ?_ ?_
  · intro x hx
    have hne : x ≠ addr := by
      have h0 := hword_in.1
      have h1 := hword_in.2
      have haddr : b.block.chunk.addr = b.block.addr := rfl
      omega
    exact Function.update_of_ne hne _ _
  · intro b' hb'
    obtain ⟨hrequest', hword'⟩ := hinv.header a b' hb'
    have hne : b'.addr ≠ addr := by
      by_cases hbb : b' = b
      · subst hbb
        omega
      · rintro rfl
        have hdisj := header_apart harena hb ((List.mem_erase_of_ne hbb).mpr hb')
        have hpos' := (rounded_pos (harena.roundable b'.block (List.mem_map_of_mem hb')).1).1
        exact Set.disjoint_right.mp hdisj ⟨le_refl _, Nat.lt_add_of_pos_right hpos'⟩ hword_in
    refine ⟨hrequest', ?_⟩
    rw [← hword']
    exact Function.update_of_ne hne _ _

/-- What a countable operation returns, and that it keeps the heaps in order. -/
theorem HeapRun.Inv.step (hinv : t.Inv A) (hok : t.Countable op)
    (hstep : cHeap t op = some (t', h)) : t'.Inv A ∧ .undefined ∉ h := by
  cases op with
  | malloc d size =>
    have hnull : t.heaps.domainMalloc size d.flags = some (t.heaps, 0) ∨
        ∃ heaps ptr, t.heaps.domainMalloc size d.flags = some (heaps, ptr + 4) ∧
          HeapRun.Inv A ⟨heaps, Function.update t.live (allocatorOf d.flags)
            (⟨ptr, size⟩ :: t.live (allocatorOf d.flags))⟩ := by
      rcases hok d size rfl with hsize | hempty
      · exact hinv.malloc hsize
      · exact Or.inl (domainMalloc_empty hempty)
    rcases hnull with hcall | ⟨heaps, ptr, hcall, hinv'⟩
    · simp only [cHeap, hcall] at hstep
      cases hstep
      exact ⟨hinv, by simp⟩
    · simp only [cHeap, hcall] at hstep
      cases hstep
      exact ⟨hinv', by simp⟩
  | free d b =>
    simp only [cHeap] at hstep
    split at hstep
    · next hb =>
      obtain ⟨-, heaps, hcall, hinv'⟩ := hinv.free hb
      rw [hcall] at hstep
      cases hstep
      exact ⟨hinv', by simp⟩
    · cases hstep
  | store a b addr value =>
    simp only [cHeap] at hstep
    split at hstep
    · next hword =>
      cases hstep
      exact ⟨hinv.store hword.1 hword.2, by simp⟩
    · cases hstep

/-- A request whose size wraps is served while there is memory, with at most eight bytes. -/
theorem HeapRun.Inv.malloc_wrapped (hinv : t.Inv A) (hwrap : 2 ^ 32 ≤ size.toNat + 4)
    (hmemory : t.heaps.firstFree (allocatorOf d.flags) ≠ 0) :
    ∃ heaps ptr, t.heaps.domainMalloc size d.flags = some (heaps, ptr + 4) ∧
      ptr + rounded ((size + 4).toNat : Int) ≤ ptr + 8 := by
  have hlt := size.isLt
  have hadd : (size + 4).toNat = size.toNat + 4 - 2 ^ 32 := by
    rw [BitVec.toNat_add]
    change (size.toNat + 4) % 2 ^ 32 = _
    omega
  have hsmall : ¬ 1 <<< 24 ≤ (size + 4).toNat := by
    have hpow : 1 <<< 24 = 2 ^ 24 := rfl
    omega
  have halign := alignUp_small (not_le.mp hsmall)
  have hround : rounded ((size + 4).toNat : Int) ≤ 8 := by
    have hcast := rounded_cast (Int.natCast_nonneg (size + 4).toNat)
    omega
  obtain ⟨l, harena⟩ := hinv.arena (allocatorOf d.flags)
  have hhead := harena.holds.linked.head
  cases l with
  | nil => exact absurd hhead hmemory
  | cons c l =>
    have hsize := eight_le_size harena.holds.spaced harena.holds.aligned List.mem_cons_self
    obtain ⟨heap, hcall⟩ := rtUserAlloc_first harena.holds (Arena.bounds _) halign (by omega)
    dsimp only at hcall
    have hne : c.addr ≠ 0 := fun hzero => hmemory (hhead.trans hzero)
    refine ⟨t.heaps.setHeap (allocatorOf d.flags) ⟨Function.update heap.mem c.addr
      (canaryAndSizeEncode c.addr (size + 4)), heap.firstFree⟩, c.addr, ?_, by omega⟩
    simp only [Heaps.domainMalloc, hsmall, if_false, Heaps.rtAlloc, hcall, hne, Option.bind_eq_bind,
      Option.bind_some, Option.pure_def]
    rfl

/-- An operation is good exactly when it is countable. -/
theorem HeapRun.Inv.good_iff (hinv : t.Inv A) : t.Good A op ↔ t.Countable op := by
  constructor
  · intro hgood d size hop
    by_contra hneither
    obtain ⟨hwrap, hmemory⟩ := not_or.mp hneither
    obtain ⟨heaps, ptr, hcall, hround⟩ := hinv.malloc_wrapped (not_lt.mp hwrap) hmemory
    subst hop
    have hstep : cHeap t (.malloc d size) = some (⟨heaps, Function.update t.live
        (allocatorOf d.flags) (⟨ptr, size⟩ :: t.live (allocatorOf d.flags))⟩,
        [.returned (ptr + 4)]) := by
      simp only [cHeap, hcall]
      rfl
    have henough := (hgood.after _ _ hstep).1.enough (allocatorOf d.flags) ⟨ptr, size⟩ (by simp)
    have hin : ptr + 12 ∈ (⟨ptr, size⟩ : HeapBlock).bytes := by
      constructor
      · dsimp only
        omega
      · dsimp only
        omega
    have hlt : ptr + 12 < ptr + rounded ((size + 4).toNat : Int) := (henough hin).2
    omega
  · intro hok
    constructor
    · exact hinv.sound
    · intro t' h hstep
      obtain ⟨hinv', hdefined⟩ := hinv.step hok hstep
      exact ⟨hinv'.sound, hdefined⟩
    · intro d size s hop hcall
      rcases hok d size hop with hsize | hempty
      · rcases hinv.malloc (d := d) hsize with hnull | ⟨heaps, ptr, hserved, -⟩
        · rw [hnull] at hcall
          cases hcall
          rfl
        · rw [hserved] at hcall
          cases hcall
      · rw [domainMalloc_empty hempty] at hcall
        cases hcall
        rfl
    · intro d b _ hb
      exact hinv.recover hb

theorem HeapRun.Inv.start (A : HeapArenas) (mem : Memory) : (A.start mem).Inv A := by
  have hl2 := Arena.Inv.start (A.arena .l2) (A.room .l2) mem
  have hl1 := Arena.Inv.start (A.arena .l1) (A.room .l1) ((A.arena .l2).start mem).heap.mem
  have hframe := Arena.start_apply (A.arena .l1) (A.room .l1) ((A.arena .l2).start mem).heap.mem
  have hapart := A.apart .l1 .l2 (by decide)
  constructor
  · intro a
    cases a with
    | l1 => exact ⟨_, hl1⟩
    | l2 =>
      have hkept := hl2.congr fun x hlo hhi => hframe x (by omega)
      exact ⟨_, hkept⟩
  · intro a b hb
    cases hb

end Steps

/-- Along every sequence of operations everything is as it should be if and only if no size wraps
around while there is memory to serve the request. -/
theorem malloc_good_iff (A : HeapArenas) (mem : Memory) (ops : List HeapOp) :
    Machine.Along cHeap (HeapRun.Good A) (A.start mem) ops ↔
      Machine.Along cHeap HeapRun.Countable (A.start mem) ops := by
  exact Machine.along_iff (fun _ _ _ _ hinv hok hstep => (HeapRun.Inv.step hinv hok hstep).1)
    (fun _ _ hinv => HeapRun.Inv.good_iff hinv) (HeapRun.Inv.start A mem)

/-- A heap of 64 KiB in each memory. -/
def smallArenas : HeapArenas where
  arena a := match a with
    | .l1 => ⟨0x10000008, 0x10000, by decide, by decide, by decide, by decide⟩
    | .l2 => ⟨0x1C000000, 0x10000, by decide, by decide, by decide, by decide⟩
  apart := by
    intro a a' hne
    cases a <;> cases a' <;> first | exact absurd rfl hne | decide
  room := by
    intro a
    cases a <;> decide

/-- A request for nearly all of the address space is served with eight bytes. -/
theorem malloc_not_good :
    ((smallArenas.start fun _ => 0).heaps.domainMalloc 0xFFFFFFFD Domain.cl.flags).map Prod.snd =
      some 0x1000000C ∧
    ¬ Machine.Along cHeap (HeapRun.Good smallArenas) (smallArenas.start fun _ => 0)
      [.malloc .cl 0xFFFFFFFD] := by
  refine ⟨by decide +kernel, ?_⟩
  intro h
  rcases (HeapRun.Inv.start smallArenas _).good_iff.mp h.1 .cl 0xFFFFFFFD rfl with hsize | hempty
  · exact absurd hsize (by decide)
  · exact absurd hempty (by decide)

end Hero.Runtime
