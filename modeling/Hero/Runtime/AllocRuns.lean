import Hero.Framework.Machine
import Hero.Runtime.Alloc
import Mathlib.Algebra.BigOperators.Group.List.Basic

/-!
# Runs of an allocator

Any sequence of allocations and frees on one arena, with clients that write to their blocks as they
like.  The free list is the one in memory; the blocks that are live are recorded beside it.
-/

namespace Hero.Runtime

open Hero.Checked Hero.FreeList

/-- The memory given to `rt_user_alloc_init`, with room for the header of the initial chunk. -/
structure Arena where
  base : Nat
  size : Int
  base_pos : 0 < base
  size_fits : Fits 32 size
  room : 0 < size - ((base + 7) / 8 * 8 - base : Nat)
  top : base + size < 2 ^ 32

/-- The address of the initial chunk. -/
def Arena.lo (A : Arena) : Nat := (A.base + 7) / 8 * 8

/-- The size of the initial chunk. -/
def Arena.extent (A : Arena) : Nat :=
  ((A.size - (A.lo - A.base : Nat)) / minChunkSize * minChunkSize).toNat

def Arena.hi (A : Arena) : Nat := A.lo + A.extent

/-- A block by its address and the size that was asked for. -/
structure Block where
  addr : Nat
  size : Int
  deriving DecidableEq, Repr

/-- A size rounded up to the minimum chunk size. -/
def rounded (size : Int) : Nat := ((size + 7) / minChunkSize * minChunkSize).toNat

def Block.chunk (b : Block) : Chunk := ⟨b.addr, rounded b.size⟩

/-- A size of at least one whose round-up does not overflow. -/
def Roundable (size : Int) : Prop := 1 ≤ size ∧ Fits 32 (size + minChunkSize)

instance (size : Int) : Decidable (Roundable size) := inferInstanceAs (Decidable (_ ∧ _))

/-- A heap and its live blocks. -/
structure Arena.State where
  heap : Heap
  live : List Block

inductive AllocOp where
  | alloc (size : Int)
  | free (b : Block)
  /-- a client writes a word of one of its blocks -/
  | store (addr : Nat) (value : BitVec 32)

inductive AllocEvent where
  | allocated (size : Int) (ptr : Nat)
  | freed (b : Block)
  | undefined
  deriving DecidableEq

/-- The words of a live block. -/
def Block.HasWord (b : Block) (addr : Nat) : Prop :=
  4 ∣ addr ∧ b.addr ≤ addr ∧ addr + 4 ≤ b.chunk.stop

instance (b : Block) (addr : Nat) : Decidable (b.HasWord addr) :=
  inferInstanceAs (Decidable (_ ∧ _ ∧ _))

/-- Sequences of calls: sizes that can be rounded up, frees and writes of live blocks. -/
def userAlloc : Machine Arena.State AllocOp AllocEvent := fun s op =>
  match op with
  | .alloc size =>
    if Roundable size then
      match s.heap.rtUserAlloc size with
      | none => some (s, [.undefined])
      | some (heap, ptr) =>
        some (⟨heap, if ptr = 0 then s.live else ⟨ptr, size⟩ :: s.live⟩, [.allocated size ptr])
    else none
  | .free b =>
    if b ∈ s.live then
      match s.heap.rtUserFree b.addr b.size with
      | none => some (s, [.undefined])
      | some heap => some (⟨heap, s.live.erase b⟩, [.freed b])
    else none
  | .store addr value =>
    if ∃ b ∈ s.live, b.HasWord addr then
      some ({ s with heap := { s.heap with mem := Function.update s.heap.mem addr value } }, [])
    else none

/-- An arena after `rt_user_alloc_init`, whatever its memory held before. -/
def Arena.start (A : Arena) (mem : Memory) : Arena.State :=
  ⟨Heap.rtUserAllocInit mem A.base A.size, []⟩

/-- The free list in memory is `l`: sorted, disjoint, coalesced and aligned chunks, which the live
blocks neither overlap nor, together with them, leave a byte of the arena out. -/
structure Arena.Sound (A : Arena) (s : Arena.State) (l : List Chunk) : Prop where
  inMemory : Segment s.heap.mem s.heap.firstFree l 0
  sorted : l.Pairwise fun c d => c.addr < d.addr
  disjoint : l.Pairwise fun c d => Disjoint c.bytes d.bytes
  coalesced : l.Pairwise fun c d => c.stop ≠ d.addr ∧ d.stop ≠ c.addr
  aligned : ∀ c ∈ l, 8 ∣ c.addr ∧ 8 ∣ c.size
  liveApart : s.live.Pairwise fun b b' => Disjoint b.chunk.bytes b'.chunk.bytes
  liveFree : ∀ b ∈ s.live, ∀ c ∈ l, Disjoint b.chunk.bytes c.bytes
  inside : (∀ b ∈ s.live, b.chunk.bytes ⊆ Set.Ico A.lo A.hi) ∧ ∀ c ∈ l, c.bytes ⊆ Set.Ico A.lo A.hi
  sum : total (s.live.map Block.chunk) + total l = A.hi - A.lo
  restored : s.live = [] → l = [⟨A.lo, A.hi - A.lo⟩]

/-- The live blocks of a heap whose free list is `l`. -/
structure Arena.Inv (A : Arena) (s : Arena.State) (l : List Chunk) : Prop where
  holds : s.heap.Holds A.lo A.hi l
  roundable : ∀ b ∈ s.live, Roundable b.size ∧ 8 ∣ b.addr ∧ A.lo ≤ b.addr ∧ b.chunk.stop ≤ A.hi
  apart : s.live.Pairwise fun b b' => Disjoint b.chunk.bytes b'.chunk.bytes
  used : ∀ b ∈ s.live, Disjoint b.chunk.bytes (bytes l)
  sum : total (s.live.map Block.chunk) + total l = A.hi - A.lo

section Rounding

variable {size : Int}

theorem rounded_cast (h : 0 ≤ size) : (rounded size : Int) = (size + 7) / 8 * 8 := by
  unfold rounded minChunkSize
  omega

theorem alignUp_of_nonneg (hpos : 0 ≤ size) (hfits : Fits 32 (size + minChunkSize)) :
    alignUp size = some (rounded size : Int) := by
  have hadd : add 32 size 8 = some (size + 8) := add_eq_some.mpr ⟨hfits, rfl⟩
  have hsub : sub 32 (size + 8) 1 = some (size + 7) := by
    refine sub_eq_some.mpr ⟨?_, by omega⟩
    exact (fits_zero 32).between hfits (Or.inl ⟨by omega, by unfold minChunkSize; omega⟩)
  rw [rounded_cast hpos]
  simp only [alignUp, minChunkSize, hadd, hsub, Option.bind_eq_bind, Option.bind_some,
    Option.pure_def]

theorem alignUp_eq (h : Roundable size) : alignUp size = some (rounded size : Int) := by
  have hpos := h.1
  exact alignUp_of_nonneg (by omega) h.2

theorem rounded_pos (h : Roundable size) : 0 < rounded size ∧ 8 ∣ rounded size := by
  have hpos := h.1
  have hcast : (rounded size : Int) = (size + 7) / 8 * 8 := rounded_cast (by omega)
  omega

theorem le_rounded (h : Roundable size) : size ≤ rounded size := by
  have hpos := h.1
  have hcast : (rounded size : Int) = (size + 7) / 8 * 8 := rounded_cast (by omega)
  omega

end Rounding

section Invariant

variable {A : Arena} {s s' : Arena.State} {l l' : List Chunk} {b : Block} {size : Int}
  {heap : Heap} {op : AllocOp} {h : List AllocEvent}

theorem Arena.bounds (A : Arena) : Bounds A.lo A.hi := by
  have hpos := A.base_pos
  have hfits := A.size_fits.2
  have hroom := A.room
  have htop := A.top
  unfold Arena.hi Arena.extent Arena.lo minChunkSize
  constructor <;> omega

theorem Arena.Inv.disjoint_of_mem (hinv : A.Inv s l) (hb : b ∈ s.live) {c : Chunk} (hc : c ∈ l) :
    Disjoint b.chunk.bytes c.bytes := by
  have hsub : c.bytes ⊆ bytes l := fun x hx => ⟨c, hc, hx⟩
  exact Set.disjoint_of_subset_right hsub (hinv.used b hb)

theorem Arena.Inv.apart_erase (hinv : A.Inv s l) (hb : b ∈ s.live) {b' : Block}
    (hb' : b' ∈ s.live.erase b) : Disjoint b.chunk.bytes b'.chunk.bytes := by
  have hapart := hinv.apart
  rw [(List.perm_cons_erase hb).pairwise_iff (fun h => Disjoint.symm h)] at hapart
  exact (List.pairwise_cons.mp hapart).1 b' hb'

theorem Arena.Inv.sound (hinv : A.Inv s l) (hlt : A.lo < A.hi) : A.Sound s l := by
  have hpair := hinv.holds.spaced.pairwise
  have hmem := fun c hc => hinv.holds.spaced.mem (c := c) hc
  constructor
  · exact hinv.holds.linked
  · refine hpair.imp ?_
    intro c d hcd
    unfold Chunk.stop at hcd
    omega
  · refine hpair.imp ?_
    intro c d hcd
    rw [Set.disjoint_left]
    intro x hx hx'
    have h1 := hx.2
    have h2 := hx'.1
    omega
  · refine hpair.imp ?_
    intro c d hcd
    unfold Chunk.stop at hcd ⊢
    omega
  · exact hinv.holds.aligned
  · exact hinv.apart
  · intro b hb c hc
    exact hinv.disjoint_of_mem hb hc
  · constructor
    · intro b hb x hx
      obtain ⟨-, -, hlo, hhi⟩ := hinv.roundable b hb
      exact ⟨hlo.trans hx.1, hx.2.trans_le hhi⟩
    · intro c hc x hx
      obtain ⟨hlo, -, hhi⟩ := hmem c hc
      exact ⟨hlo.trans hx.1, hx.2.trans_le hhi⟩
  · exact hinv.sum
  · intro hnone
    have hsum := hinv.sum
    rw [hnone, List.map_nil, total_nil, Nat.zero_add] at hsum
    exact hinv.holds.spaced.eq_single hlt hsum

/-- An allocation succeeds with a block apart from all others, or changes nothing. -/
theorem Arena.Inv.alloc (hinv : A.Inv s l) (hsize : Roundable size) :
    s.heap.rtUserAlloc size = some (s.heap, 0) ∨
      ∃ heap ptr l', s.heap.rtUserAlloc size = some (heap, ptr) ∧ ptr ≠ 0 ∧
        A.Inv ⟨heap, ⟨ptr, size⟩ :: s.live⟩ l' ∧ ∀ x ∉ bytes l, heap.mem x = s.heap.mem x := by
  have halign := alignUp_eq hsize
  obtain ⟨hpos, hdvd⟩ := rounded_pos hsize
  cases htake : take (rounded size) l with
  | none => exact Or.inl (rtUserAlloc_none hinv.holds A.bounds halign htake)
  | some r =>
    obtain ⟨ptr, l'⟩ := r
    obtain ⟨heap, hcall, hholds, hframe⟩ :=
      rtUserAlloc_some hinv.holds A.bounds halign hpos hdvd htake
    obtain ⟨-, hbytes, hapart, htotal⟩ := hinv.holds.spaced.take htake
    have hptr8 := (hinv.holds.aligned.take hdvd htake).1
    have hsub : ∀ x ∈ (⟨ptr, rounded size⟩ : Chunk).bytes, x ∈ bytes l := by
      intro x hx
      rw [hbytes]
      exact Or.inl hx
    have hlo := hinv.holds.spaced.mem_bytes (hsub ptr ⟨le_refl _, Nat.lt_add_of_pos_right hpos⟩)
    have hhi := hinv.holds.spaced.mem_bytes (x := ptr + rounded size - 1)
      (hsub _ ⟨by dsimp only; omega, by unfold Chunk.stop; dsimp only; omega⟩)
    have hApos := A.bounds.pos
    refine Or.inr ⟨heap, ptr, l', hcall, by omega, ⟨hholds, ?_, ?_, ?_, ?_⟩, hframe⟩
    · intro b hb
      rcases List.mem_cons.mp hb with rfl | hb
      · refine ⟨hsize, hptr8, hlo.1, ?_⟩
        unfold Block.chunk Chunk.stop
        dsimp only
        omega
      · exact hinv.roundable b hb
    · refine List.Pairwise.cons ?_ hinv.apart
      intro b hb
      refine Disjoint.symm ((hinv.used b hb).mono_right ?_)
      exact hsub
    · intro b hb
      rcases List.mem_cons.mp hb with rfl | hb
      · exact hapart
      · refine (hinv.used b hb).mono_right ?_
        intro x hx
        rw [hbytes]
        exact Or.inr hx
    · have hsum := hinv.sum
      rw [List.map_cons, total_cons]
      unfold Block.chunk at hsum ⊢
      dsimp only at hsum ⊢
      omega

/-- A free returns the block to the free list. -/
theorem Arena.Inv.free (hinv : A.Inv s l) (hb : b ∈ s.live) :
    ∃ heap l', s.heap.rtUserFree b.addr b.size = some heap ∧ A.Inv ⟨heap, s.live.erase b⟩ l' ∧
      ∀ x ∉ bytes l, x ∉ b.chunk.bytes → heap.mem x = s.heap.mem x := by
  obtain ⟨hsize, hb8, hlo, hhi⟩ := hinv.roundable b hb
  obtain ⟨hpos, hdvd⟩ := rounded_pos hsize
  obtain ⟨heap, hcall, hholds, hframe⟩ := rtUserFree_eq hinv.holds A.bounds (alignUp_eq hsize) hpos hdvd
    hb8 hlo hhi (hinv.used b hb)
  refine ⟨heap, _, hcall, ⟨hholds, ?_, hinv.apart.sublist List.erase_sublist, ?_, ?_⟩, hframe⟩
  · intro b' hb'
    exact hinv.roundable b' (List.mem_of_mem_erase hb')
  · intro b' hb'
    rw [bytes_give, Set.disjoint_union_right]
    exact ⟨(hinv.apart_erase hb hb').symm, hinv.used b' (List.mem_of_mem_erase hb')⟩
  · have hsum := hinv.sum
    have hlive : total (s.live.map Block.chunk) =
        rounded b.size + total ((s.live.erase b).map Block.chunk) := by
      unfold total
      rw [(((List.perm_cons_erase hb).map Block.chunk).map Chunk.size).sum_eq]
      rfl
    rw [total_give]
    dsimp only
    omega

/-- What a client writes to its blocks does not reach the free list. -/
theorem Arena.Inv.store (hinv : A.Inv s l) (hb : b ∈ s.live) {addr : Nat} {value : BitVec 32}
    (hword : b.HasWord addr) :
    A.Inv { s with heap := { s.heap with mem := Function.update s.heap.mem addr value } } l := by
  obtain ⟨-, hlo, hhi⟩ := hword
  have hin : addr ∈ b.chunk.bytes := ⟨hlo, by omega⟩
  have hout := Set.disjoint_left.mp (hinv.used b hb) hin
  refine ⟨⟨?_, hinv.holds.spaced, hinv.holds.aligned⟩, hinv.roundable, hinv.apart, hinv.used,
    hinv.sum⟩
  refine hinv.holds.linked.congr ?_
  intro c hc
  have hheader := header_mem hinv.holds.spaced hinv.holds.aligned hc
  have h0 : c.addr ≠ addr := by
    rintro rfl
    exact hout hheader.1
  have h1 : c.addr + 4 ≠ addr := by
    rintro rfl
    exact hout hheader.2
  simp only [Memory.size, Memory.next, Function.update_of_ne h0, Function.update_of_ne h1]
  trivial

/-- Other memory does not matter. -/
theorem Arena.Inv.congr (hinv : A.Inv s l) {mem : Memory}
    (hsame : ∀ x, A.lo ≤ x → x < A.hi → mem x = s.heap.mem x) :
    A.Inv { s with heap := { s.heap with mem := mem } } l := by
  refine ⟨⟨hinv.holds.linked.congr ?_, hinv.holds.spaced, hinv.holds.aligned⟩, hinv.roundable,
    hinv.apart, hinv.used, hinv.sum⟩
  intro c hc
  have hheader := header_mem hinv.holds.spaced hinv.holds.aligned hc
  have h0 := hinv.holds.spaced.mem_bytes hheader.1
  have h1 := hinv.holds.spaced.mem_bytes hheader.2
  simp only [Memory.size, Memory.next, hsame _ h0.1 h0.2, hsame _ h1.1 h1.2]
  trivial

/-- The initial chunk. -/
theorem Arena.start_segment (A : Arena) (mem : Memory) : Segment (A.start mem).heap.mem
    (A.start mem).heap.firstFree [⟨A.lo, A.hi - A.lo⟩] 0 := by
  have hpos := A.base_pos
  have hfits := A.size_fits
  have hroom := A.room
  have hextent : A.hi - A.lo = A.extent := Nat.add_sub_cancel_left _ _
  have hcast : (A.extent : Int) =
      (A.size - ((A.base + 7) / 8 * 8 - A.base : Nat)) / minChunkSize * minChunkSize := by
    unfold Arena.extent Arena.lo minChunkSize
    omega
  have hsize : Fits 32 (A.extent : Int) := by
    refine (fits_zero 32).between hfits (Or.inl ⟨Int.natCast_nonneg _, ?_⟩)
    rw [hcast]
    unfold minChunkSize
    omega
  have hlo8 : 8 ∣ (A.base + 7) / 8 * 8 := Nat.dvd_mul_left _ _
  have hstart : A.start mem = ⟨⟨(mem.setSize A.lo A.extent).setNext A.lo 0, A.lo⟩, []⟩ := by
    rw [Arena.start, Heap.rtUserAllocInit, if_pos hroom, hcast]
    rfl
  rw [hstart, hextent]
  exact Segment.cons (l := []) rfl hlo8 (by unfold Arena.lo; omega) (by decide) hsize (by simp)

/-- The initialisation writes to the arena only. -/
theorem Arena.start_apply (A : Arena) (hlt : A.lo < A.hi) (mem : Memory) (x : Nat)
    (hx : x < A.lo ∨ A.hi ≤ x) : (A.start mem).heap.mem x = mem x := by
  have hroom : 8 ≤ A.extent := by
    unfold Arena.hi at hlt
    unfold Arena.extent minChunkSize at hlt ⊢
    omega
  have hhi : A.hi = A.lo + A.extent := rfl
  have hstart : (A.start mem).heap.mem =
      (mem.setSize A.lo ((A.size - ((A.base + 7) / 8 * 8 - A.base : Nat)) / minChunkSize *
        minChunkSize)).setNext A.lo 0 := by
    rw [Arena.start, Heap.rtUserAllocInit, if_pos A.room]
    rfl
  rw [hstart]
  exact setHeader_apply (by omega) (by omega)

theorem Arena.Inv.start (A : Arena) (hlt : A.lo < A.hi) (mem : Memory) :
    A.Inv (A.start mem) [⟨A.lo, A.hi - A.lo⟩] := by
  have hextent : A.hi - A.lo = A.extent := Nat.add_sub_cancel_left _ _
  have hdvd : 8 ∣ A.extent := by
    unfold Arena.extent minChunkSize
    omega
  refine ⟨⟨A.start_segment mem, ?_, ?_⟩, by simp [Arena.start], List.Pairwise.nil,
    by simp [Arena.start], by simp [Arena.start]⟩
  · refine ⟨le_refl _, by dsimp only; omega, ?_, trivial⟩
    unfold Chunk.stop
    dsimp only
    omega
  · rw [aligned_cons, hextent]
    exact ⟨⟨Nat.dvd_mul_left _ _, hdvd⟩, aligned_nil⟩

/-- Every call and every write of a client keeps the invariant. -/
theorem Arena.Inv.step (hinv : A.Inv s l) (hstep : userAlloc s op = some (s', h)) :
    (∃ l', A.Inv s' l') ∧ .undefined ∉ h := by
  cases op with
  | alloc size =>
    simp only [userAlloc] at hstep
    split at hstep
    · next hsize =>
      rcases hinv.alloc hsize with hcall | ⟨heap, ptr, l', hcall, hne, hinv', -⟩
      · rw [hcall] at hstep
        cases hstep
        exact ⟨⟨l, hinv⟩, by simp⟩
      · rw [hcall] at hstep
        cases hstep
        rw [if_neg hne]
        exact ⟨⟨l', hinv'⟩, by simp⟩
    · cases hstep
  | free b =>
    simp only [userAlloc] at hstep
    split at hstep
    · next hb =>
      obtain ⟨heap, l', hcall, hinv', -⟩ := hinv.free hb
      rw [hcall] at hstep
      cases hstep
      exact ⟨⟨l', hinv'⟩, by simp⟩
    · cases hstep
  | store addr value =>
    simp only [userAlloc] at hstep
    split at hstep
    · next hword =>
      obtain ⟨b, hb, hword⟩ := hword
      cases hstep
      exact ⟨⟨l, hinv.store hb hword⟩, by simp⟩
    · cases hstep

/-- An arena without room for a chunk never serves a request. -/
theorem Arena.step_empty (hlist : Segment s.heap.mem s.heap.firstFree [⟨A.lo, 0⟩] 0)
    (hlive : s.live = []) (hstep : userAlloc s op = some (s', h)) : s' = s ∧ .undefined ∉ h := by
  cases op with
  | alloc size =>
    simp only [userAlloc] at hstep
    split at hstep
    · next hsize =>
      have hpos := (rounded_pos hsize).1
      have hcall : s.heap.rtUserAlloc size = some (s.heap, 0) := by
        simp [Heap.rtUserAlloc, alignUp_eq hsize, walk_empty hlist hpos]
      rw [hcall] at hstep
      cases hstep
      exact ⟨rfl, by simp⟩
    · cases hstep
  | free b => simp [userAlloc, hlive] at hstep
  | store addr value => simp [userAlloc, hlive] at hstep

end Invariant

/-- After any sequence of calls on any arena the calls have all returned, and the free list in
memory and the live blocks are as they should be. -/
theorem rt_user_alloc_invariant (A : Arena) (mem : Memory) (ops : List AllocOp) (s : Arena.State)
    (h : List AllocEvent) (hrun : userAlloc.run (A.start mem) ops = some (s, h)) :
    .undefined ∉ h ∧ ∃ l, A.Sound s l := by
  rcases Nat.lt_or_eq_of_le (Nat.le_add_right A.lo A.extent) with hlt | hA
  · have hinv := Machine.run_history (fun s h => (∃ l, A.Inv s l) ∧ AllocEvent.undefined ∉ h)
      (fun _ _ => True)
      (by
        intro s h op s' es hinv _ hstep
        obtain ⟨⟨l, hinv⟩, hdefined⟩ := hinv
        obtain ⟨hnext, hdefined'⟩ := hinv.step hstep
        exact ⟨hnext, by simp [hdefined, hdefined']⟩)
      (h := []) ⟨⟨_, Arena.Inv.start A hlt mem⟩, by simp⟩
      (Machine.along_of_forall fun _ _ _ => trivial) hrun
    obtain ⟨⟨l, hinv⟩, hdefined⟩ := hinv
    exact ⟨hdefined, l, hinv.sound hlt⟩
  · have hempty : A.hi - A.lo = 0 := by
      unfold Arena.hi
      omega
    have hlist := A.start_segment mem
    rw [hempty] at hlist
    have hsame := Machine.run_history (fun s h => s = A.start mem ∧ AllocEvent.undefined ∉ h)
      (fun _ _ => True)
      (by
        intro s h op s' es hinv _ hstep
        obtain ⟨rfl, hdefined⟩ := hinv
        obtain ⟨rfl, hdefined'⟩ := Arena.step_empty hlist rfl hstep
        exact ⟨rfl, by simp [hdefined, hdefined']⟩)
      (h := []) ⟨rfl, by simp⟩ (Machine.along_of_forall fun _ _ _ => trivial) hrun
    obtain ⟨rfl, hdefined⟩ := hsame
    refine ⟨hdefined, [⟨A.lo, 0⟩], hlist, by simp, by simp, by simp, ?_, List.Pairwise.nil,
      by simp [Arena.start], ?_, by simp [Arena.start, hempty], by simp [hempty]⟩
    · intro c hc
      rw [List.mem_singleton.mp hc]
      exact ⟨Nat.dvd_mul_left _ _, Nat.dvd_zero _⟩
    · refine ⟨by simp [Arena.start], ?_⟩
      intro c hc x hx
      rw [List.mem_singleton.mp hc] at hx
      exact absurd hx.2 (not_lt.mpr hx.1)

/-- An arena of 60 bytes that does not start at a chunk address. -/
def smallArena : Arena where
  base := 4
  size := 60
  base_pos := by decide
  size_fits := by decide
  room := by decide
  top := by decide

private def smallRun : Option (Arena.State × List AllocEvent) :=
  userAlloc.run (smallArena.start fun _ => 0)
    [.alloc 1, .alloc 20, .store 16 7, .alloc 5, .free ⟨8, 1⟩, .free ⟨40, 5⟩, .free ⟨16, 20⟩]

private theorem smallRun_isSome : smallRun.isSome := by decide +kernel

theorem rt_user_alloc_invariant_small : .undefined ∉ (smallRun.get smallRun_isSome).2 ∧
    ∃ l, smallArena.Sound (smallRun.get smallRun_isSome).1 l :=
  rt_user_alloc_invariant smallArena _ _ _ _ (Option.some_get smallRun_isSome).symm

end Hero.Runtime
