import Hero.Framework.BitField
import Hero.Runtime.AllocRuns

/-!
# Explicit tasks

`__kmpc_omp_task_alloc` takes a block of the data heap for the task descriptor, its private part and the
shared variables, and keeps the size of the block in the field of the descriptor that only the runtime
knows.  Generated code writes what it knows of the block; when the routine has returned,
`__kmpc_omp_task` frees the block by the size it reads back.
-/

namespace Hero.Runtime

open Hero.Checked Hero.FreeList

/-- `sizeof(kmp_task_t)`: the fields are at the offsets 0 (`shareds`), 4 (`routine`), 8 (`part_id`),
12 (`destructors`) and 16 (`size`). -/
def sizeofKmpTaskT : BitVec 32 := 20

/-- A byte of a word in memory -/
def Memory.setByte (m : Memory) (a : Nat) (value : BitVec 8) : Memory :=
  Function.update m (a / 4 * 4) (BitField.bfSet (m (a / 4 * 4)) (value.setWidth 32) (8 * (a % 4)) 8)

/-- The stores to `routine`, `part_id` and `size` of the task. -/
def kmpTaskMem (m : Memory) (task : Nat) (taskEntry size : BitVec 32) : Memory :=
  let m := Function.update m (task + 4) taskEntry
  let m := Function.update m (task + 8) 0
  Function.update m (task + 16) size

namespace Heap

/-- `__kmpc_omp_task_alloc`; a result of NULL is not noticed. -/
def kmpcOmpTaskAlloc (h : Heap) (sizeofKmpTask sizeofShareds taskEntry : BitVec 32) :
    Option (Heap × Nat) := do
  let (h, task) ← h.rtUserAlloc (sizeofKmpTaskT + sizeofKmpTask + sizeofShareds).toInt
  return ({ h with mem := kmpTaskMem h.mem task taskEntry (sizeofKmpTask + sizeofShareds) }, task)

/-- The size that `__kmpc_omp_task` passes to `rt_free` -/
def freedSize (h : Heap) (task : Nat) : Int := (sizeofKmpTaskT + h.mem (task + 16)).toInt

/-- `__kmpc_omp_task` when the routine has returned -/
def kmpcOmpTaskEnd (h : Heap) (task : Nat) : Option Heap := h.rtUserFree task (h.freedSize task)

end Heap

/-- A task with the sizes that it was allocated for; `shareds` is the pointer that it had then. -/
structure Task where
  addr : Nat
  sizeofKmpTask : BitVec 32
  sizeofShareds : BitVec 32
  shareds : Nat
  deriving DecidableEq, Repr

namespace Task

variable (t : Task)

/-- The bytes that are needed. -/
def total : Nat := 20 + t.sizeofKmpTask.toNat + t.sizeofShareds.toNat

def block : Block := ⟨t.addr, t.total⟩

/-- The descriptor and the private part as generated code knows them, and the shared variables. -/
def Writable (a : Nat) : Prop :=
  t.addr ≤ a ∧ a < t.addr + t.sizeofKmpTask.toNat ∨
    t.shareds ≤ a ∧ a < t.shareds + t.sizeofShareds.toNat

instance (a : Nat) : Decidable (t.Writable a) := inferInstanceAs (Decidable (_ ∨ _))

/-- The shared variables are in the block behind the descriptor and the private part. -/
def SharedsInside : Prop := ∀ a, t.shareds ≤ a → a < t.shareds + t.sizeofShareds.toNat →
  t.addr + 20 ≤ a ∧ t.addr + t.sizeofKmpTask.toNat ≤ a ∧ a < t.addr + t.total

end Task

/-- The data heap and the tasks that have not ended. -/
structure TaskHeap where
  heap : Heap
  live : List Task

namespace TaskHeap

variable (s : TaskHeap)

/-- The heap with the blocks of the tasks. -/
def state : Arena.State := ⟨s.heap, s.live.map Task.block⟩

def setMem (mem : Memory) : TaskHeap := { s with heap := { s.heap with mem := mem } }

end TaskHeap

inductive TaskOp where
  | alloc (sizeofKmpTask sizeofShareds taskEntry : BitVec 32)
  /-- generated code writes a byte of what it knows of a task -/
  | write (t : Task) (a : Nat) (value : BitVec 8)
  /-- the routine of a task has returned -/
  | finish (t : Task)

inductive TaskEvent where
  | allocated (task : Nat)
  | freed (task : Nat) (size : Int)
  | undefined
  deriving DecidableEq

/-- Sequences of task allocations, of writes of generated code and of ends of tasks. -/
def taskMachine : Machine TaskHeap TaskOp TaskEvent := fun s op =>
  match op with
  | .alloc sizeofKmpTask sizeofShareds taskEntry =>
    match s.heap.kmpcOmpTaskAlloc sizeofKmpTask sizeofShareds taskEntry with
    | none => some (s, [.undefined])
    | some (heap, task) =>
      some (⟨heap, if task = 0 then s.live
        else ⟨task, sizeofKmpTask, sizeofShareds, (heap.mem task).toNat⟩ :: s.live⟩, [.allocated task])
  | .write t a value =>
    if t ∈ s.live ∧ t.Writable a then some (s.setMem (s.heap.mem.setByte a value), []) else none
  | .finish t =>
    if t ∈ s.live then
      match s.heap.kmpcOmpTaskEnd t.addr with
      | none => some (s, [.undefined])
      | some heap => some (⟨heap, s.live.erase t⟩, [.freed t.addr (s.heap.freedSize t.addr)])
    else none

/-- The data heap after its initialisation, without tasks. -/
def Arena.startTasks (A : Arena) (mem : Memory) : TaskHeap := ⟨(A.start mem).heap, []⟩

namespace TaskHeap

/-- The free list is sound, with every byte of the arena either free or in the block of a task; without
tasks all is free again. -/
def Sound (A : Arena) (s : TaskHeap) : Prop := ∃ l, A.Sound s.state l

/-- No write of generated code changes the size that a task was allocated with. -/
def KeepsSizes (s : TaskHeap) : Prop := ∀ t ∈ s.live, ∀ u ∈ s.live, ∀ a, u.Writable a → ∀ value,
  (s.heap.mem.setByte a value) (t.addr + 16) = s.heap.mem (t.addr + 16)

/-- What a step is for. -/
def Right (A : Arena) (s : TaskHeap) : TaskOp → Prop
  | .alloc sizeofKmpTask sizeofShareds taskEntry => ∃ heap task,
      s.heap.kmpcOmpTaskAlloc sizeofKmpTask sizeofShareds taskEntry = some (heap, task) ∧ task ≠ 0 ∧
        Task.SharedsInside ⟨task, sizeofKmpTask, sizeofShareds, (heap.mem task).toNat⟩ ∧
        let s' : TaskHeap :=
          ⟨heap, ⟨task, sizeofKmpTask, sizeofShareds, (heap.mem task).toNat⟩ :: s.live⟩
        s'.KeepsSizes ∧ s'.Sound A
  | .write t a value => t ∈ s.live → t.Writable a →
      (s.setMem (s.heap.mem.setByte a value)).KeepsSizes ∧
        (s.setMem (s.heap.mem.setByte a value)).Sound A
  | .finish t => t ∈ s.live → s.heap.freedSize t.addr = t.total ∧ ∃ heap,
      s.heap.kmpcOmpTaskEnd t.addr = some heap ∧ Sound A ⟨heap, s.live.erase t⟩

end TaskHeap

/-- The first free chunk with enough room, or NULL. -/
def Heap.firstFit (h : Heap) (n : Nat) : Nat :=
  ((walk h.mem (fun pt => h.mem.size pt < n) maxChunks 0 h.firstFree).map Prod.snd).getD 0

namespace TaskHeap

/-- The sizes can be added and rounded up, a free chunk has enough room, the field with the size is
behind what generated code knows of the descriptor, and there are no shared variables or the first word
of the chunk happens to point behind the descriptor. -/
def Meets (s : TaskHeap) : TaskOp → Prop
  | .alloc sizeofKmpTask sizeofShareds _ =>
    let total := 20 + sizeofKmpTask.toNat + sizeofShareds.toNat
    let chunk := s.heap.firstFit (rounded total)
    Roundable total ∧ chunk ≠ 0 ∧ sizeofKmpTask.toNat ≤ 16 ∧ (sizeofShareds = 0 ∨
      chunk + 20 ≤ (s.heap.mem chunk).toNat ∧
        (s.heap.mem chunk).toNat + sizeofShareds.toNat ≤ chunk + total)
  | .write _ _ _ => True
  | .finish _ => True

end TaskHeap

/-! ### Words -/

section Words

variable {m : Memory} {a x : Nat} {t : Task}

theorem Memory.setByte_apply_ne (hx : x ≠ a / 4 * 4) (value : BitVec 8) : m.setByte a value x = m x :=
  Function.update_of_ne hx _ _

/-- Some byte changes the word it is written to. -/
theorem Memory.exists_setByte_ne (m : Memory) (a : Nat) :
    ∃ value, m.setByte a value (a / 4 * 4) ≠ m (a / 4 * 4) := by
  have hmod := Nat.mod_lt a (show 0 < 4 by decide)
  have hbit : 8 * (a % 4) < 32 := by omega
  refine ⟨BitVec.ofBool (!(m (a / 4 * 4)).getLsbD (8 * (a % 4))) |>.setWidth 8, ?_⟩
  intro heq
  have hsame := congrArg (BitVec.getLsbD · (8 * (a % 4))) heq
  simp only [Memory.setByte, Function.update_self] at hsame
  rw [BitField.getLsbD_bfSet _ _ _ _ hbit, if_pos (by omega), Nat.sub_self] at hsame
  simp at hsame

theorem kmpTaskMem_apply_ne {taskEntry size : BitVec 32} {task : Nat} (h4 : x ≠ task + 4)
    (h8 : x ≠ task + 8) (h16 : x ≠ task + 16) : kmpTaskMem m task taskEntry size x = m x := by
  rw [kmpTaskMem, Function.update_of_ne h16, Function.update_of_ne h8, Function.update_of_ne h4]

theorem Heap.kmpcOmpTaskAlloc_eq_some {h heap : Heap} {k n taskEntry : BitVec 32} {task : Nat} :
    h.kmpcOmpTaskAlloc k n taskEntry = some (heap, task) ↔ ∃ h',
      h.rtUserAlloc (sizeofKmpTaskT + k + n).toInt = some (h', task) ∧
        { h' with mem := kmpTaskMem h'.mem task taskEntry (k + n) } = heap := by
  rw [kmpcOmpTaskAlloc, Option.bind_eq_bind, Option.bind_eq_some_iff]
  constructor
  · rintro ⟨⟨h', task'⟩, hcall, hsome⟩
    obtain ⟨rfl, rfl⟩ := Prod.mk.inj (Option.some.inj hsome)
    exact ⟨h', hcall, rfl⟩
  · rintro ⟨h', hcall, rfl⟩
    exact ⟨(h', task), hcall, rfl⟩

theorem toInt_total (h : t.total < 2 ^ 31) :
    (sizeofKmpTaskT + t.sizeofKmpTask + t.sizeofShareds).toInt = t.total := by
  have hnat : (sizeofKmpTaskT + t.sizeofKmpTask + t.sizeofShareds).toNat = t.total := by
    rw [Task.total] at h ⊢
    rw [BitVec.toNat_add, BitVec.toNat_add, sizeofKmpTaskT]
    change ((20 + t.sizeofKmpTask.toNat) % 2 ^ 32 + t.sizeofShareds.toNat) % 2 ^ 32 = _
    rw [Nat.mod_eq_of_lt (a := 20 + _) (by omega), Nat.mod_eq_of_lt (by omega)]
  rw [BitVec.toInt_eq_toNat_of_lt (by omega), hnat]

theorem fits_of_alignUp {size rounded : Int} (h : alignUp size = some rounded) :
    Fits 32 (size + minChunkSize) := by
  simp only [alignUp, Option.bind_eq_bind] at h
  obtain ⟨sum, hsum, -⟩ := Option.bind_eq_some_iff.mp h
  exact (add_eq_some.mp hsum).1

theorem total_lt_of_roundable (h : Roundable t.total) : t.total < 2 ^ 31 := by
  have hfits := h.2.2
  unfold minChunkSize at hfits
  omega

end Words

/-! ### The first free chunk with enough room -/

section FirstFit

variable {lo hi n ptr x q : Nat} {size : Int} {h h' : Heap} {l pre : List Chunk}

theorem Heap.relink_apply_ne (hx : ∀ d ∈ pre, x ≠ d.addr + 4) :
    (h.relink (lastAddr 0 pre) q).mem x = h.mem x := by
  unfold relink
  split
  · next hne =>
    rcases List.eq_nil_or_concat pre with rfl | ⟨pre, d, rfl⟩
    · exact absurd rfl hne
    · rw [List.concat_eq_append] at *
      rw [lastAddr_snoc]
      exact setNext_apply_ne (hx d (by simp))
  · rfl

/-- An allocation takes the first free chunk with enough room and leaves its first word alone. -/
theorem rtUserAlloc_firstFit (hh : h.Holds lo hi l) (hb : Bounds lo hi)
    (hsize : alignUp size = some (n : Int)) (hpos : 0 < n)
    (hcall : h.rtUserAlloc size = some (h', ptr)) :
    ptr = h.firstFit n ∧ (ptr ≠ 0 → h'.mem ptr = h.mem ptr) := by
  have hwalk := walk_alloc (n := n) hh hb
  have hfirst : h.firstFit n = headAddr (l.dropWhile (·.size < n)) := by
    rw [Heap.firstFit, hwalk]
    rfl
  have hpre8 : ∀ d ∈ l.takeWhile (·.size < n), 8 ∣ d.addr := fun d hd =>
    (hh.aligned d (List.takeWhile_subset _ hd)).1
  rw [hfirst]
  cases hdrop : l.dropWhile (·.size < n) with
  | nil =>
    rw [hdrop] at hwalk
    simp only [Heap.rtUserAlloc, hsize, hwalk, headAddr_nil, Option.bind_eq_bind, Option.bind_some,
      if_true, Option.pure_def, Option.some.injEq, Prod.mk.injEq] at hcall
    obtain ⟨rfl, rfl⟩ := hcall
    exact ⟨rfl, fun hne => absurd rfl hne⟩
  | cons c post =>
    rw [hdrop] at hwalk
    have hc : c ∈ l := (List.dropWhile_suffix _).subset (hdrop ▸ List.mem_cons_self)
    have hc8 := (hh.aligned c hc).1
    have hne : c.addr ≠ 0 := by
      have hlo := (hh.spaced.mem hc).1
      have hpos := hb.pos
      omega
    have hapart : ∀ d ∈ l.takeWhile (·.size < n), c.addr ≠ d.addr + 4 := by
      intro d hd
      have hd8 := hpre8 d hd
      omega
    rw [headAddr_cons] at hwalk ⊢
    simp only [Heap.rtUserAlloc, hsize, hwalk, Option.bind_eq_bind, Option.bind_some, if_neg hne,
      Option.pure_def, Heap.offset_natCast] at hcall
    split at hcall
    · obtain ⟨rfl, rfl⟩ := Prod.mk.inj (Option.some.inj hcall)
      exact ⟨rfl, fun _ => Heap.relink_apply_ne hapart⟩
    · obtain ⟨rest, -, hcall⟩ := Option.bind_eq_some_iff.mp hcall
      obtain ⟨rfl, rfl⟩ := Prod.mk.inj (Option.some.inj hcall)
      refine ⟨rfl, fun _ => ?_⟩
      rw [Heap.relink_apply_ne hapart]
      dsimp only
      rw [setNext_apply_ne (by omega), setSize_apply_ne (by omega)]

end FirstFit

/-! ### The heap with the tasks -/

/-- The order of the live blocks does not matter. -/
theorem Arena.Inv.perm {A : Arena} {s : Arena.State} {l : List Chunk} {live : List Block}
    (hinv : A.Inv s l) (hperm : s.live.Perm live) : A.Inv ⟨s.heap, live⟩ l := by
  refine ⟨hinv.holds, ?_, ?_, ?_, ?_⟩
  · intro b hb
    exact hinv.roundable b (hperm.mem_iff.mpr hb)
  · exact (hperm.pairwise_iff fun h => Disjoint.symm h).mp hinv.apart
  · intro b hb
    exact hinv.used b (hperm.mem_iff.mpr hb)
  · have hsum := hinv.sum
    unfold total at hsum ⊢
    rw [← ((hperm.map Block.chunk).map Chunk.size).sum_eq]
    exact hsum

/-- The stores of an allocation reach its block only. -/
theorem Arena.Inv.kmpTaskMem {A : Arena} {s : Arena.State} {l : List Chunk} {b : Block}
    (hinv : A.Inv s l) (hb : b ∈ s.live)
    (hword : ∀ j, 4 ∣ j → j ≤ 16 → b.HasWord (b.addr + j)) (taskEntry size : BitVec 32) :
    A.Inv { s with heap := { s.heap with
      mem := Runtime.kmpTaskMem s.heap.mem b.addr taskEntry size } } l := by
  have hroutine : A.Inv { s with heap := { s.heap with
      mem := Function.update s.heap.mem (b.addr + 4) taskEntry } } l :=
    hinv.store hb (hword 4 (by decide) (by decide))
  have hpartId : A.Inv { s with heap := { s.heap with
      mem := Function.update (Function.update s.heap.mem (b.addr + 4) taskEntry) (b.addr + 8) 0 } } l :=
    hroutine.store hb (hword 8 (by decide) (by decide))
  exact hpartId.store hb (hword 16 (by decide) (by decide))

/-- The size that was stored is still there, out of reach of what generated code writes. -/
structure TaskHeap.Inv (A : Arena) (s : TaskHeap) (l : List Chunk) : Prop where
  arena : A.Inv s.state l
  intact : ∀ t ∈ s.live, s.heap.mem (t.addr + 16) = t.sizeofKmpTask + t.sizeofShareds
  apart : ∀ t ∈ s.live, ∀ a, t.Writable a →
    t.addr ≤ a ∧ a < t.addr + t.total ∧ (a < t.addr + 16 ∨ t.addr + 20 ≤ a)

section Tasks

variable {A : Arena} {s s' : TaskHeap} {l l' : List Chunk} {t u : Task} {a : Nat} {heap : Heap}

theorem Task.twenty_le_total (t : Task) : 20 ≤ t.total := by
  unfold Task.total
  omega

/-- Where a block lies. -/
theorem TaskHeap.block_mem (harena : A.Inv s.state l) (ht : t ∈ s.live) :
    Roundable t.total ∧ 8 ∣ t.addr ∧ 8 ∣ rounded t.total ∧ t.total ≤ rounded t.total ∧
      A.lo ≤ t.addr ∧ t.addr + rounded t.total ≤ A.hi := by
  obtain ⟨hround, h8, hlo, hhi⟩ := harena.roundable t.block (List.mem_map_of_mem ht)
  have hle : (t.total : Int) ≤ rounded t.total := le_rounded hround
  exact ⟨hround, h8, (rounded_pos hround).2, Int.ofNat_le.mp hle, hlo, hhi⟩

/-- The word of a byte of a block. -/
theorem TaskHeap.hasWord (harena : A.Inv s.state l) (ht : t ∈ s.live) (hlo : t.addr ≤ a)
    (hhi : a < t.addr + t.total) : t.block.HasWord (a / 4 * 4) := by
  obtain ⟨-, h8, hround8, hle, -, -⟩ := block_mem harena ht
  refine ⟨Nat.dvd_mul_left _ _, ?_, ?_⟩
  · change t.addr ≤ a / 4 * 4
    omega
  · change a / 4 * 4 + 4 ≤ t.addr + rounded t.total
    omega

/-- The field with the size lies in the block. -/
theorem TaskHeap.size_mem (harena : A.Inv s.state l) (ht : t ∈ s.live) :
    t.addr + 16 ∈ t.block.chunk.bytes := by
  obtain ⟨-, -, -, hle, -, -⟩ := block_mem harena ht
  have htotal := t.twenty_le_total
  constructor
  · exact Nat.le_add_right _ _
  · change t.addr + 16 < t.addr + rounded t.total
    omega

/-- The blocks of two tasks do not overlap. -/
theorem TaskHeap.blocks_disjoint (harena : A.Inv s.state l) (ht : t ∈ s.live) (hu : u ∈ s.live)
    (hne : t ≠ u) : Disjoint t.block.chunk.bytes u.block.chunk.bytes := by
  have hpair := (harena.perm ((List.perm_cons_erase ht).map Task.block)).apart
  have hu' := (List.mem_erase_of_ne hne.symm).mpr hu
  exact (List.pairwise_cons.mp hpair).1 u.block (List.mem_map_of_mem hu')

theorem TaskHeap.Inv.keepsSizes (hinv : s.Inv A l) : s.KeepsSizes := by
  intro t ht u hu a ha value
  refine Memory.setByte_apply_ne ?_ value
  obtain ⟨hlo, hhi, hsize⟩ := hinv.apart u hu a ha
  by_cases hne : t = u
  · subst hne
    have h8 := (block_mem hinv.arena ht).2.1
    omega
  · intro heq
    obtain ⟨-, hword, hword'⟩ := hasWord hinv.arena hu hlo hhi
    have hin : t.addr + 16 ∈ u.block.chunk.bytes := by
      rw [heq]
      exact ⟨hword, by omega⟩
    have hapart := blocks_disjoint hinv.arena ht hu hne
    exact Set.disjoint_left.mp hapart (size_mem hinv.arena ht) hin

/-- A write of generated code keeps the invariant. -/
theorem TaskHeap.Inv.write (hinv : s.Inv A l) (ht : t ∈ s.live) (ha : t.Writable a)
    (value : BitVec 8) : (s.setMem (s.heap.mem.setByte a value)).Inv A l := by
  obtain ⟨hlo, hhi, -⟩ := hinv.apart t ht a ha
  refine ⟨?_, ?_, hinv.apart⟩
  · exact hinv.arena.store (List.mem_map_of_mem ht) (hasWord hinv.arena ht hlo hhi)
  · intro u hu
    exact (hinv.keepsSizes u hu t ht a ha value).trans (hinv.intact u hu)

theorem TaskHeap.Inv.freedSize (hinv : s.Inv A l) (ht : t ∈ s.live) :
    s.heap.freedSize t.addr = t.total := by
  have hround := (block_mem hinv.arena ht).1
  rw [Heap.freedSize, hinv.intact t ht, ← BitVec.add_assoc]
  exact toInt_total (total_lt_of_roundable hround)

/-- The end of a task gives its block back. -/
theorem TaskHeap.Inv.finish (hinv : s.Inv A l) (ht : t ∈ s.live) : ∃ heap l',
    s.heap.kmpcOmpTaskEnd t.addr = some heap ∧ TaskHeap.Inv A ⟨heap, s.live.erase t⟩ l' := by
  have hperm := (List.perm_cons_erase ht).map Task.block
  have harena := hinv.arena.perm hperm
  obtain ⟨heap, l', hcall, hfreed, hframe⟩ := harena.free List.mem_cons_self
  have hfree : s.heap.kmpcOmpTaskEnd t.addr = some heap := by
    rw [Heap.kmpcOmpTaskEnd, hinv.freedSize ht]
    exact hcall
  rw [List.map_cons, List.erase_cons_head] at hfreed
  refine ⟨heap, l', hfree, hfreed, ?_, ?_⟩
  · intro u hu
    have hu' := List.mem_of_mem_erase hu
    have hsize := size_mem hinv.arena hu'
    have hfirst := (List.pairwise_cons.mp harena.apart).1 u.block (List.mem_map_of_mem hu)
    have hkept := hframe (u.addr + 16)
      (Set.disjoint_left.mp (hinv.arena.used u.block (List.mem_map_of_mem hu')) hsize)
      (Set.disjoint_right.mp hfirst hsize)
    exact hkept.trans (hinv.intact u hu')
  · intro u hu
    exact hinv.apart u (List.mem_of_mem_erase hu)

/-- An allocation that the free list can serve. -/
theorem TaskHeap.Inv.alloc (hinv : s.Inv A l) (taskEntry : BitVec 32) (hround : Roundable t.total)
    (hchunk : s.heap.firstFit (rounded t.total) = t.addr) (hne : t.addr ≠ 0) : ∃ heap l',
    s.heap.kmpcOmpTaskAlloc t.sizeofKmpTask t.sizeofShareds taskEntry = some (heap, t.addr) ∧
      heap.mem t.addr = s.heap.mem t.addr ∧ A.Inv (state ⟨heap, t :: s.live⟩) l' ∧
      ∀ u ∈ t :: s.live, heap.mem (u.addr + 16) = u.sizeofKmpTask + u.sizeofShareds := by
  have hpos := (rounded_pos hround).1
  have hfits : ∀ heap ptr, s.heap.rtUserAlloc t.total = some (heap, ptr) →
      t.addr = ptr ∧ (ptr ≠ 0 → heap.mem ptr = s.heap.mem ptr) := by
    intro heap ptr hcall
    obtain ⟨hptr, hfirst⟩ := rtUserAlloc_firstFit hinv.arena.holds A.bounds (alignUp_eq hround) hpos
      hcall
    exact ⟨hchunk.symm.trans hptr.symm, hfirst⟩
  rcases hinv.arena.alloc hround with hcall | ⟨heap, ptr, l', hcall, -, harena, hframe⟩
  · exact absurd (hfits _ _ hcall).1 hne
  · obtain ⟨rfl, hfirst⟩ := hfits heap ptr hcall
    have hint := toInt_total (total_lt_of_roundable hround)
    let mem := kmpTaskMem heap.mem t.addr taskEntry (t.sizeofKmpTask + t.sizeofShareds)
    have htask : s.heap.kmpcOmpTaskAlloc t.sizeofKmpTask t.sizeofShareds taskEntry =
        some ({ heap with mem := mem }, t.addr) := Heap.kmpcOmpTaskAlloc_eq_some.mpr
      ⟨heap, (congrArg s.heap.rtUserAlloc hint).trans hcall, rfl⟩
    have hblocks : A.Inv (state ⟨heap, t :: s.live⟩) l' := harena
    obtain ⟨-, h8, hround8, hle, -, -⟩ := block_mem hblocks List.mem_cons_self
    have htotal := t.twenty_le_total
    have hword : ∀ j, 4 ∣ j → j ≤ 16 → t.block.HasWord (t.addr + j) := by
      intro j hj hj16
      refine ⟨by omega, Nat.le_add_right _ _, ?_⟩
      change t.addr + j + 4 ≤ t.addr + rounded t.total
      omega
    refine ⟨_, l', htask, ?_, ?_, ?_⟩
    · rw [← hfirst hne]
      exact kmpTaskMem_apply_ne (by omega) (by omega) (by omega)
    · exact hblocks.kmpTaskMem List.mem_cons_self hword taskEntry _
    · intro u hu
      rcases List.mem_cons.mp hu with rfl | hu
      · exact Function.update_self _ _ _
      · have hsize := size_mem hinv.arena hu
        have hold := Set.disjoint_left.mp
          (hinv.arena.used u.block (List.mem_map_of_mem hu)) hsize
        have hnew := Set.disjoint_right.mp
          ((List.pairwise_cons.mp hblocks.apart).1 u.block (List.mem_map_of_mem hu)) hsize
        have hother : ∀ j, 4 ∣ j → j ≤ 16 → u.addr + 16 ≠ t.addr + j := by
          intro j hj hj16 heq
          obtain ⟨-, hlo, hhi⟩ := hword j hj hj16
          exact hnew (heq ▸ ⟨hlo, by omega⟩)
        refine Eq.trans ?_ ((hframe _ hold).trans (hinv.intact u hu))
        exact kmpTaskMem_apply_ne (hother 4 (by decide) (by decide))
          (hother 8 (by decide) (by decide)) (hother 16 (by decide) (by decide))

/-- An allocation under its condition, with all that generated code can write. -/
theorem TaskHeap.Inv.alloc_meets (hinv : s.Inv A l) {k n taskEntry : BitVec 32}
    (hmeets : s.Meets (.alloc k n taskEntry)) : ∃ heap task l',
    s.heap.kmpcOmpTaskAlloc k n taskEntry = some (heap, task) ∧ task ≠ 0 ∧
      Task.SharedsInside ⟨task, k, n, (heap.mem task).toNat⟩ ∧
      TaskHeap.Inv A ⟨heap, ⟨task, k, n, (heap.mem task).toNat⟩ :: s.live⟩ l' := by
  obtain ⟨hround, hne, hk, hshareds⟩ := hmeets
  let task := s.heap.firstFit (rounded (20 + k.toNat + n.toNat : Nat))
  let t : Task := ⟨task, k, n, (s.heap.mem task).toNat⟩
  obtain ⟨heap, l', hcall, hfirst, harena, hintact⟩ :=
    hinv.alloc (t := t) taskEntry hround rfl hne
  have hinside : t.SharedsInside := by
    intro a hlo hhi
    change (s.heap.mem task).toNat ≤ a at hlo
    change a < (s.heap.mem task).toNat + n.toNat at hhi
    change task + 20 ≤ a ∧ task + k.toNat ≤ a ∧ a < task + (20 + k.toNat + n.toNat)
    change n = 0 ∨ task + 20 ≤ (s.heap.mem task).toNat ∧
      (s.heap.mem task).toNat + n.toNat ≤ task + (20 + k.toNat + n.toNat) at hshareds
    rcases hshareds with rfl | hbehind
    · exact absurd hhi (not_lt.mpr hlo)
    · omega
  have ht : (⟨task, k, n, (heap.mem task).toNat⟩ : Task) = t := by
    rw [show heap.mem task = s.heap.mem task from hfirst]
  refine ⟨heap, task, l', hcall, hne, ?_⟩
  rw [ht]
  refine ⟨hinside, harena, hintact, ?_⟩
  intro u hu a ha
  rcases List.mem_cons.mp hu with rfl | hu
  · rcases ha with ⟨hlo, hhi⟩ | ⟨hlo, hhi⟩
    · change task ≤ a at hlo
      change a < task + k.toNat at hhi
      change task ≤ a ∧ a < task + (20 + k.toNat + n.toNat) ∧ (a < task + 16 ∨ task + 20 ≤ a)
      omega
    · obtain ⟨hbehind, -, hend⟩ := hinside a hlo hhi
      exact ⟨(Nat.le_add_right _ _).trans hbehind, hend, Or.inr hbehind⟩
  · exact hinv.apart u hu a ha

/-- A block inside the arena has a size that can be rounded up. -/
theorem TaskHeap.Right.fits {k n taskEntry : BitVec 32}
    (hright : s.Right A (.alloc k n taskEntry)) :
    A.lo < A.hi ∧ Roundable (20 + k.toNat + n.toNat : Nat) := by
  obtain ⟨heap, task, hcall, -, -, -, l, hsound⟩ := hright
  let t : Task := ⟨task, k, n, (heap.mem task).toNat⟩
  have htotal := t.twenty_le_total
  have hcast : (rounded t.total : Int) = (t.total + 7) / 8 * 8 := rounded_cast (by omega)
  have hin : t.block.chunk.bytes ⊆ Set.Ico A.lo A.hi := hsound.inside.1 t.block (by simp [state, t])
  have hfirst : t.addr ∈ Set.Ico A.lo A.hi := by
    refine hin ⟨le_refl _, ?_⟩
    change t.addr < t.addr + rounded t.total
    omega
  have hlast : t.addr + t.total - 1 ∈ Set.Ico A.lo A.hi := by
    refine hin ⟨?_, ?_⟩
    · change t.addr ≤ t.addr + t.total - 1
      omega
    · change t.addr + t.total - 1 < t.addr + rounded t.total
      omega
  have hint := A.bounds.int
  have hlt := hfirst.1.trans_lt hfirst.2
  have hsize : t.total < 2 ^ 31 := by
    have hlo := hfirst.1
    have hhi := hlast.2
    omega
  obtain ⟨h', hserved, -⟩ := Heap.kmpcOmpTaskAlloc_eq_some.mp hcall
  rw [toInt_total (t := t) hsize, Heap.rtUserAlloc, Option.bind_eq_bind,
    Option.bind_eq_some_iff] at hserved
  obtain ⟨size, halign, -⟩ := hserved
  exact ⟨hlt, by change (1 : Int) ≤ t.total; omega, fits_of_alignUp halign⟩

/-- An allocation does what it is for exactly under its condition. -/
theorem TaskHeap.Inv.alloc_iff (hinv : s.Inv A l) {k n taskEntry : BitVec 32} :
    s.Right A (.alloc k n taskEntry) ↔ s.Meets (.alloc k n taskEntry) := by
  constructor
  · intro hright
    obtain ⟨-, hround⟩ := hright.fits
    obtain ⟨heap, task, hcall, hne, hinside, hkeeps, -⟩ := hright
    let t : Task := ⟨task, k, n, (heap.mem task).toNat⟩
    obtain ⟨h', hserved, -⟩ := Heap.kmpcOmpTaskAlloc_eq_some.mp hcall
    rw [toInt_total (t := t) (total_lt_of_roundable hround)] at hserved
    have hchunk := (rtUserAlloc_firstFit hinv.arena.holds A.bounds (alignUp_eq hround)
      (rounded_pos hround).1 hserved).1
    obtain ⟨heap', l', hcall', hfirst, harena, -⟩ :=
      hinv.alloc (t := t) taskEntry hround hchunk.symm hne
    obtain ⟨rfl, -⟩ := Prod.mk.inj (Option.some.inj (hcall.symm.trans hcall'))
    have hk : k.toNat ≤ 16 := by
      by_contra hk
      -- the word with the size starts inside the private part
      obtain ⟨value, hchanged⟩ := Memory.exists_setByte_ne heap.mem (task + 16)
      have h8 : 8 ∣ task := (block_mem harena List.mem_cons_self).2.1
      have hword : (task + 16) / 4 * 4 = task + 16 := by omega
      rw [hword] at hchanged
      refine hchanged (hkeeps t List.mem_cons_self t List.mem_cons_self (task + 16) (Or.inl ?_) value)
      exact ⟨Nat.le_add_right _ _, Nat.add_lt_add_left (show 16 < k.toNat by omega) _⟩
    have hshareds : n = 0 ∨ task + 20 ≤ (s.heap.mem task).toNat ∧
        (s.heap.mem task).toNat + n.toNat ≤ task + (20 + k.toNat + n.toNat) := by
      rcases Nat.eq_zero_or_pos n.toNat with hzero | hpos
      · exact Or.inl (BitVec.eq_of_toNat_eq hzero)
      · rw [← show heap.mem task = s.heap.mem task from hfirst]
        have hlo := hinside (heap.mem task).toNat (le_refl _) (Nat.lt_add_of_pos_right hpos)
        have hhi := hinside ((heap.mem task).toNat + n.toNat - 1) (by dsimp only; omega)
          (by dsimp only; omega)
        simp only [Task.total] at hlo hhi
        omega
    subst hchunk
    exact ⟨hround, hne, hk, hshareds⟩
  · intro hmeets
    obtain ⟨heap, task, l', hcall, hne, hinside, hinv'⟩ := hinv.alloc_meets hmeets
    have hlt : A.lo < A.hi := by
      have hblock := block_mem hinv'.arena List.mem_cons_self
      have hpos := (rounded_pos hblock.1).1
      omega
    exact ⟨heap, task, hcall, hne, hinside, hinv'.keepsSizes, l', hinv'.arena.sound hlt⟩

theorem TaskHeap.Inv.right_iff (hinv : s.Inv A l) (hlt : A.lo < A.hi) (op : TaskOp) :
    s.Right A op ↔ s.Meets op := by
  cases op with
  | alloc k n taskEntry => exact hinv.alloc_iff
  | write t a value =>
    refine iff_of_true ?_ trivial
    intro ht ha
    have hinv' := hinv.write ht ha value
    exact ⟨hinv'.keepsSizes, l, hinv'.arena.sound hlt⟩
  | finish t =>
    refine iff_of_true ?_ trivial
    intro ht
    obtain ⟨heap, l', hcall, hinv'⟩ := hinv.finish ht
    exact ⟨hinv.freedSize ht, heap, hcall, l', hinv'.arena.sound hlt⟩

theorem TaskHeap.Inv.step {op : TaskOp} {h : List TaskEvent} (hinv : s.Inv A l)
    (hmeets : s.Meets op) (hstep : taskMachine s op = some (s', h)) : ∃ l', s'.Inv A l' := by
  cases op with
  | alloc k n taskEntry =>
    obtain ⟨heap, task, l', hcall, hne, -, hinv'⟩ := hinv.alloc_meets hmeets
    simp only [taskMachine, hcall, if_neg hne] at hstep
    cases hstep
    exact ⟨l', hinv'⟩
  | write t a value =>
    simp only [taskMachine] at hstep
    split at hstep
    · next hwrite =>
      cases hstep
      exact ⟨l, hinv.write hwrite.1 hwrite.2 value⟩
    · cases hstep
  | finish t =>
    simp only [taskMachine] at hstep
    split at hstep
    · next ht =>
      obtain ⟨heap, l', hcall, hinv'⟩ := hinv.finish ht
      rw [hcall] at hstep
      cases hstep
      exact ⟨l', hinv'⟩
    · cases hstep

theorem TaskHeap.Inv.start (A : Arena) (hlt : A.lo < A.hi) (mem : Memory) :
    (A.startTasks mem).Inv A [⟨A.lo, A.hi - A.lo⟩] := by
  refine ⟨Arena.Inv.start A hlt mem, ?_, ?_⟩
  · intro t ht
    cases ht
  · intro t ht
    cases ht

/-- An arena without room has no chunk for any size. -/
theorem Arena.firstFit_empty (hA : A.lo = A.hi) (mem : Memory) {n : Nat} (hn : 0 < n) :
    (A.startTasks mem).heap.firstFit n = 0 := by
  have hlist := A.start_segment mem
  rw [hA, Nat.sub_self] at hlist
  rw [Heap.firstFit, Arena.startTasks, walk_empty hlist hn]
  rfl

theorem Arena.not_meets_empty (hA : A.lo = A.hi) (mem : Memory) (k n taskEntry : BitVec 32) :
    ¬ (A.startTasks mem).Meets (.alloc k n taskEntry) := by
  intro hmeets
  exact hmeets.2.1 (A.firstFit_empty hA mem (rounded_pos hmeets.1).1)

end Tasks

/-- Along every sequence of task allocations, of writes of generated code and of ends of tasks, each
step does what it is for if and only if each step meets its condition. -/
theorem omp_tasks_iff (A : Arena) (mem : Memory) (ops : List TaskOp) :
    Machine.Along taskMachine (TaskHeap.Right A) (A.startTasks mem) ops ↔
      Machine.Along taskMachine TaskHeap.Meets (A.startTasks mem) ops := by
  rcases Nat.lt_or_eq_of_le (Nat.le_add_right A.lo A.extent) with hlt | hA
  · have hstep : ∀ (s : TaskHeap) (op : TaskOp) (s' : TaskHeap) (h : List TaskEvent),
        (∃ l, s.Inv A l) → s.Meets op → taskMachine s op = some (s', h) → ∃ l, s'.Inv A l := by
      intro s op s' h hinv hmeets hnext
      obtain ⟨l, hinv⟩ := hinv
      exact hinv.step hmeets hnext
    have hiff : ∀ (s : TaskHeap) (op : TaskOp), (∃ l, s.Inv A l) → (s.Right A op ↔ s.Meets op) := by
      intro s op hinv
      obtain ⟨l, hinv⟩ := hinv
      exact hinv.right_iff hlt op
    exact Machine.along_iff hstep hiff ⟨_, TaskHeap.Inv.start A hlt mem⟩
  · have hstep : ∀ (s : TaskHeap) (op : TaskOp) (s' : TaskHeap) (h : List TaskEvent),
        s = A.startTasks mem → s.Meets op → taskMachine s op = some (s', h) →
          s' = A.startTasks mem := by
      intro s op s' h hs hmeets hnext
      subst hs
      cases op with
      | alloc k n taskEntry => exact absurd hmeets (A.not_meets_empty hA mem k n taskEntry)
      | write t a value => simp [taskMachine, Arena.startTasks] at hnext
      | finish t => simp [taskMachine, Arena.startTasks] at hnext
    have hiff : ∀ (s : TaskHeap) (op : TaskOp), s = A.startTasks mem →
        (s.Right A op ↔ s.Meets op) := by
      intro s op hs
      subst hs
      cases op with
      | alloc k n taskEntry =>
        refine iff_of_false ?_ (A.not_meets_empty hA mem k n taskEntry)
        intro hright
        exact absurd hA hright.fits.1.ne
      | write t a value => simp [TaskHeap.Right, TaskHeap.Meets, Arena.startTasks]
      | finish t => simp [TaskHeap.Right, TaskHeap.Meets, Arena.startTasks]
    exact Machine.along_iff hstep hiff rfl

/-- With a private part of four bytes, generated code writes to the field with the size; a pointer to
shared variables is never stored. -/
theorem omp_tasks_not_right :
    ((taskMachine.run (smallArena.startTasks fun _ => 0)
        [.alloc 20 0 0, .write ⟨8, 20, 0, 56⟩ 24 4, .finish ⟨8, 20, 0, 56⟩]).map Prod.snd =
      some [.allocated 8, .freed 8 24]) ∧
    ¬ Machine.Along taskMachine (TaskHeap.Right smallArena) (smallArena.startTasks fun _ => 0)
      [.alloc 20 0 0] ∧
    ¬ Machine.Along taskMachine (TaskHeap.Right smallArena) (smallArena.startTasks fun _ => 0)
      [.alloc 16 4 0] := by
  have hinv := TaskHeap.Inv.start smallArena (by decide) fun _ => 0
  refine ⟨by decide +kernel, ?_, ?_⟩
  · intro h
    have hsize := (hinv.alloc_iff.mp h.1).2.2.1
    exact absurd hsize (by decide)
  · intro h
    have hshareds := (hinv.alloc_iff.mp h.1).2.2.2
    revert hshareds
    decide +kernel

end Hero.Runtime
