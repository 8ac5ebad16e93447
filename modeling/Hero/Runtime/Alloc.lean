import Hero.Framework.Checked
import Hero.Framework.FreeList
import Mathlib.Logic.Function.Basic

/-!
# Memory allocators of the runtime

`rt_user_alloc` and `rt_user_free` keep the list of free chunks in the free memory itself: the
first word of a chunk is its size and the second one points to the next chunk.
-/

namespace Hero.Runtime

open Hero.Checked Hero.FreeList

/-- The words of a memory by their byte addresses. -/
abbrev Memory := Nat → BitVec 32

namespace Memory

/-- The field `size` of the `rt_alloc_chunk_t` at an address. -/
def size (m : Memory) (p : Nat) : Int := (m p).toInt

/-- The field `next`. -/
def next (m : Memory) (p : Nat) : Nat := (m (p + 4)).toNat

def setSize (m : Memory) (p : Nat) (size : Int) : Memory :=
  Function.update m p (BitVec.ofInt 32 size)

def setNext (m : Memory) (p : Nat) (next : Nat) : Memory :=
  Function.update m (p + 4) (BitVec.ofNat 32 next)

end Memory

/-- A `rt_alloc_t` and the memory it manages. -/
structure Heap where
  mem : Memory
  firstFree : Nat

def minChunkSize : Int := 8

/-- `ALIGN_UP` of an `int` to `MIN_CHUNK_SIZE`; masking rounds down, also below zero. -/
def alignUp (x : Int) : Option Int := do
  let y ← sub 32 (← add 32 x minChunkSize) 1
  return y / minChunkSize * minChunkSize

/-- The number of chunk addresses there are. -/
def maxChunks : Nat := 2 ^ 29

/-- The loops over the free list: `prev` and the chunk at which `go` no longer holds, or NULL.  No
result is a list that does not end. -/
def walk (m : Memory) (go : Nat → Bool) : Nat → Nat → Nat → Option (Nat × Nat)
  | 0, _, _ => none
  | fuel + 1, prev, pt =>
    if pt ≠ 0 ∧ go pt then walk m go fuel pt (m.next pt) else some (prev, pt)

namespace Heap

/-- `if (prev) prev->next = pt; else a->first_free = pt`. -/
def relink (h : Heap) (prev pt : Nat) : Heap :=
  if prev ≠ 0 then { h with mem := h.mem.setNext prev pt } else { h with firstFree := pt }

/-- `rt_user_alloc_init`. -/
def rtUserAllocInit (mem : Memory) (base : Nat) (size : Int) : Heap :=
  let chunk := (base + 7) / 8 * 8
  let size := size - (chunk - base : Nat)
  if size > 0 then
    ⟨(mem.setSize chunk (size / minChunkSize * minChunkSize)).setNext chunk 0, chunk⟩
  else ⟨mem, chunk⟩

/-- `(char *)pt + size`; an address in front of the chunk has no defined value. -/
def offset (pt : Nat) (size : Int) : Option Nat :=
  if 0 ≤ size then some (pt + size.toNat) else none

@[simp] theorem offset_natCast (pt n : Nat) : offset pt (n : Int) = some (pt + n) :=
  if_pos (Int.natCast_nonneg n)

/-- `rt_user_alloc`; the address zero is NULL. -/
def rtUserAlloc (h : Heap) (size : Int) : Option (Heap × Nat) := do
  let size ← alignUp size
  let (prev, pt) ← walk h.mem (fun pt => h.mem.size pt < size) maxChunks 0 h.firstFree
  if pt = 0 then return (h, 0)
  else if h.mem.size pt = size then return (h.relink prev (h.mem.next pt), pt)
  else
    let newPt ← offset pt size
    let mem := h.mem.setSize newPt (← sub 32 (h.mem.size pt) size)
    let mem := mem.setNext newPt (mem.next pt)
    return ({ h with mem := mem }.relink prev newPt, pt)

/-- The first half of `rt_user_free`: the header of the freed chunk, coalesced with the next one. -/
def coalesceNext (m : Memory) (chunk : Nat) (size : Int) (next : Nat) : Option Memory :=
  if (chunk : Int) + size = next then do
    let mem := m.setSize chunk (← add 32 size (m.size next))
    return mem.setNext chunk (mem.next next)
  else return (m.setSize chunk size).setNext chunk next

/-- The second half behind a chunk `prev`. -/
def coalescePrev (m : Memory) (prev chunk : Nat) : Option Memory :=
  if (prev : Int) + m.size prev = chunk then do
    let mem := m.setSize prev (← add 32 (m.size prev) (m.size chunk))
    return mem.setNext prev (mem.next chunk)
  else return m.setNext prev chunk

/-- `rt_user_free`. -/
def rtUserFree (h : Heap) (chunk : Nat) (size : Int) : Option Heap := do
  let size ← alignUp size
  let (prev, next) ← walk h.mem (· < chunk) maxChunks 0 h.firstFree
  let mem ← coalesceNext h.mem chunk size next
  if prev ≠ 0 then return { h with mem := ← coalescePrev mem prev chunk }
  else return ⟨mem, chunk⟩

end Heap

/-! ### The list in memory -/

/-- From `p` on, the chunks `l` are linked to each other and the last one to `q`. -/
def Segment (m : Memory) : Nat → List Chunk → Nat → Prop
  | p, [], q => p = q
  | p, c :: l, q => p = c.addr ∧ p ≠ 0 ∧ m.size p = c.size ∧ Segment m (m.next p) l q

/-- The address of the first chunk, or NULL. -/
def headAddr : List Chunk → Nat
  | [] => 0
  | c :: _ => c.addr

@[simp] theorem headAddr_nil : headAddr [] = 0 := rfl

@[simp] theorem headAddr_cons (c : Chunk) (l : List Chunk) : headAddr (c :: l) = c.addr := rfl

/-- The address of the last chunk, or `prev`. -/
def lastAddr (prev : Nat) : List Chunk → Nat
  | [] => prev
  | c :: l => lastAddr c.addr l

section Words

variable {m : Memory} {p q : Nat} {x : Int} {n : Nat}

theorem size_setSize_self (hx : Fits 32 x) : (m.setSize p x).size p = x := by
  rw [Memory.size, Memory.setSize, Function.update_self]
  exact BitVec.toInt_ofInt_eq_self (by decide) hx.1 hx.2

theorem size_setSize_ne (h : q ≠ p) : (m.setSize p x).size q = m.size q := by
  rw [Memory.size, Memory.setSize, Function.update_of_ne h]
  rfl

theorem next_setSize (hp : 8 ∣ p) (hq : 8 ∣ q) : (m.setSize p x).next q = m.next q := by
  rw [Memory.next, Memory.setSize, Function.update_of_ne (by omega)]
  rfl

theorem size_setNext (hp : 8 ∣ p) (hq : 8 ∣ q) : (m.setNext p n).size q = m.size q := by
  rw [Memory.size, Memory.setNext, Function.update_of_ne (by omega)]
  rfl

theorem next_setNext_self (hn : n < 2 ^ 32) : (m.setNext p n).next p = n := by
  rw [Memory.next, Memory.setNext, Function.update_self, BitVec.toNat_ofNat, Nat.mod_eq_of_lt hn]

theorem next_setNext_ne (h : q ≠ p) : (m.setNext p n).next q = m.next q := by
  rw [Memory.next, Memory.setNext, Function.update_of_ne (by omega)]
  rfl

theorem setSize_apply_ne (h : q ≠ p) : m.setSize p x q = m q := Function.update_of_ne h _ _

theorem setNext_apply_ne (h : q ≠ p + 4) : m.setNext p n q = m q := Function.update_of_ne h _ _

end Words

section Lists

variable {m m' : Memory} {p q r : Nat} {c : Chunk} {l l' : List Chunk}

theorem Segment.congr (h : Segment m p l q)
    (hsame : ∀ c ∈ l, m'.size c.addr = m.size c.addr ∧ m'.next c.addr = m.next c.addr) :
    Segment m' p l q := by
  induction l generalizing p with
  | nil => exact h
  | cons c l ih =>
    obtain ⟨rfl, hne, hsize, hrest⟩ := h
    obtain ⟨hsize', hnext'⟩ := hsame c List.mem_cons_self
    refine ⟨rfl, hne, hsize'.trans hsize, ?_⟩
    rw [hnext']
    exact ih hrest (fun d hd => hsame d (List.mem_cons_of_mem _ hd))

theorem segment_append :
    Segment m p (l ++ l') q ↔ ∃ r, Segment m p l r ∧ Segment m r l' q := by
  induction l generalizing p with
  | nil => simp [Segment]
  | cons c l ih =>
    simp only [List.cons_append, Segment, ih]
    constructor
    · intro h
      obtain ⟨haddr, hne, hsize, r, hl, hl'⟩ := h
      exact ⟨r, ⟨haddr, hne, hsize, hl⟩, hl'⟩
    · intro h
      obtain ⟨r, ⟨haddr, hne, hsize, hl⟩, hl'⟩ := h
      exact ⟨haddr, hne, hsize, r, hl, hl'⟩

theorem segment_single : Segment m p [c] q ↔
    p = c.addr ∧ c.addr ≠ 0 ∧ m.size c.addr = c.size ∧ m.next c.addr = q := by
  constructor
  · intro h
    obtain ⟨rfl, hne, hsize, hnext⟩ := h
    exact ⟨rfl, hne, hsize, hnext⟩
  · intro h
    obtain ⟨rfl, hne, hsize, hnext⟩ := h
    exact ⟨rfl, hne, hsize, hnext⟩

theorem Segment.head (h : Segment m p l 0) : p = headAddr l := by
  cases l with
  | nil => exact h
  | cons c l => exact h.1

theorem lastAddr_snoc (prev : Nat) : lastAddr prev (l ++ [c]) = c.addr := by
  induction l generalizing prev with
  | nil => rfl
  | cons d l ih => exact ih d.addr

/-- A loop over the list stops at the first chunk that fails its test. -/
theorem walk_eq {go : Nat → Bool} {test : Chunk → Bool} {fuel prev : Nat} (h : Segment m p l 0)
    (htest : ∀ c ∈ l, go c.addr = test c) (hfuel : l.length < fuel) :
    walk m go fuel prev p = some (lastAddr prev (l.takeWhile test), headAddr (l.dropWhile test)) := by
  induction l generalizing p fuel prev with
  | nil =>
    cases h
    cases fuel with
    | zero => cases hfuel
    | succ fuel => rfl
  | cons c l ih =>
    cases fuel with
    | zero => cases hfuel
    | succ fuel =>
      obtain ⟨rfl, hne, -, hrest⟩ := h
      have hc := htest c List.mem_cons_self
      have hl := fun d hd => htest d (List.mem_cons_of_mem _ hd)
      have hlen : l.length < fuel := by simpa using hfuel
      rw [walk, hc]
      cases htc : test c with
      | true =>
        rw [if_pos ⟨hne, rfl⟩, ih hrest hl hlen, List.takeWhile_cons_of_pos htc,
          List.dropWhile_cons_of_pos htc]
        rfl
      | false =>
        have hstop : ¬ test c = true := by simp [htc]
        rw [if_neg (by simp), List.takeWhile_cons_of_neg hstop, List.dropWhile_cons_of_neg hstop]
        rfl

end Lists

theorem next_lt (m : Memory) (p : Nat) : m.next p < 2 ^ 32 := BitVec.isLt _

section Headers

variable {m : Memory} {p q r n : Nat} {l : List Chunk}

/-- Writing the header of another chunk leaves a part of the list as it is. -/
theorem Segment.setHeader (h : Segment m p l r) {x : Int} (hq : 8 ∣ q)
    (hl : ∀ d ∈ l, d.addr ≠ q ∧ 8 ∣ d.addr) : Segment ((m.setSize q x).setNext q n) p l r := by
  refine h.congr ?_
  intro d hd
  obtain ⟨hdq, hd8⟩ := hl d hd
  exact ⟨(size_setNext hq hd8).trans (size_setSize_ne hdq),
    (next_setNext_ne hdq).trans (next_setSize hq hd8)⟩

/-- Writing a header that points to a part of the list puts a chunk in front of it. -/
theorem Segment.cons (h : Segment m r l 0) (hq : 8 ∣ q) (hpos : 0 < q) (hr : r < 2 ^ 32)
    (hn : Fits 32 (n : Int)) (hl : ∀ d ∈ l, d.addr ≠ q ∧ 8 ∣ d.addr) :
    Segment ((m.setSize q n).setNext q r) q (⟨q, n⟩ :: l) 0 := by
  refine ⟨rfl, by omega, (size_setNext hq hq).trans (size_setSize_self hn), ?_⟩
  rw [next_setNext_self hr]
  exact h.setHeader hq hl

theorem setHeader_apply {x y : Nat} {size : Int} (hy : y ≠ q) (hy' : y ≠ q + 4) :
    (m.setSize q size).setNext q x y = m y :=
  (setNext_apply_ne hy').trans (setSize_apply_ne hy)

end Headers

/-- An arena whose addresses are addresses and whose sizes are `int`s. -/
structure Bounds (lo hi : Nat) : Prop where
  pos : 0 < lo
  top : hi < 2 ^ 32
  int : hi - lo < 2 ^ 31

/-- The heap holds the list `l` of chunks of at least the minimum size. -/
structure Heap.Holds (lo hi : Nat) (h : Heap) (l : List Chunk) : Prop where
  linked : Segment h.mem h.firstFree l 0
  spaced : Spaced lo hi l
  aligned : Aligned 8 l

section Operations

variable {lo hi n a x : Nat} {size : Int} {h : Heap} {b c : Chunk} {l l' pre post : List Chunk}
  {m : Memory} {p q : Nat}

private theorem fits_of_lt (h : n < 2 ^ 31) : Fits 32 (n : Int) := by
  constructor
  · exact (by decide : (-2 ^ (32 - 1) : Int) ≤ 0).trans (Int.natCast_nonneg n)
  · exact Int.ofNat_lt.mpr h

theorem eight_le_size (hspaced : Spaced lo hi l) (haligned : Aligned 8 l) (hc : c ∈ l) :
    8 ≤ c.size :=
  Nat.le_of_dvd (hspaced.mem hc).2.1 (haligned c hc).2

theorem Heap.Holds.length_lt (hh : h.Holds lo hi l) (hb : Bounds lo hi) : l.length < maxChunks := by
  have hlen := length_mul_le (k := 8) (fun c hc => eight_le_size hh.spaced hh.aligned hc)
  have htotal := hh.spaced.total_le
  have hint := hb.int
  unfold maxChunks
  omega

/-- Both words of a header lie in its chunk. -/
theorem header_mem (hspaced : Spaced lo hi l) (haligned : Aligned 8 l) (hc : c ∈ l) :
    c.addr ∈ bytes l ∧ c.addr + 4 ∈ bytes l := by
  have hsize := eight_le_size hspaced haligned hc
  constructor
  · exact ⟨c, hc, le_refl _, Nat.lt_add_of_pos_right (by omega)⟩
  · exact ⟨c, hc, Nat.le_add_right _ _, Nat.add_lt_add_left (by omega) _⟩

/-- The chunks `pre` are linked to `q` instead. -/
theorem Heap.relink_linked (hpre : Segment h.mem h.firstFree pre p)
    (hpost : Segment h.mem q post 0) (hq : q < 2 ^ 32) (haligned : Aligned 8 (pre ++ post))
    (hdistinct : (pre ++ post).Pairwise fun c d => c.addr ≠ d.addr) :
    Segment (h.relink (lastAddr 0 pre) q).mem (h.relink (lastAddr 0 pre) q).firstFree
      (pre ++ post) 0 := by
  rcases List.eq_nil_or_concat pre with rfl | ⟨pre, d, rfl⟩
  · exact hpost
  · rw [List.concat_eq_append] at *
    rw [lastAddr_snoc]
    obtain ⟨r, hfirst, hlast⟩ := segment_append.mp hpre
    obtain ⟨rfl, hne, hsize, -⟩ := segment_single.mp hlast
    have hd := (haligned d (by simp)).1
    have hsame : ∀ c ∈ pre ++ post, c.addr ≠ d.addr →
        (h.mem.setNext d.addr q).size c.addr = h.mem.size c.addr ∧
          (h.mem.setNext d.addr q).next c.addr = h.mem.next c.addr := by
      intro c hc hcd
      have hc8 := (haligned c (by simp at hc ⊢; tauto)).1
      exact ⟨size_setNext hd hc8, next_setNext_ne hcd⟩
    rw [List.append_assoc, List.pairwise_append] at hdistinct
    obtain ⟨-, hback, hcross⟩ := hdistinct
    simp only [relink, if_pos hne]
    refine segment_append.mpr ⟨q, segment_append.mpr ⟨d.addr, ?_, ?_⟩, ?_⟩
    · exact hfirst.congr fun c hc => hsame c (by simp [hc]) (hcross c hc d (by simp))
    · exact segment_single.mpr ⟨rfl, hne, (size_setNext hd hd).trans hsize, next_setNext_self hq⟩
    · refine hpost.congr fun c hc => hsame c (by simp [hc]) ?_
      exact ((List.pairwise_cons.mp hback).1 c hc).symm

/-- Linking changes the last chunk of `pre` only. -/
theorem Heap.relink_apply (hspaced : Spaced lo hi l) (haligned : Aligned 8 l)
    (hsub : ∀ c ∈ pre, c ∈ l) (hx : x ∉ bytes l) :
    (h.relink (lastAddr 0 pre) q).mem x = h.mem x := by
  unfold relink
  split
  · next hne =>
    rcases List.eq_nil_or_concat pre with rfl | ⟨pre, d, rfl⟩
    · exact absurd rfl hne
    · rw [List.concat_eq_append] at *
      rw [lastAddr_snoc]
      have hd := header_mem hspaced haligned (hsub d (by simp))
      refine setNext_apply_ne ?_
      rintro rfl
      exact hx hd.2
  · rfl

theorem pairwise_addr (hspaced : Spaced lo hi l) : l.Pairwise fun c d => c.addr ≠ d.addr := by
  refine hspaced.pairwise.imp ?_
  intro c d hcd
  unfold Chunk.stop at hcd
  omega

theorem Segment.size_mem (h : Segment m p l q) (hc : c ∈ l) : m.size c.addr = c.size := by
  induction l generalizing p with
  | nil => cases hc
  | cons d l ih =>
    obtain ⟨rfl, -, hsize, hrest⟩ := h
    cases hc with
    | head => exact hsize
    | tail _ hc => exact ih hrest hc

/-- The loop of an allocation stops at the first chunk with enough room. -/
theorem walk_alloc (hh : h.Holds lo hi l) (hb : Bounds lo hi) :
    walk h.mem (fun pt => h.mem.size pt < (n : Int)) maxChunks 0 h.firstFree =
      some (lastAddr 0 (l.takeWhile (·.size < n)), headAddr (l.dropWhile (·.size < n))) := by
  refine walk_eq hh.linked ?_ (hh.length_lt hb)
  intro c hc
  rw [hh.linked.size_mem hc]
  simp

/-- A single chunk without room is passed over. -/
theorem walk_empty (hlist : Segment m p [⟨a, 0⟩] 0) (hn : 0 < n) :
    walk m (fun pt => m.size pt < (n : Int)) maxChunks 0 p = some (a, 0) := by
  have htest : ∀ c ∈ [(⟨a, 0⟩ : Chunk)],
      decide (m.size c.addr < (n : Int)) = decide (c.size < n) := by
    intro c hc
    rw [hlist.size_mem hc]
    simp
  have hfuel : [(⟨a, 0⟩ : Chunk)].length < maxChunks := by simp [maxChunks]
  have hwalk := @walk_eq _ _ _ (fun pt => m.size pt < (n : Int)) (fun c => c.size < n) maxChunks 0
    hlist htest hfuel
  simpa [hn, lastAddr] using hwalk

/-- Where no chunk is large enough nothing is allocated and nothing changes. -/
theorem rtUserAlloc_none (hh : h.Holds lo hi l) (hb : Bounds lo hi) (hsize : alignUp size = some (n : Int))
    (htake : take n l = none) : h.rtUserAlloc size = some (h, 0) := by
  have hwalk := walk_alloc (n := n) hh hb
  rw [take_eq_split] at htake
  cases hdrop : l.dropWhile (·.size < n) with
  | nil =>
    rw [hdrop] at hwalk
    simp [Heap.rtUserAlloc, hsize, hwalk, headAddr]
  | cons c post =>
    rw [hdrop] at htake
    cases htake

/-- An allocation does to the list in memory what `take` does to the list. -/
theorem rtUserAlloc_some (hh : h.Holds lo hi l) (hb : Bounds lo hi) (hsize : alignUp size = some (n : Int))
    (hpos : 0 < n) (hn : 8 ∣ n) (htake : take n l = some (a, l')) :
    ∃ h', h.rtUserAlloc size = some (h', a) ∧ h'.Holds lo hi l' ∧
      ∀ x ∉ bytes l, h'.mem x = h.mem x := by
  have hwalk := walk_alloc (n := n) hh hb
  have hspaced := (hh.spaced.take htake).1
  have haligned := (hh.aligned.take hn htake).2
  have hsub : ∀ c ∈ l.takeWhile (·.size < n), c ∈ l := fun c hc => List.takeWhile_subset _ hc
  have hl := List.takeWhile_append_dropWhile (p := (·.size < n)) (l := l)
  have hlinked := hh.linked
  rw [take_eq_split] at htake
  cases hdrop : l.dropWhile (·.size < n) with
  | nil =>
    rw [hdrop] at htake
    cases htake
  | cons c post =>
    rw [hdrop] at htake hwalk hl
    generalize hpre : l.takeWhile (·.size < n) = pre at *
    obtain ⟨rfl, hrest⟩ := Prod.mk.inj (Option.some.inj htake)
    have hc : c ∈ l := by simp [← hl]
    rw [← hl] at hlinked
    obtain ⟨r, hfirst, hlast⟩ := segment_append.mp hlinked
    obtain ⟨rfl, hne, hcsize, hpost⟩ := hlast
    by_cases hexact : c.size = n
    · rw [if_pos hexact] at hrest
      subst hrest
      refine ⟨h.relink (lastAddr 0 pre) (h.mem.next c.addr), ?_, ⟨?_, hspaced, haligned⟩, ?_⟩
      · simp [Heap.rtUserAlloc, hsize, hwalk, headAddr, hne, hcsize, hexact]
      · exact Heap.relink_linked hfirst hpost (next_lt _ _) haligned (pairwise_addr hspaced)
      · intro x hx
        exact Heap.relink_apply hh.spaced hh.aligned hsub hx
    · rw [if_neg hexact] at hrest
      subst hrest
      have hmore : n < c.size :=
        Nat.lt_of_sub_pos (hspaced.mem (c := ⟨c.addr + n, c.size - n⟩) (by simp)).2.1
      have hcarved : (c.size : Int) - n = (c.size - n : Nat) := by omega
      have hcle := hh.spaced.mem hc
      have hint := hb.int
      have htop := hb.top
      unfold Chunk.stop at hcle
      have hfits : Fits 32 ((c.size - n : Nat) : Int) := fits_of_lt (by omega)
      have hc8 := hh.aligned c hc
      have hnew8 : 8 ∣ c.addr + n := Nat.dvd_add hc8.1 hn
      have hothers : ∀ d ∈ pre ++ post, d.addr ≠ c.addr + n ∧ 8 ∣ d.addr := by
        intro d hd
        have hdistinct := pairwise_addr hspaced
        rw [List.pairwise_append, List.pairwise_cons] at hdistinct
        obtain ⟨-, ⟨hback, -⟩, hcross⟩ := hdistinct
        rcases List.mem_append.mp hd with hd | hd
        · exact ⟨hcross d hd _ List.mem_cons_self, (hh.aligned d (hsub d hd)).1⟩
        · exact ⟨(hback d hd).symm, (hh.aligned d (by simp [← hl, hd])).1⟩
      let mem := (h.mem.setSize (c.addr + n) (c.size - n : Nat)).setNext (c.addr + n)
        (h.mem.next c.addr)
      have hfirst' : Segment mem h.firstFree pre c.addr :=
        hfirst.setHeader hnew8 fun d hd => hothers d (by simp [hd])
      have hlast' : Segment mem (c.addr + n) (⟨c.addr + n, c.size - n⟩ :: post) 0 :=
        hpost.cons hnew8 (by omega) (next_lt _ _) hfits fun d hd => hothers d (by simp [hd])
      have hcall : h.rtUserAlloc size =
          some (({ h with mem := mem } : Heap).relink (lastAddr 0 pre) (c.addr + n), c.addr) := by
        have hsub32 : sub 32 (c.size : Int) n = some ((c.size - n : Nat) : Int) :=
          sub_eq_some.mpr ⟨hcarved ▸ hfits, hcarved⟩
        have hneq : ¬ (c.size : Int) = n := by omega
        simp only [Heap.rtUserAlloc, hsize, hwalk, headAddr, hne, hcsize, hneq, Heap.offset_natCast, hsub32,
          next_setSize hnew8 hc8.1, Option.bind_eq_bind, Option.bind_some, if_false, Option.pure_def]
        rfl
      refine ⟨_, hcall, ⟨?_, hspaced, haligned⟩, ?_⟩
      · exact Heap.relink_linked (h := { h with mem := mem }) hfirst' hlast' (by omega) haligned
          (pairwise_addr hspaced)
      · intro x hx
        have hsize8 : c.addr + n + 4 < c.addr + c.size := by
          have h8 : 8 ≤ c.size - n := eight_le_size hspaced haligned
            (c := ⟨c.addr + n, c.size - n⟩) (by simp)
          omega
        have hx0 : x ≠ c.addr + n := by
          rintro rfl
          exact hx ⟨c, hc, Nat.le_add_right _ _, by unfold Chunk.stop; omega⟩
        have hx1 : x ≠ c.addr + n + 4 := by
          rintro rfl
          exact hx ⟨c, hc, by omega, by unfold Chunk.stop; omega⟩
        rw [Heap.relink_apply (h := { h with mem := mem }) hh.spaced hh.aligned hsub hx]
        exact setHeader_apply hx0 hx1

/-- A size the first chunk has is taken from it. -/
theorem rtUserAlloc_first (hh : h.Holds lo hi (c :: l)) (hb : Bounds lo hi)
    (hsize : alignUp size = some (n : Int)) (hn : n ≤ c.size) :
    ∃ h', h.rtUserAlloc size = some (h', c.addr) := by
  have hwalk := walk_alloc (n := n) hh hb
  have hlarge : ¬ c.size < n := Nat.not_lt.mpr hn
  rw [List.takeWhile_cons_of_neg (by simpa using hlarge),
    List.dropWhile_cons_of_neg (by simpa using hlarge)] at hwalk
  obtain ⟨-, hne, hcsize, -⟩ := hh.linked
  rw [hh.linked.head, headAddr_cons] at hne hcsize
  have hc := hh.spaced.mem List.mem_cons_self
  have hint := hb.int
  unfold Chunk.stop at hc
  have hfits : Fits 32 ((c.size : Int) - n) := by
    rw [← Int.natCast_sub hn]
    exact fits_of_lt (by omega)
  have hsub := sub_eq_some.mpr ⟨hfits, rfl⟩
  by_cases hexact : (c.size : Int) = n
  · simp only [Heap.rtUserAlloc, hsize, hwalk, headAddr_cons, hne, hcsize, hexact, if_true, if_false,
      Option.bind_eq_bind, Option.bind_some]
    exact ⟨_, rfl⟩
  · simp only [Heap.rtUserAlloc, hsize, hwalk, headAddr_cons, hne, hcsize, hexact, hsub,
      Heap.offset_natCast, if_false, Option.bind_eq_bind, Option.bind_some]
    exact ⟨_, rfl⟩

/-- The freed chunk is linked to the chunks behind it and merged with the first one it touches. -/
private theorem coalesceNext_eq (hpost : Segment m (headAddr post) post 0) (ha : 0 < a)
    (ha8 : 8 ∣ a) (hothers : ∀ d ∈ post, d.addr ≠ a ∧ 8 ∣ d.addr) (hn : Fits 32 (n : Int))
    (hsum : ∀ d ∈ post, Fits 32 ((n + d.size : Nat) : Int)) (haddr : headAddr post < 2 ^ 32) :
    ∃ k rest next, put ⟨a, n⟩ post = ⟨a, k⟩ :: rest ∧ (∀ d ∈ rest, d ∈ post) ∧
      Heap.coalesceNext m a n (headAddr post) = some ((m.setSize a k).setNext a next) ∧
      Segment ((m.setSize a k).setNext a next) a (⟨a, k⟩ :: rest) 0 := by
  cases post with
  | nil =>
    have hnull : ¬ (a : Int) + n = (0 : Nat) := by omega
    refine ⟨n, [], 0, rfl, fun d hd => hd, if_neg hnull, ?_⟩
    exact Segment.cons (l := []) rfl ha8 ha (by decide) hn hothers
  | cons d post =>
    obtain ⟨-, hne, hsize, hrest⟩ := hpost
    rw [headAddr_cons] at *
    have hd := hothers d List.mem_cons_self
    by_cases htouch : a + n = d.addr
    · have hmerge : (a : Int) + n = (d.addr : Nat) := by omega
      have hadd : add 32 (n : Int) (m.size d.addr) = some ((n + d.size : Nat) : Int) := by
        rw [hsize]
        exact add_eq_some.mpr ⟨hsum d List.mem_cons_self, rfl⟩
      refine ⟨n + d.size, post, m.next d.addr, if_pos htouch, fun e he => List.mem_cons_of_mem _ he,
        ?_, ?_⟩
      · rw [Heap.coalesceNext, if_pos hmerge, hadd]
        simp [next_setSize ha8 hd.2]
      · exact hrest.cons ha8 ha (next_lt _ _) (hsum d List.mem_cons_self)
          (fun e he => hothers e (List.mem_cons_of_mem _ he))
    · have hgap : ¬ (a : Int) + n = (d.addr : Nat) := by omega
      refine ⟨n, d :: post, d.addr, if_neg htouch, fun e he => he, if_neg hgap, ?_⟩
      exact Segment.cons (l := d :: post) ⟨rfl, hne, hsize, hrest⟩ ha8 ha haddr hn hothers

/-- The chunk in front of the freed one is linked to it, or merged with it if they touch. -/
private theorem coalescePrev_eq {e : Chunk} {k : Nat} {rest : List Chunk}
    (hfirst : Segment m p (pre ++ [e]) q) (hlast : Segment m a (⟨a, k⟩ :: rest) 0)
    (hpre : ∀ d ∈ pre ++ rest, d.addr ≠ e.addr ∧ 8 ∣ d.addr) (he8 : 8 ∣ e.addr) (hea : e.addr ≠ a)
    (ha8 : 8 ∣ a) (hsum : Fits 32 ((e.size + k : Nat) : Int)) (haddr : a < 2 ^ 32) :
    ∃ m', Heap.coalescePrev m e.addr a = some m' ∧
      Segment m' p (pre ++ put e (⟨a, k⟩ :: rest)) 0 ∧
      ∀ x, x ≠ e.addr → x ≠ e.addr + 4 → m' x = m x := by
  obtain ⟨r, hpre', hlast'⟩ := segment_append.mp hfirst
  obtain ⟨rfl, hne, hsize, -⟩ := segment_single.mp hlast'
  obtain ⟨-, ha, hk, hrest⟩ := hlast
  unfold Heap.coalescePrev
  rw [hsize, hk]
  by_cases htouch : e.addr + e.size = a
  · have hmerge : (e.addr : Int) + e.size = (a : Nat) := by omega
    have hadd : add 32 (e.size : Int) k = some ((e.size + k : Nat) : Int) :=
      add_eq_some.mpr ⟨hsum, rfl⟩
    refine ⟨(m.setSize e.addr (e.size + k : Nat)).setNext e.addr (m.next a), ?_, ?_, ?_⟩
    · rw [if_pos hmerge, hadd]
      simp [next_setSize he8 ha8]
    · have hput : put e (⟨a, k⟩ :: rest) = ⟨e.addr, e.size + k⟩ :: rest := if_pos htouch
      rw [hput]
      refine segment_append.mpr ⟨e.addr, ?_, ?_⟩
      · exact hpre'.setHeader he8 fun d hd => hpre d (by simp [hd])
      · exact hrest.cons he8 (by omega) (next_lt _ _) hsum fun d hd => hpre d (by simp [hd])
    · intro x hx hx'
      exact setHeader_apply hx hx'
  · have hgap : ¬ (e.addr : Int) + e.size = (a : Nat) := by omega
    have hothers : ∀ d ∈ pre ++ rest, (m.setNext e.addr a).size d.addr = m.size d.addr ∧
        (m.setNext e.addr a).next d.addr = m.next d.addr := by
      intro d hd
      obtain ⟨hde, hd8⟩ := hpre d hd
      exact ⟨size_setNext he8 hd8, next_setNext_ne hde⟩
    refine ⟨m.setNext e.addr a, if_neg hgap, ?_, ?_⟩
    · have hput : put e (⟨a, k⟩ :: rest) = e :: ⟨a, k⟩ :: rest := if_neg htouch
      rw [hput]
      refine segment_append.mpr ⟨e.addr, hpre'.congr fun d hd => hothers d (by simp [hd]), ?_⟩
      refine ⟨rfl, hne, (size_setNext he8 he8).trans hsize, ?_⟩
      rw [next_setNext_self haddr]
      refine ⟨rfl, ha, (size_setNext he8 ha8).trans hk, ?_⟩
      rw [next_setNext_ne hea.symm]
      exact hrest.congr fun d hd => hothers d (by simp [hd])
    · intro x _ hx'
      exact setNext_apply_ne hx'

/-- Freeing a block does to the list in memory what `give` does to the list. -/
theorem rtUserFree_eq (hh : h.Holds lo hi l) (hb : Bounds lo hi) (hsize : alignUp size = some (n : Int))
    (hpos : 0 < n) (hn : 8 ∣ n) (ha : 8 ∣ a) (hlo : lo ≤ a) (hhi : a + n ≤ hi)
    (hdisj : Disjoint (⟨a, n⟩ : Chunk).bytes (bytes l)) :
    ∃ h', h.rtUserFree a size = some h' ∧ h'.Holds lo hi (give ⟨a, n⟩ l) ∧
      ∀ x ∉ bytes l, x ∉ (⟨a, n⟩ : Chunk).bytes → h'.mem x = h.mem x := by
  have hblock : ∀ x ∉ (⟨a, n⟩ : Chunk).bytes, x ≠ a ∧ x ≠ a + 4 := by
    have hn8 := Nat.le_of_dvd hpos hn
    intro x hx
    rw [Chunk.mem_bytes, Chunk.stop] at hx
    dsimp only at hx
    omega
  have hfree : ∀ x ∈ (⟨a, n⟩ : Chunk).bytes, x ∉ bytes l := fun x hx => Set.disjoint_left.mp hdisj hx
  have hspaced := hh.spaced.give (b := ⟨a, n⟩) hlo hpos hhi hfree
  have haligned := hh.aligned.give (b := ⟨a, n⟩) ⟨ha, hn⟩
  have htotal := hspaced.total_le
  rw [total_give] at htotal
  dsimp only at htotal
  have hpos' := hb.pos
  have htop := hb.top
  have hint := hb.int
  have hwalk : walk h.mem (· < a) maxChunks 0 h.firstFree =
      some (lastAddr 0 (l.takeWhile (·.addr < a)), headAddr (l.dropWhile (·.addr < a))) :=
    walk_eq hh.linked (fun _ _ => rfl) (hh.length_lt hb)
  have hgive := hh.spaced.give_eq_split (b := ⟨a, n⟩)
  have hl := List.takeWhile_append_dropWhile (p := (·.addr < a)) (l := l)
  dsimp only at hgive
  generalize l.takeWhile (·.addr < a) = pre at *
  generalize l.dropWhile (·.addr < a) = post at *
  have hlinked := hh.linked
  have hdistinct := pairwise_addr hh.spaced
  rw [← hl] at hlinked hdistinct
  rw [← hl, total_append] at htotal
  obtain ⟨r, hfirst, hpost⟩ := segment_append.mp hlinked
  obtain rfl := hpost.head
  have hpre_mem : ∀ d ∈ pre, d ∈ l := fun d hd => hl ▸ List.mem_append_left _ hd
  have hpost_mem : ∀ d ∈ post, d ∈ l := fun d hd => hl ▸ List.mem_append_right _ hd
  have hothers : ∀ d ∈ l, d.addr ≠ a ∧ 8 ∣ d.addr := by
    intro d hd
    refine ⟨?_, (hh.aligned d hd).1⟩
    intro heq
    refine hfree a ⟨le_refl _, Nat.lt_add_of_pos_right hpos⟩ ?_
    rw [← heq]
    exact (header_mem hh.spaced hh.aligned hd).1
  have hhead : headAddr post < 2 ^ 32 := by
    cases post with
    | nil => decide
    | cons d post =>
      have hd := hh.spaced.mem (hpost_mem d List.mem_cons_self)
      unfold Chunk.stop at hd
      rw [headAddr_cons]
      omega
  have hsum : ∀ d ∈ post, Fits 32 ((n + d.size : Nat) : Int) := by
    intro d hd
    have hle := size_le_total hd
    exact fits_of_lt (by omega)
  obtain ⟨k, rest, next, hput, hrest, hnext, hseg⟩ := coalesceNext_eq hpost (by omega) ha
    (fun d hd => hothers d (hpost_mem d hd)) (fits_of_lt (by omega)) hsum hhead
  have hk : k ≤ n + total post := by
    have hputs := total_put (c := ⟨a, n⟩) (l := post)
    rw [hput, total_cons] at hputs
    dsimp only at hputs
    omega
  have hfirst' := hfirst.setHeader (x := k) (n := next) ha fun d hd => hothers d (hpre_mem d hd)
  rw [hput] at hgive
  rcases List.eq_nil_or_concat pre with rfl | ⟨pre, e, rfl⟩
  · -- nothing in front of the freed chunk
    refine ⟨⟨(h.mem.setSize a k).setNext a next, a⟩, ?_, ⟨?_, hspaced, haligned⟩, ?_⟩
    · simp [Heap.rtUserFree, hsize, hwalk, hnext, lastAddr]
    · rw [hgive]
      exact hseg
    · intro x _ hx
      exact setHeader_apply (hblock x hx).1 (hblock x hx).2
  · rw [List.concat_eq_append] at *
    have he := hpre_mem e (by simp)
    have he_apart : ∀ d ∈ pre ++ rest, d.addr ≠ e.addr ∧ 8 ∣ d.addr := by
      intro d hd
      rw [List.append_assoc, List.pairwise_append] at hdistinct
      obtain ⟨-, hback, hcross⟩ := hdistinct
      rcases List.mem_append.mp hd with hd | hd
      · exact ⟨hcross d hd e (by simp), (hothers d (hpre_mem d (by simp [hd]))).2⟩
      · have hd' := hrest d hd
        exact ⟨((List.pairwise_cons.mp hback).1 d hd').symm, (hothers d (hpost_mem d hd')).2⟩
    have hsum' : Fits 32 ((e.size + k : Nat) : Int) := by
      have hle := size_le_total (l := pre ++ [e]) (c := e) (by simp)
      exact fits_of_lt (by omega)
    obtain ⟨m', hprev, hseg', hframe⟩ := coalescePrev_eq hfirst' hseg he_apart (hothers e he).2
      (hothers e he).1 ha hsum' (by omega)
    have hne : e.addr ≠ 0 := by
      have hle := (hh.spaced.mem he).1
      omega
    refine ⟨{ h with mem := m' }, ?_, ⟨?_, hspaced, haligned⟩, ?_⟩
    · simp [Heap.rtUserFree, hsize, hwalk, hnext, lastAddr_snoc, hne, hprev]
    · rw [hgive, join_snoc]
      exact hseg'
    · intro x hx hx'
      have hheader := header_mem hh.spaced hh.aligned he
      have hx0 : x ≠ e.addr := by
        rintro rfl
        exact hx hheader.1
      have hx1 : x ≠ e.addr + 4 := by
        rintro rfl
        exact hx hheader.2
      exact (hframe x hx0 hx1).trans (setHeader_apply (hblock x hx').1 (hblock x hx').2)

end Operations

end Hero.Runtime
