import Hero.Framework.Machine
import Hero.Framework.Shares
import Hero.Runtime.AlignedAlloc

/-!
# The allocator of external memories

`rt_extern_alloc` keeps the descriptors of the free chunks outside of the memory it manages, so it
can take blocks from the end of a chunk.  The aligned variant still keeps room for a descriptor in
front of the block, and moves on to the next aligned address where there is less.
-/

namespace Hero.Runtime

open Hero.Checked Hero.FreeList Hero.BitField

/-- A `rt_alloc_chunk_extern_t`; the links between the descriptors are the order of a list. -/
structure ExternChunk where
  size : Int
  addr : BitVec 32
  deriving DecidableEq, Repr

/-- The size of a `rt_alloc_chunk_extern_t`. -/
def externChunkSize : Int := 12

/-- `rt_extern_alloc`; the address zero is NULL. -/
def rtExternAlloc (l : List ExternChunk) (size : Int) :
    Option (List ExternChunk × BitVec 32) := do
  let size ← alignUp size
  match l.dropWhile (·.size < size) with
  | [] => return (l, 0#32)
  | pt :: next =>
    let prev := l.takeWhile (·.size < size)
    if pt.size = size then return (prev ++ next, pt.addr)
    else
      let result := pt.addr + BitVec.ofInt 32 pt.size - BitVec.ofInt 32 size
      return (prev ++ { pt with size := ← sub 32 pt.size size } :: next, result)

/-- The freed chunk coalesced with the next one, and what is behind it. -/
def coalesceExternNext (addr : BitVec 32) (size : Int) :
    List ExternChunk → Option (ExternChunk × List ExternChunk)
  | [] => some (⟨size, addr⟩, [])
  | next :: after =>
    if addr + BitVec.ofInt 32 size = next.addr then do
      return (⟨← add 32 size next.size, addr⟩, after)
    else some (⟨size, addr⟩, next :: after)

/-- `rt_extern_free`, where a new descriptor can be allocated. -/
def rtExternFree (l : List ExternChunk) (addr : BitVec 32) (size : Int) :
    Option (List ExternChunk) := do
  let size ← alignUp size
  let before := l.takeWhile (·.addr < addr)
  let (chunk, after) ← coalesceExternNext addr size (l.dropWhile (·.addr < addr))
  match before.getLast? with
  | none => return chunk :: after
  | some prev =>
    if prev.addr + BitVec.ofInt 32 prev.size = addr then
      return before.dropLast ++ { prev with size := ← add 32 prev.size chunk.size } :: after
    else return before ++ chunk :: after

/-- What an aligned allocation takes from the free list and gives back to it. -/
inductive Transfer where
  | took (addr : BitVec 32) (size : Int)
  | gave (addr : BitVec 32) (size : Int)
  deriving DecidableEq, Repr

/-- The room in front of the aligned chunk. -/
def freeExternHeader (l : List ExternChunk) (result resultAlign align : BitVec 32) :
    Option (List ExternChunk × BitVec 32 × List Transfer) := do
  let headersize := resultAlign - result
  if headersize ≠ 0#32 then
    let resultAlign := if (headersize.toNat : Int) < externChunkSize then resultAlign + align
      else resultAlign
    return (← rtExternFree l result headersize.toInt, resultAlign, [.gave result headersize.toInt])
  else return (l, resultAlign, [])

/-- `rt_extern_alloc_align`, with its calls of `rt_extern_alloc` and `rt_extern_free`. -/
def rtExternAllocAlign (l : List ExternChunk) (size align : Int) :
    Option (List ExternChunk × BitVec 32 × List Transfer) := do
  if align < externChunkSize then
    let (l, result) ← rtExternAlloc l size
    return (l, result, [.took result size])
  else
    let sizeAlign := (BitVec.ofInt 32 ((← add 32 size align) + externChunkSize * 2)).toInt
    let (l, result) ← rtExternAlloc l sizeAlign
    if result = 0#32 then return (l, 0#32, [.took result sizeAlign])
    else
      let resultAlign := (result + BitVec.ofInt 32 align - 1#32) &&& -BitVec.ofInt 32 align
      let headersize := resultAlign - result
      let (l, resultAlign, head) ← freeExternHeader l result resultAlign (BitVec.ofInt 32 align)
      let tail := resultAlign + BitVec.ofInt 32 size
      let tailSize := (BitVec.ofInt 32 sizeAlign - headersize - BitVec.ofInt 32 size).toInt
      return (← rtExternFree l tail tailSize, resultAlign,
        .took result sizeAlign :: head ++ [.gave tail tailSize])

/-- The memory given to `rt_extern_alloc_init`; it may begin at the address zero. -/
structure ExternRange where
  base : Nat
  size : Int
  size_fits : Fits 32 size
  room : 0 < size - ((base + 7) / 8 * 8 - base : Nat)
  top : base + size ≤ 2 ^ 32

def ExternRange.lo (R : ExternRange) : Nat := (R.base + 7) / 8 * 8

/-- The size of the initial chunk. -/
def ExternRange.extent (R : ExternRange) : Nat :=
  ((R.size - (R.lo - R.base : Nat)) / minChunkSize * minChunkSize).toNat

def ExternRange.hi (R : ExternRange) : Nat := R.lo + R.extent

/-- A range after `rt_extern_alloc_init`. -/
def ExternRange.start (R : ExternRange) : List ExternChunk :=
  [⟨R.extent, BitVec.ofNat 32 R.lo⟩]

/-- The free list and the live blocks. -/
structure ExternState where
  free : List ExternChunk
  live : List Block
  deriving DecidableEq

inductive ExternOp where
  | alloc (size : Int)
  | allocAlign (size align : Int)
  | free (b : Block)

inductive ExternEvent where
  | allocated (size : Int) (ptr : BitVec 32)
  | aligned (size align : Int) (ptr : BitVec 32) (transfers : List Transfer)
  | freed (b : Block)
  | undefined
  deriving DecidableEq

/-- The block of an allocation that has not failed joins the live ones. -/
def ExternState.hold (s : ExternState) (free : List ExternChunk) (ptr : BitVec 32) (size : Int) :
    ExternState :=
  ⟨free, if ptr = 0#32 then s.live else ⟨ptr.toNat, size⟩ :: s.live⟩

/-- Sequences of calls: any sizes from one on, any powers of two, frees of live blocks. -/
def externAlloc : Machine ExternState ExternOp ExternEvent := fun s op =>
  match op with
  | .alloc size =>
    if 1 ≤ size ∧ Fits 32 size then
      match rtExternAlloc s.free size with
      | none => some (s, [.undefined])
      | some (free, ptr) => some (s.hold free ptr size, [.allocated size ptr])
    else none
  | .allocAlign size align =>
    if (1 ≤ size ∧ Fits 32 size) ∧ ∃ k < 31, align = (2 ^ k : Nat) then
      match rtExternAllocAlign s.free size align with
      | none => some (s, [.undefined])
      | some (free, ptr, transfers) =>
        some (s.hold free ptr size, [.aligned size align ptr transfers])
    else none
  | .free b =>
    if b ∈ s.live then
      match rtExternFree s.free (BitVec.ofNat 32 b.addr) b.size with
      | none => some (s, [.undefined])
      | some free => some (⟨free, s.live.erase b⟩, [.freed b])
    else none

/-- The first chunk with `n` bytes. -/
def firstFit (n : Int) (l : List ExternChunk) : Option ExternChunk :=
  (l.dropWhile (·.size < n)).head?

/-- The address of the last `n` bytes. -/
def ExternChunk.endAddr (c : ExternChunk) (n : Int) : BitVec 32 :=
  c.addr + BitVec.ofInt 32 c.size - BitVec.ofInt 32 n

/-- The size can be rounded up, and the block to be taken, if there is one, is not at the address
zero. -/
def ExternServed (l : List ExternChunk) (size : Int) : Prop :=
  Roundable size ∧ ∀ c ∈ firstFit (rounded size) l, c.endAddr (rounded size) ≠ 0#32

/-- Where there is a block for the padded size, the size is a multiple of the chunk size and the
next aligned address not eight bytes behind the start of the block. -/
def ExternAlignServed (l : List ExternChunk) (size align : Int) : Prop :=
  if align < externChunkSize then ExternServed l size
  else
    Fits 32 (size + align) ∧
      if Fits 32 (size + align + externChunkSize * 2) then
        ExternServed l (size + align + externChunkSize * 2) ∧
          ∀ c ∈ firstFit (rounded (size + align + externChunkSize * 2)) l,
            minChunkSize ∣ size ∧
              (c.endAddr (rounded (size + align + externChunkSize * 2)) + 8#32) &&&
                (BitVec.ofInt 32 align - 1#32) ≠ 0#32
      else l = []

instance (l : List ExternChunk) (size : Int) : Decidable (ExternServed l size) :=
  inferInstanceAs (Decidable (_ ∧ _))

instance (l : List ExternChunk) (size align : Int) : Decidable (ExternAlignServed l size align) :=
  inferInstanceAs (Decidable (ite _ _ _))

/-- What a call needs. -/
def ExternOk (s : ExternState) : ExternOp → Prop
  | .alloc size => ExternServed s.free size
  | .allocAlign size align => ExternAlignServed s.free size align
  | .free _ => True

instance (s : ExternState) : ∀ op, Decidable (ExternOk s op)
  | .alloc size => inferInstanceAs (Decidable (ExternServed s.free size))
  | .allocAlign size align => inferInstanceAs (Decidable (ExternAlignServed s.free size align))
  | .free _ => isTrue trivial

/-- The block and what is given back lie in what was taken. -/
def ExternEvent.Sound : ExternEvent → Prop
  | .aligned size align ptr transfers => ptr ≠ 0#32 →
      align ∣ (ptr.toNat : Int) ∧ ∃ addr taken, .took addr taken ∈ transfers ∧
        Set.Ico ptr.toNat (ptr.toNat + size.toNat) ⊆
          Set.Ico addr.toNat (addr.toNat + taken.toNat) ∧
        ∀ a n, .gave a n ∈ transfers →
          Set.Ico a.toNat (a.toNat + n.toNat) ⊆ Set.Ico addr.toNat (addr.toNat + taken.toNat)
  | .allocated _ _ | .freed _ | .undefined => True

/-! ### Descriptors of spaced chunks -/

def externOf (c : Chunk) : ExternChunk := ⟨c.size, BitVec.ofNat 32 c.addr⟩

variable {lo hi a n : Nat} {size : Int} {l l' : List Chunk} {c : Chunk}

section Operations

theorem takeWhile_size_map : (l.map externOf).takeWhile (·.size < (n : Int)) =
    (l.takeWhile (·.size < n)).map externOf := by
  rw [List.takeWhile_map]
  congr 1
  simp [Function.comp_def, externOf]

theorem dropWhile_size_map : (l.map externOf).dropWhile (·.size < (n : Int)) =
    (l.dropWhile (·.size < n)).map externOf := by
  rw [List.dropWhile_map]
  congr 1
  simp [Function.comp_def, externOf]

theorem rtExternAlloc_none (hsize : alignUp size = some (n : Int)) (htake : takeEnd n l = none) :
    rtExternAlloc (l.map externOf) size = some (l.map externOf, 0#32) := by
  rw [takeEnd_eq_split] at htake
  cases hdrop : l.dropWhile (·.size < n) with
  | nil =>
    simp only [rtExternAlloc, hsize, dropWhile_size_map, hdrop, Option.bind_eq_bind,
      Option.bind_some, List.map_nil, Option.pure_def]
  | cons c post =>
    rw [hdrop] at htake
    cases htake

/-- An allocation does to the descriptors what `takeEnd` does to the chunks. -/
theorem rtExternAlloc_some (hspaced : Spaced lo hi l) (htop : hi ≤ 2 ^ 32) (hint : hi - lo < 2 ^ 31)
    (hsize : alignUp size = some (n : Int)) (htake : takeEnd n l = some (a, l')) :
    rtExternAlloc (l.map externOf) size = some (l'.map externOf, BitVec.ofNat 32 a) := by
  rw [takeEnd_eq_split] at htake
  cases hdrop : l.dropWhile (·.size < n) with
  | nil =>
    rw [hdrop] at htake
    cases htake
  | cons c post =>
    have hc : c ∈ l := List.dropWhile_subset _ (hdrop ▸ List.mem_cons_self)
    have hfit : ¬ c.size < n := by
      have hstop := List.head?_dropWhile_not (fun c : Chunk => decide (c.size < n)) l
      rw [hdrop] at hstop
      simpa using hstop
    have hbounds := hspaced.mem hc
    unfold Chunk.stop at hbounds
    rw [hdrop] at htake
    obtain ⟨rfl, rfl⟩ := Prod.mk.inj (Option.some.inj htake)
    have hdesc : externOf c = ⟨c.size, BitVec.ofNat 32 c.addr⟩ := rfl
    simp only [rtExternAlloc, hsize, dropWhile_size_map, takeWhile_size_map, hdrop, hdesc,
      Option.bind_eq_bind, Option.bind_some, List.map_cons, Option.pure_def]
    by_cases hexact : c.size = n
    · simp [hexact]
    · have hsub : sub 32 (c.size : Int) n = some ((c.size - n : Nat) : Int) :=
        sub_eq_some.mpr ⟨by unfold Fits; omega, by omega⟩
      have hresult : BitVec.ofNat 32 c.addr + BitVec.ofInt 32 c.size - BitVec.ofInt 32 n =
          BitVec.ofNat 32 (c.addr + (c.size - n)) := by
        rw [BitVec.ofInt_natCast, BitVec.ofInt_natCast, ← BitVec.ofNat_add,
          BitVec.ofNat_sub_ofNat_of_le _ _ (by omega) (by omega), Nat.add_sub_assoc (by omega)]
      have hneq : ¬ (c.size : Int) = n := by omega
      rw [if_neg hneq, hsub, if_neg hexact, hresult, List.map_append]
      rfl

private theorem search_congr {p q : Chunk → Bool} (hsame : ∀ c ∈ l, p c = q c) :
    l.takeWhile p = l.takeWhile q ∧ l.dropWhile p = l.dropWhile q := by
  induction l with
  | nil => exact ⟨rfl, rfl⟩
  | cons c l ih =>
    obtain ⟨htake, hdrop⟩ := ih fun d hd => hsame d (List.mem_cons_of_mem _ hd)
    rw [List.takeWhile_cons, List.takeWhile_cons, List.dropWhile_cons, List.dropWhile_cons,
      hsame c List.mem_cons_self, htake, hdrop]
    exact ⟨rfl, rfl⟩

/-- The search of a free for its address. -/
private theorem search_addr (hspaced : Spaced lo hi l) (htop : hi ≤ 2 ^ 32) (ha : a < 2 ^ 32) :
    (l.map externOf).takeWhile (·.addr < BitVec.ofNat 32 a) =
        (l.takeWhile (·.addr < a)).map externOf ∧
      (l.map externOf).dropWhile (·.addr < BitVec.ofNat 32 a) =
        (l.dropWhile (·.addr < a)).map externOf := by
  have hsame : ∀ c ∈ l, decide ((externOf c).addr < BitVec.ofNat 32 a) = decide (c.addr < a) := by
    intro c hc
    have hbounds := hspaced.mem hc
    unfold Chunk.stop at hbounds
    rw [decide_eq_decide, externOf, BitVec.lt_def, BitVec.toNat_ofNat, BitVec.toNat_ofNat,
      Nat.mod_eq_of_lt (by omega), Nat.mod_eq_of_lt ha]
  obtain ⟨htake, hdrop⟩ := search_congr hsame
  rw [List.takeWhile_map, List.dropWhile_map]
  exact ⟨congrArg _ htake, congrArg _ hdrop⟩

/-- The sum of an address and a size is another address exactly if the chunk ends there. -/
private theorem extern_stop_eq {m : Nat} (hle : c.stop ≤ m) (hm : m < 2 ^ 32) :
    BitVec.ofNat 32 c.addr + BitVec.ofInt 32 c.size = BitVec.ofNat 32 m ↔ c.stop = m := by
  unfold Chunk.stop at *
  rw [BitVec.ofInt_natCast, ← BitVec.ofNat_add, ← BitVec.toNat_inj, BitVec.toNat_ofNat,
    BitVec.toNat_ofNat, Nat.mod_eq_of_lt (by omega), Nat.mod_eq_of_lt hm]

/-- The first step of a free does what `put` does. -/
private theorem coalesceExternNext_eq {post : List Chunk}
    (hpost : ∀ d ∈ post.head?, a + n ≤ d.addr ∧ d.addr < 2 ^ 32 ∧ n + d.size < 2 ^ 31) :
    ∃ m rest, put ⟨a, n⟩ post = ⟨a, m⟩ :: rest ∧
      coalesceExternNext (BitVec.ofNat 32 a) (n : Int) (post.map externOf) =
        some (externOf ⟨a, m⟩, rest.map externOf) := by
  cases post with
  | nil => exact ⟨n, [], rfl, rfl⟩
  | cons d post =>
    obtain ⟨hle, hlt, hsum⟩ := hpost d rfl
    have haddr := extern_stop_eq (c := ⟨a, n⟩) hle hlt
    have hadd : add 32 (n : Int) d.size = some ((n + d.size : Nat) : Int) :=
      add_eq_some.mpr ⟨by unfold Fits; omega, by omega⟩
    rw [put_cons, List.map_cons, coalesceExternNext]
    change ∃ m rest, _ ∧ (if BitVec.ofNat 32 a + BitVec.ofInt 32 n = BitVec.ofNat 32 d.addr
      then _ else _) = _
    by_cases htouch : (⟨a, n⟩ : Chunk).stop = d.addr
    · rw [if_pos htouch, if_pos (haddr.mpr htouch)]
      refine ⟨n + d.size, post, rfl, ?_⟩
      change (add 32 (n : Int) d.size).bind _ = _
      rw [hadd]
      rfl
    · rw [if_neg htouch, if_neg fun h => htouch (haddr.mp h)]
      exact ⟨n, d :: post, rfl, rfl⟩

/-- A free does to the descriptors what `give` does to the chunks. -/
theorem rtExternFree_eq (hspaced : Spaced lo hi l) (htop : hi ≤ 2 ^ 32) (hint : hi - lo < 2 ^ 31)
    (hsize : alignUp size = some (n : Int)) (hpos : 0 < n) (hlo : lo ≤ a) (hhi : a + n ≤ hi)
    (hdisj : Disjoint (⟨a, n⟩ : Chunk).bytes (bytes l)) :
    rtExternFree (l.map externOf) (BitVec.ofNat 32 a) size =
      some ((give ⟨a, n⟩ l).map externOf) := by
  have htotal := (hspaced.give (b := ⟨a, n⟩) hlo hpos hhi
    fun x hx => Set.disjoint_left.mp hdisj hx).total_le
  rw [total_give] at htotal
  dsimp only at htotal
  obtain ⟨htake, hdrop⟩ := search_addr (a := a) hspaced htop (by omega)
  have hapart : ∀ x ∈ bytes l, x < a ∨ a + n ≤ x := by
    intro x hx
    by_contra hin
    refine Set.disjoint_left.mp hdisj ?_ hx
    rw [Chunk.mem_bytes, Chunk.stop]
    dsimp only
    omega
  have hsizes : ∀ c ∈ l, n + c.size < 2 ^ 31 := by
    intro c hc
    have hle := size_le_total hc
    omega
  have hhead : ∀ d ∈ (l.dropWhile (·.addr < a)).head?,
      a + n ≤ d.addr ∧ d.addr < 2 ^ 32 ∧ n + d.size < 2 ^ 31 := by
    intro d hd
    have hstop := List.head?_dropWhile_not (fun c : Chunk => decide (c.addr < a)) l
    rw [hd] at hstop
    have hge : ¬ d.addr < a := by simpa using hstop
    have hmem : d ∈ l := List.dropWhile_subset _ (List.mem_of_mem_head? hd)
    have hbounds := hspaced.mem hmem
    unfold Chunk.stop at hbounds
    have hout := hapart d.addr ⟨d, hmem, le_refl _, Nat.lt_add_of_pos_right hbounds.2.1⟩
    exact ⟨by omega, by omega, hsizes d hmem⟩
  obtain ⟨m, rest, hput, hnext⟩ := coalesceExternNext_eq hhead
  have hgive := hspaced.give_eq_split (b := ⟨a, n⟩)
  dsimp only at hgive
  rw [hput] at hgive
  simp only [rtExternFree, hsize, htake, hdrop, hnext, Option.bind_eq_bind, Option.bind_some]
  rcases List.eq_nil_or_concat (l.takeWhile (·.addr < a)) with hpre | ⟨pre, e, hpre⟩
  · rw [hgive, hpre]
    rfl
  · rw [List.concat_eq_append] at hpre
    have hmem : e ∈ l.takeWhile (·.addr < a) := by simp [hpre]
    have hea : e.addr < a := by
      have htest := List.all_eq_true.mp List.all_takeWhile e hmem
      simpa using htest
    have hstop : e.stop ≤ a := by
      by_contra hover
      have hin : a ∈ bytes l := ⟨e, List.takeWhile_subset _ hmem, hea.le, by omega⟩
      have hout := hapart a hin
      omega
    rw [hpre, join_snoc] at hgive
    have hsum : e.size + m < 2 ^ 31 := by
      have hsums : total (give ⟨a, n⟩ l) = n + total l := total_give
      rw [hgive, total_append, total_put, total_cons] at hsums
      dsimp only at hsums
      omega
    have hadd : add 32 (e.size : Int) m = some ((e.size + m : Nat) : Int) :=
      add_eq_some.mpr ⟨by unfold Fits; omega, by omega⟩
    have htouch := extern_stop_eq hstop (by omega)
    have hdesc : ∀ c, externOf c = ⟨c.size, BitVec.ofNat 32 c.addr⟩ := fun _ => rfl
    rw [hgive, hpre, List.map_append, List.map_append, List.map_singleton,
      List.getLast?_concat, put_cons]
    simp only [hdesc]
    by_cases hmerge : e.stop = a
    · rw [if_pos hmerge, if_pos (htouch.mpr hmerge), hadd, List.dropLast_concat]
      rfl
    · rw [if_neg hmerge, if_neg fun h => hmerge (htouch.mp h)]
      simp [hdesc]

end Operations

/-- The descriptors are the chunks `l`: sorted, disjoint and coalesced, and sharing out the range
with the live blocks. -/
structure ExternRange.Sound (R : ExternRange) (s : ExternState) (l : List Chunk) : Prop where
  inList : s.free = l.map externOf
  sorted : l.Pairwise fun c d => c.addr < d.addr
  disjoint : l.Pairwise fun c d => Disjoint c.bytes d.bytes
  coalesced : l.Pairwise fun c d => c.stop ≠ d.addr ∧ d.stop ≠ c.addr
  liveApart : s.live.Pairwise fun b b' => Disjoint b.chunk.bytes b'.chunk.bytes
  liveFree : ∀ b ∈ s.live, ∀ c ∈ l, Disjoint b.chunk.bytes c.bytes
  covers : bytes (s.live.map Block.chunk) ∪ bytes l = Set.Ico R.lo R.hi
  sum : total (s.live.map Block.chunk) + total l = R.hi - R.lo

structure ExternRange.Inv (R : ExternRange) (s : ExternState) (l : List Chunk) : Prop where
  free : s.free = l.map externOf
  shares : Shares R.lo R.hi (s.live.map Block.chunk) l
  aligned : Aligned 8 l
  blocks : ∀ b ∈ s.live, Roundable b.size ∧ 8 ∣ b.addr

section Invariant

variable {R : ExternRange} {s s' : ExternState} {b : Block} {op : ExternOp} {h : List ExternEvent}
  {live : List Chunk} {r k : Nat} {b₀ : BitVec 32}

theorem ExternRange.bounds (R : ExternRange) : R.hi ≤ 2 ^ 32 ∧ R.hi - R.lo < 2 ^ 31 := by
  have hfits := R.size_fits.2
  have hroom := R.room
  have htop := R.top
  unfold hi extent lo minChunkSize
  omega

theorem ExternRange.Inv.sound (hinv : R.Inv s l) : R.Sound s l := by
  have hpair := hinv.shares.spaced.pairwise
  have hdisj : ∀ b ∈ s.live, ∀ c ∈ l, Disjoint b.chunk.bytes c.bytes := by
    intro b hb c hc
    have hsub : c.bytes ⊆ bytes l := fun x hx => ⟨c, hc, hx⟩
    exact (hinv.shares.used b.chunk (List.mem_map_of_mem hb)).mono_right hsub
  have hapart := hinv.shares.apart
  rw [List.pairwise_map] at hapart
  refine ⟨hinv.free, hpair.imp ?_, hpair.imp ?_, hpair.imp ?_, hapart, hdisj,
    hinv.shares.covers, hinv.shares.sum⟩
  · intro c d hcd
    unfold Chunk.stop at hcd
    omega
  · intro c d hcd
    rw [Set.disjoint_left]
    intro x hx hx'
    have h1 := hx.2
    have h2 := hx'.1
    omega
  · intro c d hcd
    unfold Chunk.stop at hcd ⊢
    omega

/-- The block a request takes is the end of the first chunk that fits. -/
theorem firstFit_of_takeEnd (hspaced : Spaced lo hi l) (htop : hi ≤ 2 ^ 32)
    (hint : hi - lo < 2 ^ 31) (htake : takeEnd n l = some (a, l')) :
    ∃ c ∈ firstFit n (l.map externOf), c.endAddr n = BitVec.ofNat 32 a := by
  rw [takeEnd_eq_split] at htake
  cases hdrop : l.dropWhile (·.size < n) with
  | nil =>
    rw [hdrop] at htake
    cases htake
  | cons c post =>
    rw [hdrop] at htake
    obtain ⟨rfl, -⟩ := Prod.mk.inj (Option.some.inj htake)
    have hfit : ¬ c.size < n := by
      have hstop := List.head?_dropWhile_not (fun c : Chunk => decide (c.size < n)) l
      rw [hdrop] at hstop
      simpa using hstop
    have hbounds := hspaced.mem (List.dropWhile_subset _ (hdrop ▸ List.mem_cons_self))
    unfold Chunk.stop at hbounds
    refine ⟨externOf c, ?_, ?_⟩
    · rw [firstFit, dropWhile_size_map, hdrop]
      rfl
    · change BitVec.ofNat 32 c.addr + BitVec.ofInt 32 c.size - BitVec.ofInt 32 n = _
      rw [BitVec.ofInt_natCast, BitVec.ofInt_natCast, ← BitVec.ofNat_add,
        BitVec.ofNat_sub_ofNat_of_le _ _ (by omega) (by omega), Nat.add_sub_assoc (by omega)]

/-- A plain allocation. -/
theorem ExternRange.Inv.alloc (hinv : R.Inv s l) (hserved : ExternServed s.free size) :
    ∃ free ptr l', rtExternAlloc s.free size = some (free, ptr) ∧
      R.Inv (s.hold free ptr size) l' ∧ 8 ∣ ptr.toNat := by
  obtain ⟨hsize, haddr⟩ := hserved
  obtain ⟨htop, hint⟩ := R.bounds
  obtain ⟨hpos, hdvd⟩ := rounded_pos hsize
  have hspaced := hinv.shares.spaced
  rw [hinv.free] at haddr ⊢
  cases htake : takeEnd (rounded size) l with
  | none =>
    refine ⟨_, _, l, rtExternAlloc_none (alignUp_eq hsize) htake, ?_, Nat.dvd_zero _⟩
    rw [← hinv.free]
    exact hinv
  | some t =>
    obtain ⟨a, l'⟩ := t
    obtain ⟨hspaced', hbytes, hapart, htotal⟩ := hspaced.takeEnd htake
    obtain ⟨ha8, haligned⟩ := hinv.aligned.takeEnd hdvd htake
    obtain ⟨c, hc, hend⟩ := firstFit_of_takeEnd hspaced htop hint htake
    have hne : BitVec.ofNat 32 a ≠ 0#32 := hend ▸ haddr c hc
    have hshares := hinv.shares.take (b := ⟨a, rounded size⟩) hspaced' hpos hbytes hapart htotal
    have hinside := hshares.inside List.mem_cons_self
    unfold Chunk.stop at hinside
    have htoNat : (BitVec.ofNat 32 a).toNat = a := by
      rw [BitVec.toNat_ofNat, Nat.mod_eq_of_lt (by dsimp only at hinside; omega)]
    refine ⟨_, _, l', rtExternAlloc_some hspaced htop hint (alignUp_eq hsize) htake, ?_, ?_⟩
    · rw [ExternState.hold, if_neg hne, htoNat]
      refine ⟨rfl, hshares, haligned, ?_⟩
      intro b hb
      cases hb with
      | head => exact ⟨hsize, ha8⟩
      | tail _ hb => exact hinv.blocks b hb
    · rw [htoNat]
      exact ha8

/-- A free. -/
theorem ExternRange.Inv.freeBlock (hinv : R.Inv s l) (hb : b ∈ s.live) :
    ∃ l', rtExternFree s.free (BitVec.ofNat 32 b.addr) b.size = some (l'.map externOf) ∧
      R.Inv ⟨l'.map externOf, s.live.erase b⟩ l' := by
  obtain ⟨hsize, hb8⟩ := hinv.blocks b hb
  obtain ⟨htop, hint⟩ := R.bounds
  obtain ⟨hpos, hdvd⟩ := rounded_pos hsize
  have hshares := hinv.shares.perm ((List.perm_cons_erase hb).map Block.chunk)
  rw [List.map_cons] at hshares
  obtain ⟨hlo, hhi⟩ := hshares.inside List.mem_cons_self
  refine ⟨_, ?_, rfl, hshares.give, hinv.aligned.give ⟨hb8, hdvd⟩, ?_⟩
  · rw [hinv.free]
    exact rtExternFree_eq hinv.shares.spaced htop hint (alignUp_eq hsize) hpos hlo hhi
      (hshares.used _ List.mem_cons_self)
  · intro b' hb'
    exact hinv.blocks b' (List.mem_of_mem_erase hb')

/-- The room in front of the aligned block is given back. -/
theorem freeExternHeader_eq {m : Nat} (hshares : Shares lo hi (⟨a, (r - a) + m⟩ :: live) l)
    (haligned : Aligned 8 l) (htop : hi ≤ 2 ^ 32) (hint : hi - lo < 2 ^ 31) (align : BitVec 32)
    (ha : 8 ∣ a) (hr : 8 ∣ r) (har : a ≤ r) (hm : 8 ≤ m) (hne : r - a ≠ 8) :
    ∃ l₂ ts, freeExternHeader (l.map externOf) (BitVec.ofNat 32 a) (BitVec.ofNat 32 r) align =
        some (l₂.map externOf, BitVec.ofNat 32 r, ts) ∧
      Shares lo hi (⟨r, m⟩ :: live) l₂ ∧ Aligned 8 l₂ ∧
      ∀ t ∈ ts, t = .gave (BitVec.ofNat 32 a) (r - a : Nat) := by
  obtain ⟨hlo, hhi⟩ := hshares.inside List.mem_cons_self
  unfold Chunk.stop at hhi
  dsimp only at hlo hhi
  have hroom : BitVec.ofNat 32 r - BitVec.ofNat 32 a = BitVec.ofNat 32 (r - a) :=
    BitVec.ofNat_sub_ofNat_of_le _ _ (by omega) har
  have hroomNat : (BitVec.ofNat 32 (r - a)).toNat = r - a := by
    rw [BitVec.toNat_ofNat, Nat.mod_eq_of_lt (by omega)]
  unfold freeExternHeader
  rw [hroom]
  dsimp only
  rw [hroomNat, toInt_ofNat_of_lt (by omega)]
  by_cases hsame : r = a
  · subst hsame
    rw [Nat.sub_self, Nat.zero_add] at hshares
    refine ⟨l, [], ?_, hshares, haligned, by simp⟩
    rw [if_neg]
    · rfl
    · simp
  · have hdvd : 8 ∣ r - a := Nat.dvd_sub hr ha
    have hlarge : ¬ ((r - a : Nat) : Int) < externChunkSize := by
      unfold externChunkSize
      omega
    have hnz : BitVec.ofNat 32 (r - a) ≠ 0#32 := by
      intro hzero
      rw [hzero] at hroomNat
      have hzero' : (0#32).toNat = 0 := rfl
      omega
    have hsize : alignUp ((r - a : Nat) : Int) = some ((r - a : Nat) : Int) := by
      rw [alignUp_eq (roundable_of_pos (by omega) (by omega)), rounded_of_dvd hdvd]
    have hparts := hshares.split (by omega) (by omega)
    rw [show a + (r - a) = r by omega] at hparts
    have hcall := rtExternFree_eq hshares.spaced htop hint hsize (by omega) hlo (by omega)
      (hparts.used _ List.mem_cons_self)
    refine ⟨_, [.gave (BitVec.ofNat 32 a) (r - a : Nat)], ?_, hparts.give,
      haligned.give ⟨ha, hdvd⟩, by simp⟩
    rw [if_pos hnz, if_neg hlarge, hcall]
    rfl

/-- The low bits of an address eight bytes behind. -/
theorem roundUp_ne_of_mask (hk : 3 ≤ k) (hk' : k < 32) (ha : a + 8 < 2 ^ 32)
    (hmask : (BitVec.ofNat 32 a + 8#32) &&& (BitVec.ofNat 32 (2 ^ k) - 1#32) ≠ 0#32) :
    (a + 2 ^ k - 1) / 2 ^ k * 2 ^ k - a ≠ 8 := by
  intro height
  have hle := (roundUp_bounds a hk).1
  have hmultiple : (a + 8) % 2 ^ k = 0 := by
    rw [show a + 8 = (a + 2 ^ k - 1) / 2 ^ k * 2 ^ k by omega]
    exact Nat.mul_mod_left _ _
  have hpow : 2 ^ k < 2 ^ 32 := Nat.pow_lt_pow_right (by decide) hk'
  have hone : 1 ≤ 2 ^ k := Nat.one_le_two_pow
  apply hmask
  apply BitVec.eq_of_toNat_eq
  rw [BitVec.toNat_and, ← BitVec.ofNat_add, BitVec.ofNat_sub_ofNat_of_le _ _ (by decide) hone,
    BitVec.toNat_ofNat, BitVec.toNat_ofNat, Nat.mod_eq_of_lt ha, Nat.mod_eq_of_lt (by omega),
    Nat.and_two_pow_sub_one_eq_mod, hmultiple]
  rfl

/-- An aligned allocation that finds a block keeps the aligned part of it. -/
theorem rtExternAllocAlign_some {n : Nat} (hshares : Shares lo hi live l) (haligned : Aligned 8 l)
    (htop : hi ≤ 2 ^ 32) (hint : hi - lo < 2 ^ 31) (hk : 4 ≤ k) (hk' : k < 31) (hn : 0 < n)
    (hn8 : 8 ∣ n) (hfits : n + 2 ^ k + 32 < 2 ^ 31)
    (htake : takeEnd (n + 2 ^ k + 24) l = some (a, l')) (hne : BitVec.ofNat 32 a ≠ 0#32)
    (hmask : (BitVec.ofNat 32 a + 8#32) &&& (BitVec.ofNat 32 (2 ^ k) - 1#32) ≠ 0#32)
    (hr : r = (a + 2 ^ k - 1) / 2 ^ k * 2 ^ k) :
    ∃ l₂ ts, rtExternAllocAlign (l.map externOf) n (2 ^ k : Nat) =
        some (l₂.map externOf, BitVec.ofNat 32 r, ts) ∧
      Shares lo hi (⟨r, n⟩ :: live) l₂ ∧ Aligned 8 l₂ ∧ 8 ∣ r ∧ a ≤ r ∧
      r + n < a + (n + 2 ^ k + 24) ∧ a + (n + 2 ^ k + 24) ≤ hi ∧
      .took (BitVec.ofNat 32 a) (n + 2 ^ k + 24 : Nat) ∈ ts ∧
      ∀ (g : BitVec 32) (m : Int), .gave g m ∈ ts →
        g = BitVec.ofNat 32 a ∧ m = (r - a : Nat) ∨ g = BitVec.ofNat 32 (r + n) ∧ m = (2 ^ k + 24 - (r - a) : Nat) := by
  obtain ⟨har, hra, hw8, hr8⟩ := roundUp_bounds a (by omega : 3 ≤ k)
  have hdvd : 8 ∣ n + 2 ^ k + 24 := by omega
  obtain ⟨hspaced, hbytes, hapart, htotal⟩ := hshares.spaced.takeEnd htake
  obtain ⟨ha8, haligned'⟩ := haligned.takeEnd hdvd htake
  have hshares' := hshares.take (b := ⟨a, n + 2 ^ k + 24⟩) hspaced (by dsimp only; omega) hbytes
    hapart htotal
  obtain ⟨hlo, hhi⟩ := hshares'.inside List.mem_cons_self
  unfold Chunk.stop at hhi
  dsimp only at hlo hhi
  have hroom8 := roundUp_ne_of_mask (by omega : 3 ≤ k) (by omega) (by omega) hmask
  rw [← hr] at har hra hr8 hroom8
  have hsize : alignUp ((n + 2 ^ k + 24 : Nat) : Int) = some ((n + 2 ^ k + 24 : Nat) : Int) := by
    rw [alignUp_eq (roundable_of_pos (by omega) (by omega)), rounded_of_dvd hdvd]
  have hcall := rtExternAlloc_some hshares.spaced htop hint hsize htake
  have hsplit : n + 2 ^ k + 24 = r - a + (n + (2 ^ k + 24 - (r - a))) := by omega
  have hheld := hshares'
  rw [hsplit] at hheld
  obtain ⟨l₂, ts, hfree, hshares₂, haligned₂, hts⟩ := freeExternHeader_eq hheld haligned' htop hint
    (BitVec.ofNat 32 (2 ^ k)) ha8 hr8 har (by omega) hroom8
  have hparts := (hshares₂.split hn (by omega)).perm (List.Perm.swap _ _ _)
  obtain ⟨htlo, hthi⟩ := hparts.inside List.mem_cons_self
  have htail8 : 8 ∣ 2 ^ k + 24 - (r - a) := Nat.dvd_sub (by omega) (Nat.dvd_sub hr8 ha8)
  have htailSize : alignUp ((2 ^ k + 24 - (r - a) : Nat) : Int) =
      some ((2 ^ k + 24 - (r - a) : Nat) : Int) := by
    rw [alignUp_eq (roundable_of_pos (by omega) (by omega)), rounded_of_dvd htail8]
  have htailCall := rtExternFree_eq hshares₂.spaced htop hint htailSize (by omega) htlo hthi
    (hparts.used _ List.mem_cons_self)
  refine ⟨_, .took (BitVec.ofNat 32 a) (n + 2 ^ k + 24 : Nat) :: ts ++
      [.gave (BitVec.ofNat 32 (r + n)) (2 ^ k + 24 - (r - a) : Nat)], ?_, hparts.give,
    haligned₂.give ⟨Nat.dvd_add hr8 hn8, htail8⟩, hr8, har, by omega, hhi, by simp, ?_⟩
  · have hlarge : ¬ ((2 ^ k : Nat) : Int) < externChunkSize := by
      have hpow : 2 ^ 4 ≤ 2 ^ k := Nat.pow_le_pow_right (by decide) hk
      unfold externChunkSize
      omega
    have hadd : add 32 (n : Int) (2 ^ k : Nat) = some ((n : Int) + (2 ^ k : Nat)) :=
      add_eq_some.mpr ⟨by unfold Fits; omega, rfl⟩
    have hsum : (n : Int) + (2 ^ k : Nat) + externChunkSize * 2 = (n + 2 ^ k + 24 : Nat) := by
      unfold externChunkSize
      omega
    have hsizeAlign : (BitVec.ofNat 32 (n + 2 ^ k + 24)).toInt = (n + 2 ^ k + 24 : Nat) :=
      toInt_ofNat_of_lt (by omega)
    have hresult : (BitVec.ofNat 32 a + BitVec.ofNat 32 (2 ^ k) - 1#32) &&&
        -BitVec.ofNat 32 (2 ^ k) = BitVec.ofNat 32 r := by
      rw [roundUp_eq (by omega) (by omega), hr]
    have hroom : BitVec.ofNat 32 r - BitVec.ofNat 32 a = BitVec.ofNat 32 (r - a) :=
      BitVec.ofNat_sub_ofNat_of_le _ _ (by omega) har
    have hrest : (BitVec.ofNat 32 (n + 2 ^ k + 24) - BitVec.ofNat 32 (r - a) -
        BitVec.ofNat 32 n).toInt = (2 ^ k + 24 - (r - a) : Nat) := by
      have hleft : n + 2 ^ k + 24 - (r - a) - n = 2 ^ k + 24 - (r - a) := by omega
      rw [BitVec.ofNat_sub_ofNat_of_le _ _ (by omega) (by omega),
        BitVec.ofNat_sub_ofNat_of_le _ _ (by omega) (by omega), hleft,
        toInt_ofNat_of_lt (by omega)]
    rw [rtExternAllocAlign, if_neg hlarge, hadd]
    simp only [Option.bind_eq_bind, Option.bind_some]
    rw [hsum, BitVec.ofInt_natCast, hsizeAlign, hcall]
    simp only [Option.bind_some]
    rw [if_neg hne, BitVec.ofInt_natCast, hresult, hroom, hfree]
    simp only [Option.bind_some]
    rw [BitVec.ofInt_natCast, BitVec.ofInt_natCast, hrest, ← BitVec.ofNat_add, htailCall]
    rfl
  · intro g m hg
    simp only [List.cons_append, List.mem_cons, List.mem_append, reduceCtorEq, false_or] at hg
    rcases hg with hg | hg
    · have heq := hts _ hg
      rw [Transfer.gave.injEq] at heq
      exact Or.inl heq
    · exact Or.inr (by simpa using hg)

theorem ExternRange.Inv.allocAlign_some {n : Nat} (hinv : R.Inv s l) (hk : 4 ≤ k) (hk' : k < 31)
    (hn : 0 < n) (hn8 : 8 ∣ n) (hfits : n + 2 ^ k + 32 < 2 ^ 31)
    (htake : takeEnd (n + 2 ^ k + 24) l = some (a, l')) (hne : BitVec.ofNat 32 a ≠ 0#32)
    (hmask : (BitVec.ofNat 32 a + 8#32) &&& (BitVec.ofNat 32 (2 ^ k) - 1#32) ≠ 0#32) :
    ∃ free ptr ts l', rtExternAllocAlign s.free n (2 ^ k : Nat) = some (free, ptr, ts) ∧
      R.Inv (s.hold free ptr n) l' ∧ (ExternEvent.aligned n (2 ^ k : Nat) ptr ts).Sound := by
  obtain ⟨htop, hint⟩ := R.bounds
  obtain ⟨l₂, ts, hcall, hshares, haligned, hr8, har, hrn, hhi, htook, hgave⟩ :=
    rtExternAllocAlign_some hinv.shares hinv.aligned htop hint hk hk' hn hn8 hfits htake hne hmask rfl
  have hmultiple : 2 ^ k ∣ (a + 2 ^ k - 1) / 2 ^ k * 2 ^ k := Nat.dvd_mul_left _ _
  generalize (a + 2 ^ k - 1) / 2 ^ k * 2 ^ k = r at *
  have htoNat : ∀ x < 2 ^ 32, (BitVec.ofNat 32 x).toNat = x := by
    intro x hx
    rw [BitVec.toNat_ofNat, Nat.mod_eq_of_lt hx]
  have hrne : BitVec.ofNat 32 r ≠ 0#32 := by
    intro hzero
    have hr0 := htoNat r (by omega)
    rw [hzero] at hr0
    have ha0 : a = 0 := Nat.le_zero.mp (har.trans_eq hr0.symm)
    exact hne (by rw [ha0])
  rw [hinv.free]
  refine ⟨_, _, ts, l₂, hcall, ?_, ?_⟩
  · rw [ExternState.hold, if_neg hrne, htoNat r (by omega)]
    have hchunk : (⟨r, (n : Int)⟩ : Block).chunk = ⟨r, n⟩ := by
      rw [Block.chunk, rounded_of_dvd hn8]
    refine ⟨rfl, ?_, haligned, ?_⟩
    · rw [List.map_cons, hchunk]
      exact hshares
    · intro b hb
      cases hb with
      | head => exact ⟨roundable_of_pos hn (by omega), hr8⟩
      | tail _ hb => exact hinv.blocks b hb
  · intro _
    have hsub : ∀ x m, a ≤ x → x + m ≤ a + (n + 2 ^ k + 24) →
        Set.Ico x (x + m) ⊆ Set.Ico a (a + (n + 2 ^ k + 24)) :=
      fun x m hx hm => Set.Ico_subset_Ico hx hm
    rw [htoNat r (by omega)]
    refine ⟨Int.natCast_dvd_natCast.mpr hmultiple, _, _, htook, ?_, ?_⟩
    · rw [htoNat a (by omega)]
      exact hsub r n har hrn.le
    · intro g m hg
      rw [htoNat a (by omega)]
      rcases hgave g m hg with ⟨rfl, rfl⟩ | ⟨rfl, rfl⟩
      · rw [htoNat a (by omega)]
        exact hsub a (r - a) (le_refl _) (by omega)
      · rw [htoNat (r + n) (by omega)]
        exact hsub (r + n) (2 ^ k + 24 - (r - a)) (by omega) (by omega)

/-- A search that fails leaves everything as it is. -/
theorem rtExternAllocAlign_of_null {free : List ExternChunk} {align sizeAlign : Int}
    (halign : ¬ align < externChunkSize) (hadd : Fits 32 (size + align))
    (hsize : (BitVec.ofInt 32 (size + align + externChunkSize * 2)).toInt = sizeAlign)
    (hcall : rtExternAlloc free sizeAlign = some (free, 0#32)) :
    rtExternAllocAlign free size align = some (free, 0#32, [.took 0#32 sizeAlign]) := by
  have hsum : add 32 size align = some (size + align) := add_eq_some.mpr ⟨hadd, rfl⟩
  rw [rtExternAllocAlign, if_neg halign, hsum]
  simp only [Option.bind_eq_bind, Option.bind_some]
  rw [hsize, hcall]
  rfl

/-- An aligned allocation. -/
theorem ExternRange.Inv.allocAlign {align : Int} (hinv : R.Inv s l) (hsize : 1 ≤ size)
    (hk : k < 31) (halign : align = (2 ^ k : Nat)) (hserved : ExternAlignServed s.free size align) :
    ∃ free ptr ts l', rtExternAllocAlign s.free size align = some (free, ptr, ts) ∧
      R.Inv (s.hold free ptr size) l' ∧ (ExternEvent.aligned size align ptr ts).Sound := by
  subst halign
  have hpow := Nat.two_pow_pos k
  unfold ExternAlignServed at hserved
  by_cases hsmall : ((2 ^ k : Nat) : Int) < externChunkSize
  · rw [if_pos hsmall] at hserved
    obtain ⟨free, ptr, l', hcall, hinv', hptr8⟩ := hinv.alloc hserved
    refine ⟨free, ptr, [.took ptr size], l', ?_, hinv', ?_⟩
    · rw [rtExternAllocAlign, if_pos hsmall, hcall]
      rfl
    · intro _
      have hk3 : k ≤ 3 := by
        by_contra hlarge
        have hle : 2 ^ 4 ≤ 2 ^ k := Nat.pow_le_pow_right (by decide) (by omega)
        unfold externChunkSize at hsmall
        omega
      have hdvd : 2 ^ k ∣ 2 ^ 3 := Nat.pow_dvd_pow 2 hk3
      refine ⟨Int.natCast_dvd_natCast.mpr (hdvd.trans hptr8), ptr, size, by simp, le_refl _, ?_⟩
      intro g m hg
      simp at hg
  · rw [if_neg hsmall] at hserved
    obtain ⟨hadd, hserved⟩ := hserved
    by_cases hwrap : Fits 32 (size + (2 ^ k : Nat) + externChunkSize * 2)
    · rw [if_pos hwrap] at hserved
      obtain ⟨⟨hround, haddr⟩, hfit⟩ := hserved
      have hpadded : (BitVec.ofInt 32 (size + (2 ^ k : Nat) + externChunkSize * 2)).toInt =
          size + (2 ^ k : Nat) + externChunkSize * 2 :=
        BitVec.toInt_ofInt_eq_self (by decide) hwrap.1 hwrap.2
      cases htake : takeEnd (rounded (size + (2 ^ k : Nat) + externChunkSize * 2)) l with
      | none =>
        have hcall := rtExternAlloc_none (alignUp_eq hround) htake
        rw [← hinv.free] at hcall
        exact ⟨_, _, _, l, rtExternAllocAlign_of_null hsmall hadd hpadded hcall, hinv,
          fun hne => absurd rfl hne⟩
      | some t =>
        obtain ⟨a, l'⟩ := t
        obtain ⟨htop, hint⟩ := R.bounds
        obtain ⟨n, rfl⟩ := Int.eq_ofNat_of_zero_le (by omega : 0 ≤ size)
        obtain ⟨c, hc, hend⟩ := firstFit_of_takeEnd hinv.shares.spaced htop hint htake
        rw [← hinv.free] at hc
        obtain ⟨hn8, hmask⟩ := hfit c hc
        rw [hend, BitVec.ofInt_natCast] at hmask
        have hk4 : 4 ≤ k := by
          by_contra hlarge
          have hle : 2 ^ k ≤ 2 ^ 3 := Nat.pow_le_pow_right (by decide) (by omega)
          unfold externChunkSize at hsmall
          omega
        have hw8 : 8 ∣ 2 ^ k := (roundUp_bounds 0 (by omega)).2.2.1
        have hdvd : 8 ∣ n := by
          unfold minChunkSize at hn8
          omega
        have hpad : (n : Int) + (2 ^ k : Nat) + externChunkSize * 2 = (n + 2 ^ k + 24 : Nat) := by
          unfold externChunkSize
          omega
        have hfits := hround.2.2
        rw [hpad] at hfits
        rw [hpad, rounded_of_dvd (by omega)] at htake
        unfold minChunkSize at hfits
        exact hinv.allocAlign_some hk4 hk (by omega) hdvd (by omega) htake (hend ▸ haddr c hc) hmask
    · rw [if_neg hwrap] at hserved
      have hneg : (BitVec.ofInt 32 (size + (2 ^ k : Nat) + externChunkSize * 2)).toInt =
          size + (2 ^ k : Nat) + externChunkSize * 2 - 2 ^ 32 := by
        rw [BitVec.toInt_ofInt, Int.bmod_def]
        unfold Fits externChunkSize at *
        omega
      have hcall : rtExternAlloc s.free
          (size + (2 ^ k : Nat) + externChunkSize * 2 - 2 ^ 32) = some (s.free, 0#32) := by
        rw [hserved, rtExternAlloc, alignUp_of_neg]
        · rfl
        · unfold Fits externChunkSize at *
          omega
        · unfold Fits externChunkSize at *
          omega
      exact ⟨_, _, _, l, rtExternAllocAlign_of_null hsmall hadd hneg hcall, hinv,
        fun hne => absurd rfl hne⟩

theorem ExternRange.Inv.start (R : ExternRange) (hlt : R.lo < R.hi) :
    R.Inv ⟨R.start, []⟩ [⟨R.lo, R.hi - R.lo⟩] := by
  have hextent : R.hi - R.lo = R.extent := Nat.add_sub_cancel_left _ _
  have hdvd : 8 ∣ R.extent := by
    unfold extent minChunkSize
    omega
  refine ⟨?_, Shares.initial hlt, ?_, by simp⟩
  · rw [hextent]
    rfl
  · rw [aligned_cons, hextent]
    exact ⟨⟨Nat.dvd_mul_left _ _, hdvd⟩, aligned_nil⟩

/-- Every call that is served keeps the invariant. -/
theorem ExternRange.Inv.step (hinv : R.Inv s l) (hok : ExternOk s op)
    (hstep : externAlloc s op = some (s', h)) :
    (∃ l', R.Inv s' l') ∧ .undefined ∉ h ∧ ∀ e ∈ h, e.Sound := by
  cases op with
  | alloc size =>
    simp only [externAlloc] at hstep
    split at hstep
    · obtain ⟨free, ptr, l', hcall, hinv', -⟩ := hinv.alloc hok
      rw [hcall] at hstep
      cases hstep
      exact ⟨⟨l', hinv'⟩, by simp, by simp [ExternEvent.Sound]⟩
    · cases hstep
  | allocAlign size align =>
    simp only [externAlloc] at hstep
    split at hstep
    · next hargs =>
      obtain ⟨⟨hsize, -⟩, k, hk, halign⟩ := hargs
      obtain ⟨free, ptr, ts, l', hcall, hinv', hsound⟩ := hinv.allocAlign hsize hk halign hok
      rw [hcall] at hstep
      cases hstep
      refine ⟨⟨l', hinv'⟩, by simp, ?_⟩
      intro e he
      rw [List.mem_singleton.mp he]
      exact hsound
    · cases hstep
  | free b =>
    simp only [externAlloc] at hstep
    split at hstep
    · next hb =>
      obtain ⟨l', hcall, hinv'⟩ := hinv.freeBlock hb
      rw [hcall] at hstep
      cases hstep
      exact ⟨⟨l', hinv'⟩, by simp, by simp [ExternEvent.Sound]⟩
    · cases hstep

/-- A range without room for a chunk never serves a request. -/
theorem externAlloc_empty (hok : ExternOk ⟨[⟨0, b₀⟩], []⟩ op)
    (hstep : externAlloc ⟨[⟨0, b₀⟩], []⟩ op = some (s', h)) :
    s' = ⟨[⟨0, b₀⟩], []⟩ ∧ .undefined ∉ h ∧ ∀ e ∈ h, e.Sound := by
  have hnull : ∀ size, Roundable size →
      rtExternAlloc [⟨0, b₀⟩] size = some ([⟨0, b₀⟩], 0#32) := by
    intro size hsize
    have hpos := (rounded_pos hsize).1
    simp [rtExternAlloc, alignUp_eq hsize, hpos]
  cases op with
  | alloc size =>
    simp only [externAlloc] at hstep
    split at hstep
    · rw [hnull size hok.1] at hstep
      cases hstep
      exact ⟨rfl, by simp, by simp [ExternEvent.Sound]⟩
    · cases hstep
  | allocAlign size align =>
    simp only [externAlloc] at hstep
    split at hstep
    · have hcall : ∃ ts, rtExternAllocAlign [⟨0, b₀⟩] size align =
          some ([⟨0, b₀⟩], 0#32, ts) := by
        by_cases hsmall : align < externChunkSize
        · have hserved : ExternServed [⟨0, b₀⟩] size := by
            simpa only [ExternOk, ExternAlignServed, if_pos hsmall] using hok
          refine ⟨[.took 0#32 size], ?_⟩
          rw [rtExternAllocAlign, if_pos hsmall, hnull size hserved.1]
          rfl
        · simp only [ExternOk, ExternAlignServed, if_neg hsmall] at hok
          obtain ⟨hadd, hserved⟩ := hok
          split at hserved
          · next hfits =>
            have hpadded := BitVec.toInt_ofInt_eq_self (by decide) hfits.1 hfits.2
            exact ⟨_, rtExternAllocAlign_of_null hsmall hadd hpadded (hnull _ hserved.1.1)⟩
          · cases hserved
      obtain ⟨ts, hcall⟩ := hcall
      rw [hcall] at hstep
      cases hstep
      exact ⟨rfl, by simp, by simp [ExternEvent.Sound]⟩
    · cases hstep
  | free b => simp [externAlloc] at hstep

end Invariant

/-- After any sequence of calls that are served the free list and the live blocks share out the
range, and every aligned block lies with what was given back in what was taken. -/
theorem rt_extern_alloc_invariant (R : ExternRange) (ops : List ExternOp) (s : ExternState)
    (h : List ExternEvent) (hok : externAlloc.Along ExternOk ⟨R.start, []⟩ ops)
    (hrun : externAlloc.run ⟨R.start, []⟩ ops = some (s, h)) :
    .undefined ∉ h ∧ (∀ e ∈ h, e.Sound) ∧ ∃ l, R.Sound s l := by
  rcases Nat.lt_or_eq_of_le (Nat.le_add_right R.lo R.extent) with hlt | hR
  · have hinv := Machine.run_history
      (fun s h => (∃ l, R.Inv s l) ∧ ExternEvent.undefined ∉ h ∧ ∀ e ∈ h, e.Sound) ExternOk
      (by
        intro s h op s' es hinv hok hstep
        obtain ⟨⟨l, hinv⟩, hdefined, hsound⟩ := hinv
        obtain ⟨hnext, hdefined', hsound'⟩ := hinv.step hok hstep
        refine ⟨hnext, by simp [hdefined, hdefined'], ?_⟩
        intro e he
        rcases List.mem_append.mp he with he | he
        · exact hsound e he
        · exact hsound' e he)
      (h := []) ⟨⟨_, ExternRange.Inv.start R hlt⟩, by simp, by simp⟩ hok hrun
    obtain ⟨⟨l, hinv⟩, hdefined, hsound⟩ := hinv
    exact ⟨hdefined, hsound, l, hinv.sound⟩
  · have hextent : R.extent = 0 := by omega
    have hhi : R.hi = R.lo := hR.symm
    have hstart : R.start = [⟨0, BitVec.ofNat 32 R.lo⟩] := by
      rw [ExternRange.start, hextent]
      rfl
    rw [hstart] at hok hrun
    have hsame := Machine.run_history
      (fun s h => s = ⟨[⟨0, BitVec.ofNat 32 R.lo⟩], []⟩ ∧ ExternEvent.undefined ∉ h ∧
        ∀ e ∈ h, e.Sound) ExternOk
      (by
        intro s h op s' es hinv hok hstep
        obtain ⟨rfl, hdefined, hsound⟩ := hinv
        obtain ⟨rfl, hdefined', hsound'⟩ := externAlloc_empty hok hstep
        refine ⟨rfl, by simp [hdefined, hdefined'], ?_⟩
        intro e he
        rcases List.mem_append.mp he with he | he
        · exact hsound e he
        · exact hsound' e he)
      (h := []) ⟨rfl, by simp, by simp⟩ hok hrun
    obtain ⟨rfl, hdefined, hsound⟩ := hsame
    refine ⟨hdefined, hsound, [⟨R.lo, 0⟩], rfl, by simp, by simp, by simp, List.Pairwise.nil,
      by simp, ?_, by simp [hhi]⟩
    simp [hhi, Chunk.bytes, Chunk.stop]

/-- A range of 96 bytes from the address 8 on. -/
def smallRange : ExternRange where
  base := 8
  size := 96
  size_fits := by decide
  room := by decide
  top := by decide

private def smallExternRun : Option (ExternState × List ExternEvent) :=
  externAlloc.run ⟨smallRange.start, []⟩
    [.alloc 3, .allocAlign 8 16, .allocAlign 5 8, .free ⟨48, 8⟩]

private theorem smallExternRun_isSome : smallExternRun.isSome := by decide +kernel

theorem rt_extern_alloc_invariant_small :
    .undefined ∉ (smallExternRun.get smallExternRun_isSome).2 ∧
      (∀ e ∈ (smallExternRun.get smallExternRun_isSome).2, e.Sound) ∧
      ∃ l, smallRange.Sound (smallExternRun.get smallExternRun_isSome).1 l :=
  rt_extern_alloc_invariant smallRange _ _ _ (by decide +kernel)
    (Option.some_get smallExternRun_isSome).symm

/-- Eight bytes at a multiple of 16: the block taken begins eight bytes in front of one, the aligned
block moves on to the next one, and the tail is as long as if it had not. -/
theorem rt_extern_alloc_tail : ¬ ∀ (R : ExternRange) (ops : List ExternOp) (s : ExternState)
    (h : List ExternEvent), externAlloc.run ⟨R.start, []⟩ ops = some (s, h) →
      .undefined ∉ h ∧ (∀ e ∈ h, e.Sound) ∧ ∃ l, R.Sound s l := by
  intro hall
  have hrun : externAlloc.run ⟨smallRange.start, []⟩ [.allocAlign 8 16] =
      some (⟨[⟨56, 8#32⟩, ⟨32, 88#32⟩], [⟨80, 8⟩]⟩,
        [.aligned 8 16 80#32 [.took 56#32 48, .gave 56#32 8, .gave 88#32 32]]) := by
    decide +kernel
  obtain ⟨-, hsound, -⟩ := hall smallRange _ _ _ hrun
  obtain ⟨-, addr, taken, htook, -, hgave⟩ := hsound _ List.mem_cons_self (by decide)
  have htook' : addr = 56#32 ∧ taken = 48 := by simpa using htook
  obtain ⟨rfl, rfl⟩ := htook'
  have hout := (hgave 88#32 32 (by simp) (show 119 ∈ Set.Ico _ _ by decide)).2
  revert hout
  decide

end Hero.Runtime
