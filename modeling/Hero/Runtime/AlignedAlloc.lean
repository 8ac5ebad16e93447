import Hero.Framework.BitField
import Hero.Runtime.AllocRuns

/-!
# Aligned allocations

`rt_user_alloc_align` takes a block that is larger than needed and frees what lies in front of and
behind the aligned part.  The tail is freed from the last byte asked for on: where the size is no
multiple of the chunk size, this is not a chunk address.
-/

namespace Hero.Runtime

open Hero.Checked Hero.FreeList Hero.BitField

/-- The size of a `rt_alloc_chunk_t`. -/
def headerSize : Int := 8

/-- The room in front of the aligned chunk is freed, and the aligned address moved on if it is too
small for that. -/
def Heap.freeHeader (h : Heap) (result resultAlign align : BitVec 32) :
    Option (Heap × BitVec 32) := do
  let headersize := resultAlign - result
  if headersize ≠ 0#32 then
    let resultAlign := if (headersize.toNat : Int) < headerSize then resultAlign + align
      else resultAlign
    return (← h.rtUserFree result.toNat headersize.toInt, resultAlign)
  else return (h, resultAlign)

/-- `rt_user_alloc_align`. -/
def Heap.rtUserAllocAlign (h : Heap) (size align : Int) : Option (Heap × Nat) := do
  if align < headerSize then h.rtUserAlloc size
  else
    -- the sizes of the headers make the sum unsigned, and its conversion to `int` wraps
    let sizeAlign := (BitVec.ofInt 32 ((← add 32 size align) + headerSize * 2)).toInt
    let (h, ptr) ← h.rtUserAlloc sizeAlign
    if ptr = 0 then return (h, 0)
    else
      let result := BitVec.ofNat 32 ptr
      let resultAlign := (result + BitVec.ofInt 32 align - 1#32) &&& -BitVec.ofInt 32 align
      let headersize := resultAlign - result
      let (h, resultAlign) ← h.freeHeader result resultAlign (BitVec.ofInt 32 align)
      let tail := resultAlign + BitVec.ofInt 32 size
      let h ← h.rtUserFree tail.toNat
        (BitVec.ofInt 32 sizeAlign - headersize - BitVec.ofInt 32 size).toInt
      return (h, resultAlign.toNat)

/-- An aligned block and the heap `h` it leaves of the free list `l`: what is free afterwards is
exactly what the block leaves over, and freeing the block brings the list back, whatever was
written to it. -/
structure Heap.Serves (lo hi : Nat) (l : List Chunk) (size align : Int) (h : Heap) (ptr : Nat) :
    Prop where
  nonnull : ptr ≠ 0
  aligned : align ∣ ptr
  usable : ∀ x ∈ Set.Ico ptr (ptr + size.toNat), x ∈ bytes l
  parts : ∃ l', Segment h.mem h.firstFree l' 0 ∧
    Disjoint (⟨ptr, rounded size⟩ : Chunk).bytes (bytes l') ∧
    bytes l = (⟨ptr, rounded size⟩ : Chunk).bytes ∪ bytes l'
  restored : ∀ mem : Memory, (∀ x ∉ Set.Ico ptr (ptr + size.toNat), mem x = h.mem x) →
    ∃ h', Heap.rtUserFree ⟨mem, h.firstFree⟩ ptr size = some h' ∧ h'.Holds lo hi l

/-- The call fails and changes nothing, or serves the request. -/
def Heap.AllocatesAligned (lo hi : Nat) (l : List Chunk) (h : Heap) (size align : Int) : Prop :=
  h.rtUserAllocAlign size align = some (h, 0) ∨
    ∃ h' ptr, h.rtUserAllocAlign size align = some (h', ptr) ∧ h'.Serves lo hi l size align ptr

/-- No overflow, and a size that is a multiple of the chunk size or more than can be found. -/
def AlignServed (l : List Chunk) (size align : Int) : Prop :=
  if align < headerSize then Roundable size
  else
    Fits 32 (size + align) ∧
      if Fits 32 (size + align + headerSize * 2) then
        Roundable (size + align + headerSize * 2) ∧
          (minChunkSize ∣ size ∨ ∀ c ∈ l, c.size < rounded (size + align + headerSize * 2))
      else l = []

instance (l : List Chunk) (size align : Int) : Decidable (AlignServed l size align) :=
  inferInstanceAs (Decidable (ite _ _ _))

variable {lo hi a r k n : Nat} {size : Int} {h h' : Heap} {l l' : List Chunk}

section Serving

theorem Heap.Holds.congr (hh : h.Holds lo hi l) {mem : Memory}
    (hsame : ∀ x ∈ bytes l, mem x = h.mem x) : Heap.Holds lo hi ⟨mem, h.firstFree⟩ l := by
  refine ⟨hh.linked.congr ?_, hh.spaced, hh.aligned⟩
  intro c hc
  obtain ⟨h0, h1⟩ := header_mem hh.spaced hh.aligned hc
  simp only [Memory.size, Memory.next, hsame _ h0, hsame _ h1]
  trivial

/-- Freeing a block brings back the list it was taken from. -/
theorem Heap.Holds.free_restores (hh : h.Holds lo hi l') (hb : Bounds lo hi)
    (hspaced : Spaced lo hi l) (hsize : Roundable size) (ha : 8 ∣ a) (hlo : lo ≤ a)
    (hhi : a + rounded size ≤ hi)
    (hdisj : Disjoint (⟨a, rounded size⟩ : Chunk).bytes (bytes l'))
    (hbytes : bytes l = (⟨a, rounded size⟩ : Chunk).bytes ∪ bytes l') :
    ∃ h', h.rtUserFree a size = some h' ∧ h'.Holds lo hi l := by
  obtain ⟨hpos, hdvd⟩ := rounded_pos hsize
  obtain ⟨h', hcall, hholds, -⟩ :=
    rtUserFree_eq hh hb (alignUp_eq hsize) hpos hdvd ha hlo hhi hdisj
  have hlist : give ⟨a, rounded size⟩ l' = l := by
    refine hholds.spaced.eq_of_bytes hspaced ?_
    rw [bytes_give, hbytes]
  exact ⟨h', hcall, hlist ▸ hholds⟩

/-- A block serves its request if it and the chunks that are left are the chunks that were free. -/
theorem Heap.Holds.serves {align : Int} (hh : h.Holds lo hi l') (hb : Bounds lo hi)
    (hspaced : Spaced lo hi l) (hsize : Roundable size) (ha : 8 ∣ a) (halign : align ∣ a)
    (hlo : lo ≤ a) (hhi : a + rounded size ≤ hi)
    (hdisj : Disjoint (⟨a, rounded size⟩ : Chunk).bytes (bytes l'))
    (hbytes : bytes l = (⟨a, rounded size⟩ : Chunk).bytes ∪ bytes l') :
    h.Serves lo hi l size align a := by
  have hpos := hb.pos
  have hle := le_rounded hsize
  have hin : ∀ x ∈ Set.Ico a (a + size.toNat), x ∈ (⟨a, rounded size⟩ : Chunk).bytes := by
    intro x hx
    rw [Chunk.mem_bytes, Chunk.stop]
    dsimp only
    have hlt := hx.2
    exact ⟨hx.1, by omega⟩
  refine ⟨by omega, halign, ?_, ⟨l', hh.linked, hdisj, hbytes⟩, ?_⟩
  · intro x hx
    rw [hbytes]
    exact Or.inl (hin x hx)
  · intro mem hmem
    refine Heap.Holds.free_restores (hh.congr ?_) hb hspaced hsize ha hlo hhi hdisj hbytes
    intro x hx
    refine hmem x ?_
    intro hblock
    exact Set.disjoint_left.mp hdisj (hin x hblock) hx

/-- What a search takes lies in the arena. -/
theorem Heap.Holds.take_bounds (hh : h.Holds lo hi l) (hpos : 0 < n)
    (htake : take n l = some (a, l')) : lo ≤ a ∧ a + n ≤ hi := by
  obtain ⟨-, hbytes, -, -⟩ := hh.spaced.take htake
  have hfirst : a ∈ bytes l := by
    rw [hbytes]
    exact Or.inl ⟨le_refl _, Nat.lt_add_of_pos_right hpos⟩
  have hlast : a + n - 1 ∈ bytes l := by
    rw [hbytes]
    refine Or.inl ⟨?_, ?_⟩
    · dsimp only
      omega
    · unfold Chunk.stop
      dsimp only
      omega
  have h0 := hh.spaced.mem_bytes hfirst
  have h1 := hh.spaced.mem_bytes hlast
  omega

end Serving

section Header

theorem toInt_ofNat_of_lt (hn : n < 2 ^ 31) : (BitVec.ofNat 32 n).toInt = n := by
  have hmod : (BitVec.ofNat 32 n).toNat = n := by
    rw [BitVec.toNat_ofNat, Nat.mod_eq_of_lt (by omega)]
  rw [BitVec.toInt_eq_toNat_of_lt (by omega), hmod]

theorem rounded_of_dvd (hn : 8 ∣ n) : rounded (n : Int) = n := by
  have hcast : (rounded (n : Int) : Int) = ((n : Int) + 7) / 8 * 8 :=
    rounded_cast (Int.natCast_nonneg n)
  omega

theorem roundable_of_pos (hpos : 0 < n) (hn : n + 8 < 2 ^ 31) : Roundable (n : Int) := by
  unfold Roundable Fits minChunkSize
  omega

/-- The room between the taken address and the aligned one is given back. -/
theorem Heap.Holds.freeHeader (hh : h.Holds lo hi l) (hb : Bounds lo hi) (align : BitVec 32)
    (ha : 8 ∣ a) (hr : 8 ∣ r) (hlo : lo ≤ a) (har : a ≤ r) (hhi : r + 8 ≤ hi)
    (hdisj : Disjoint (⟨a, r - a⟩ : Chunk).bytes (bytes l)) :
    ∃ h' l', h.freeHeader (BitVec.ofNat 32 a) (BitVec.ofNat 32 r) align =
        some (h', BitVec.ofNat 32 r) ∧
      h'.Holds lo hi l' ∧ bytes l' = (⟨a, r - a⟩ : Chunk).bytes ∪ bytes l := by
  have htop := hb.top
  have hint := hb.int
  have hroom : BitVec.ofNat 32 r - BitVec.ofNat 32 a = BitVec.ofNat 32 (r - a) :=
    BitVec.ofNat_sub_ofNat_of_le _ _ (by omega) har
  have hroomNat : (BitVec.ofNat 32 (r - a)).toNat = r - a := by
    rw [BitVec.toNat_ofNat, Nat.mod_eq_of_lt (by omega)]
  have haNat : (BitVec.ofNat 32 a).toNat = a := by
    rw [BitVec.toNat_ofNat, Nat.mod_eq_of_lt (by omega)]
  unfold Heap.freeHeader
  rw [hroom]
  dsimp only
  rw [hroomNat, haNat, toInt_ofNat_of_lt (by omega)]
  by_cases hsame : r = a
  · refine ⟨h, l, ?_, hh, ?_⟩
    · rw [if_neg]
      · rfl
      · simp [hsame]
    · simp [hsame, Chunk.bytes, Chunk.stop]
  · have hdvd : 8 ∣ r - a := Nat.dvd_sub hr ha
    have hlarge : ¬ ((r - a : Nat) : Int) < headerSize := by
      unfold headerSize
      omega
    have hne : BitVec.ofNat 32 (r - a) ≠ 0#32 := by
      intro hzero
      rw [hzero] at hroomNat
      have hzero' : (0#32).toNat = 0 := rfl
      omega
    have hsize : alignUp ((r - a : Nat) : Int) = some ((r - a : Nat) : Int) := by
      rw [alignUp_eq (roundable_of_pos (by omega) (by omega)), rounded_of_dvd hdvd]
    obtain ⟨h', hcall, hholds, -⟩ :=
      rtUserFree_eq hh hb hsize (by omega) hdvd ha hlo (by omega) hdisj
    refine ⟨h', _, ?_, hholds, bytes_give⟩
    rw [if_pos hne, if_neg hlarge, hcall]
    rfl

end Header

section Call

variable {s : Nat}

/-- The next multiple of a power of two that is a chunk address. -/
theorem roundUp_bounds (a : Nat) (hk : 3 ≤ k) :
    a ≤ (a + 2 ^ k - 1) / 2 ^ k * 2 ^ k ∧ (a + 2 ^ k - 1) / 2 ^ k * 2 ^ k < a + 2 ^ k ∧
      8 ∣ 2 ^ k ∧ 8 ∣ (a + 2 ^ k - 1) / 2 ^ k * 2 ^ k := by
  have hdvd : 8 ∣ 2 ^ k := by
    have h8 : 2 ^ 3 ∣ 2 ^ k := Nat.pow_dvd_pow 2 hk
    exact h8
  have hpos : 0 < 2 ^ k := Nat.two_pow_pos k
  have hdiv := Nat.div_add_mod (a + 2 ^ k - 1) (2 ^ k)
  have hmod := Nat.mod_lt (a + 2 ^ k - 1) hpos
  rw [Nat.mul_comm] at hdiv
  exact ⟨by omega, by omega, hdvd, hdvd.mul_left _⟩

/-- The padded size. -/
theorem padded_bounds (hk : 3 ≤ k)
    (hsize : Roundable ((s : Int) + (2 ^ k : Nat) + headerSize * 2)) :
    s + 2 ^ k + 16 ≤ rounded ((s : Int) + (2 ^ k : Nat) + headerSize * 2) ∧
      s + 2 ^ k + 24 < 2 ^ 31 ∧
      (8 ∣ s → rounded ((s : Int) + (2 ^ k : Nat) + headerSize * 2) = s + 2 ^ k + 16) := by
  have hw : 8 ∣ 2 ^ k := (roundUp_bounds 0 hk).2.2.1
  have hle := le_rounded hsize
  have hpos := hsize.1
  have hcast := rounded_cast (by omega : 0 ≤ (s : Int) + (2 ^ k : Nat) + headerSize * 2)
  have hfits := hsize.2.2
  unfold headerSize minChunkSize at *
  omega

/-- All but the last free. -/
theorem Heap.Holds.rtUserAllocAlign_eq (hh : h.Holds lo hi l) (hb : Bounds lo hi) (hk : 3 ≤ k)
    (hk' : k < 31) (hsize : Roundable ((s : Int) + (2 ^ k : Nat) + headerSize * 2))
    (htake : take (rounded ((s : Int) + (2 ^ k : Nat) + headerSize * 2)) l = some (a, l'))
    (hr : r = (a + 2 ^ k - 1) / 2 ^ k * 2 ^ k) :
    ∃ (h₂ : Heap) (l₂ : List Chunk), h₂.Holds lo hi l₂ ∧ bytes l₂ = (⟨a, r - a⟩ : Chunk).bytes ∪ bytes l' ∧
      h.rtUserAllocAlign s (2 ^ k : Nat) =
        (h₂.rtUserFree (r + s) (2 ^ k + 16 - (r - a) : Nat)).map fun h => (h, r) := by
  obtain ⟨hpos, hdvd⟩ := rounded_pos hsize
  obtain ⟨hpad, hfits, -⟩ := padded_bounds hk hsize
  obtain ⟨hlo, hhi⟩ := hh.take_bounds hpos htake
  obtain ⟨har, hra, hw8, hr8⟩ := roundUp_bounds a hk
  rw [← hr] at har hra hr8
  have htop := hb.top
  have hlopos := hb.pos
  have ha8 := (hh.aligned.take hdvd htake).1
  have hapart := (hh.spaced.take htake).2.2.1
  obtain ⟨h₁, hcall, hholds, -⟩ :=
    rtUserAlloc_some hh hb (alignUp_eq hsize) hpos hdvd htake
  have hhead : Disjoint (⟨a, r - a⟩ : Chunk).bytes (bytes l') := by
    refine hapart.mono_left ?_
    intro x hx
    rw [Chunk.mem_bytes, Chunk.stop] at *
    dsimp only at *
    omega
  obtain ⟨h₂, l₂, hfree, hholds₂, hbytes₂⟩ :=
    hholds.freeHeader hb (BitVec.ofNat 32 (2 ^ k)) ha8 hr8 hlo har (by omega) hhead
  refine ⟨h₂, l₂, hholds₂, hbytes₂, ?_⟩
  have hlarge : ¬ ((2 ^ k : Nat) : Int) < headerSize := by
    have h8 := Nat.le_of_dvd (Nat.two_pow_pos k) hw8
    unfold headerSize
    omega
  have hadd : add 32 (s : Int) (2 ^ k : Nat) = some ((s : Int) + (2 ^ k : Nat)) := by
    refine add_eq_some.mpr ⟨?_, rfl⟩
    unfold Fits
    omega
  have hsum : (s : Int) + (2 ^ k : Nat) + headerSize * 2 = (s + 2 ^ k + 16 : Nat) := by
    unfold headerSize
    omega
  have hsizeAlign : (BitVec.ofNat 32 (s + 2 ^ k + 16)).toInt = (s + 2 ^ k + 16 : Nat) :=
    toInt_ofNat_of_lt (by omega)
  have hresult : (BitVec.ofNat 32 a + BitVec.ofNat 32 (2 ^ k) - 1#32) &&&
      -BitVec.ofNat 32 (2 ^ k) = BitVec.ofNat 32 r := by
    rw [roundUp_eq (by omega) (by omega), hr]
  have hroom : BitVec.ofNat 32 r - BitVec.ofNat 32 a = BitVec.ofNat 32 (r - a) :=
    BitVec.ofNat_sub_ofNat_of_le _ _ (by omega) har
  have htail : (BitVec.ofNat 32 r + BitVec.ofNat 32 s).toNat = r + s := by
    rw [← BitVec.ofNat_add, BitVec.toNat_ofNat, Nat.mod_eq_of_lt (by omega)]
  have hrest : (BitVec.ofNat 32 (s + 2 ^ k + 16) - BitVec.ofNat 32 (r - a) -
      BitVec.ofNat 32 s).toInt = (2 ^ k + 16 - (r - a) : Nat) := by
    have hleft : s + 2 ^ k + 16 - (r - a) - s = 2 ^ k + 16 - (r - a) := by omega
    rw [BitVec.ofNat_sub_ofNat_of_le _ _ (by omega) (by omega),
      BitVec.ofNat_sub_ofNat_of_le _ _ (by omega) (by omega), hleft, toInt_ofNat_of_lt (by omega)]
  have hrNat : (BitVec.ofNat 32 r).toNat = r := by
    rw [BitVec.toNat_ofNat, Nat.mod_eq_of_lt (by omega)]
  have hne : a ≠ 0 := by omega
  rw [hsum] at hcall
  rw [Heap.rtUserAllocAlign, if_neg hlarge, hadd]
  simp only [Option.bind_eq_bind, Option.bind_some]
  rw [hsum, BitVec.ofInt_natCast, hsizeAlign, hcall]
  simp only [Option.bind_some]
  rw [if_neg hne, BitVec.ofInt_natCast, hresult, hroom, hfree]
  simp only [Option.bind_some]
  rw [BitVec.ofInt_natCast, BitVec.ofInt_natCast, htail, hrest, hrNat]
  cases h₂.rtUserFree (r + s) (2 ^ k + 16 - (r - a) : Nat) with
  | none => rfl
  | some h₃ => rfl

end Call

/-! ### Chunks at any address -/

/-- The fields `next` lead from `p` over the addresses `as` to `q`. -/
def Links (m : Memory) : Nat → List Nat → Nat → Prop
  | p, [], q => p = q
  | p, a :: as, q => p = a ∧ a ≠ 0 ∧ Links m (m.next a) as q

section Links

variable {m m' : Memory} {p q c : Nat} {as bs : List Nat}

theorem Segment.links (hl : Segment m p l q) : Links m p (l.map Chunk.addr) q := by
  induction l generalizing p with
  | nil => exact hl
  | cons c l ih =>
    obtain ⟨rfl, hne, -, hrest⟩ := hl
    exact ⟨rfl, hne, ih hrest⟩

theorem links_append :
    Links m p (as ++ bs) q ↔ ∃ r, Links m p as r ∧ Links m r bs q := by
  induction as generalizing p with
  | nil => simp [Links]
  | cons a as ih =>
    simp only [List.cons_append, Links, ih]
    constructor
    · intro hl
      obtain ⟨haddr, hne, r, has, hbs⟩ := hl
      exact ⟨r, ⟨haddr, hne, has⟩, hbs⟩
    · intro hl
      obtain ⟨r, ⟨haddr, hne, has⟩, hbs⟩ := hl
      exact ⟨haddr, hne, r, has, hbs⟩

theorem Links.congr (hl : Links m p as q) (hsame : ∀ a ∈ as, m'.next a = m.next a) :
    Links m' p as q := by
  induction as generalizing p with
  | nil => exact hl
  | cons a as ih =>
    obtain ⟨rfl, hne, hrest⟩ := hl
    refine ⟨rfl, hne, ?_⟩
    rw [hsame p List.mem_cons_self]
    exact ih hrest fun b hb => hsame b (List.mem_cons_of_mem _ hb)

/-- What the links lead to is in the list. -/
theorem Links.mem_segment (hl : Links m p as q) (hq : q ≠ 0) (hseg : Segment m p l 0) :
    ∃ c ∈ l, c.addr = q := by
  induction as generalizing p l with
  | nil =>
    obtain rfl : p = q := hl
    cases l with
    | nil => exact absurd hseg hq
    | cons c l => exact ⟨c, List.mem_cons_self, hseg.1.symm⟩
  | cons a as ih =>
    obtain ⟨rfl, hne, hrest⟩ := hl
    cases l with
    | nil => exact absurd hseg hne
    | cons c l =>
      obtain ⟨d, hd, haddr⟩ := ih hrest hseg.2.2.2
      exact ⟨d, List.mem_cons_of_mem _ hd, haddr⟩

theorem Links.walk_eq {go : Nat → Bool} {fuel prev : Nat} (hl : Links m p as q)
    (hgo : ∀ a ∈ as, go a = true) (hq : q = 0 ∨ go q = false) (hfuel : as.length < fuel) :
    walk m go fuel prev p = some (as.getLastD prev, q) := by
  induction as generalizing p fuel prev with
  | nil =>
    obtain rfl : p = q := hl
    cases fuel with
    | zero => cases hfuel
    | succ fuel =>
      rw [walk, if_neg]
      · rfl
      · intro hcond
        rcases hq with hq | hq
        · exact hcond.1 hq
        · exact absurd hcond.2 (by simp [hq])
  | cons a as ih =>
    obtain ⟨rfl, hne, hrest⟩ := hl
    cases fuel with
    | zero => cases hfuel
    | succ fuel =>
      rw [walk, if_pos ⟨hne, hgo p List.mem_cons_self⟩,
        ih hrest (fun b hb => hgo b (List.mem_cons_of_mem _ hb)) (by simpa using hfuel),
        List.getLastD_cons]

/-- Freeing a chunk that does not touch the one behind it puts it between its neighbours, or merges
it with the one in front of it. -/
theorem rtUserFree_links {size' : Int} (hl : Links h.mem h.firstFree as q)
    (hsize : alignUp size = some size') (hpair : (as ++ [c]).Pairwise fun a b => a + 4 < b)
    (hq : q = 0 ∨ c ≤ q) (hgap : (c : Int) + size' ≠ q) (hlen : as.length < maxChunks)
    (hc : c ≠ 0) (hc' : c < 2 ^ 32) (hq' : q < 2 ^ 32) (hfree : h.rtUserFree c size = some h') :
    Links h'.mem h'.firstFree (as ++ [c]) q ∨
      Links h'.mem h'.firstFree as q ∧ ∃ e ∈ as, (e : Int) + h.mem.size e = c := by
  have hbelow : ∀ a ∈ as, a + 4 < c := by
    intro a ha
    exact (List.pairwise_append.mp hpair).2.2 a ha c List.mem_cons_self
  have hgo : ∀ a ∈ as, decide (a < c) = true := by
    intro a ha
    have hac := hbelow a ha
    simp
    omega
  have hstop : q = 0 ∨ decide (q < c) = false := by
    rcases hq with hq | hq
    · exact Or.inl hq
    · exact Or.inr (by simp [hq])
  have hwalk : walk h.mem (fun pt => decide (pt < c)) maxChunks 0 h.firstFree =
      some (as.getLastD 0, q) := hl.walk_eq hgo hstop hlen
  simp only [Heap.rtUserFree, hsize, hwalk, Heap.coalesceNext, if_neg hgap, Option.bind_eq_bind,
    Option.bind_some, Option.pure_def] at hfree
  have hnext : ((h.mem.setSize c size').setNext c q).next c = q := next_setNext_self hq'
  have hframe : ∀ a ∈ as, ((h.mem.setSize c size').setNext c q).next a = h.mem.next a := by
    intro a ha
    have hac := hbelow a ha
    rw [next_setNext_ne (by omega), Memory.next, setSize_apply_ne (by omega)]
    rfl
  rcases List.eq_nil_or_concat as with rfl | ⟨as, e, rfl⟩
  · cases hfree
    exact Or.inl ⟨rfl, hc, hnext⟩
  · rw [List.concat_eq_append] at *
    obtain ⟨r, hfirst, rfl, hne, -⟩ := links_append.mp hl
    have hr := hbelow r (by simp)
    have hpair' := hpair
    rw [List.append_assoc, List.pairwise_append] at hpair'
    have hbefore : ∀ a ∈ as, a + 4 < r := fun a ha => hpair'.2.2 a ha r (by simp)
    have hsizeEq : ((h.mem.setSize c size').setNext c q).size r = h.mem.size r := by
      rw [Memory.size, setHeader_apply (by omega) (by omega)]
      rfl
    rw [List.getLastD_concat, if_pos hne] at hfree
    simp only [Heap.coalescePrev, hsizeEq] at hfree
    by_cases htouch : (r : Int) + h.mem.size r = c
    · rw [if_pos htouch] at hfree
      cases hadd : add 32 (h.mem.size r) (((h.mem.setSize c size').setNext c q).size c) with
      | none =>
        rw [hadd] at hfree
        cases hfree
      | some total =>
        rw [hadd] at hfree
        cases hfree
        refine Or.inr ⟨links_append.mpr ⟨r, hfirst.congr ?_, rfl, hne, ?_⟩, r, by simp, htouch⟩
        · intro a ha
          have har := hbefore a ha
          rw [next_setNext_ne (by omega), Memory.next, setSize_apply_ne (by omega)]
          exact hframe a (by simp [ha])
        · change ((Memory.setSize _ r total).setNext r _).next r = q
          rw [next_setNext_self (next_lt _ _), Memory.next, setSize_apply_ne (by omega)]
          exact hnext
    · rw [if_neg htouch] at hfree
      cases hfree
      refine Or.inl (links_append.mpr ⟨c, links_append.mpr ⟨r, hfirst.congr ?_, rfl, hne, ?_⟩,
        rfl, hc, ?_⟩)
      · intro a ha
        have har := hbefore a ha
        rw [next_setNext_ne (by omega)]
        exact hframe a (by simp [ha])
      · exact next_setNext_self hc'
      · change (Memory.setNext _ r c).next c = q
        rw [next_setNext_ne (by omega)]
        exact hnext

end Links

section Call

variable {s : Nat}

/-- A size that is a multiple of the chunk size is served. -/
theorem Heap.Holds.rtUserAllocAlign_serves (hh : h.Holds lo hi l) (hb : Bounds lo hi) (hk : 3 ≤ k)
    (hk' : k < 31) (hs : 0 < s) (hs8 : 8 ∣ s)
    (hsize : Roundable ((s : Int) + (2 ^ k : Nat) + headerSize * 2))
    (htake : take (rounded ((s : Int) + (2 ^ k : Nat) + headerSize * 2)) l = some (a, l')) :
    ∃ h' ptr, h.rtUserAllocAlign s (2 ^ k : Nat) = some (h', ptr) ∧
      h'.Serves lo hi l s (2 ^ k : Nat) ptr := by
  obtain ⟨hpos, hdvd⟩ := rounded_pos hsize
  obtain ⟨-, hfits, hexact⟩ := padded_bounds hk hsize
  obtain ⟨hlo, hhi⟩ := hh.take_bounds hpos htake
  obtain ⟨har, hra, hw8, hr8⟩ := roundUp_bounds a hk
  have hrk : (2 ^ k : Nat) ∣ (a + 2 ^ k - 1) / 2 ^ k * 2 ^ k := Nat.dvd_mul_left _ _
  have hint := hb.int
  obtain ⟨-, hbytes, hapart, -⟩ := hh.spaced.take htake
  have ha8 := (hh.aligned.take hdvd htake).1
  obtain ⟨h₂, l₂, hholds, hbytes₂, hcall⟩ := hh.rtUserAllocAlign_eq hb hk hk' hsize htake rfl
  rw [hexact hs8] at hbytes hapart hhi
  generalize (a + 2 ^ k - 1) / 2 ^ k * 2 ^ k = r at *
  have hrounded := rounded_of_dvd hs8
  have htail8 : 8 ∣ 2 ^ k + 16 - (r - a) := Nat.dvd_sub (by omega) (Nat.dvd_sub hr8 ha8)
  have htailSize : alignUp ((2 ^ k + 16 - (r - a) : Nat) : Int) =
      some ((2 ^ k + 16 - (r - a) : Nat) : Int) := by
    rw [alignUp_eq (roundable_of_pos (by omega) (by omega)), rounded_of_dvd htail8]
  have hmem : ∀ x ∈ bytes l', x < a ∨ a + (s + 2 ^ k + 16) ≤ x := by
    intro x hx
    by_contra hin
    refine Set.disjoint_left.mp hapart ?_ hx
    rw [Chunk.mem_bytes, Chunk.stop]
    dsimp only
    omega
  have hdisj : Disjoint (⟨r + s, 2 ^ k + 16 - (r - a)⟩ : Chunk).bytes (bytes l₂) := by
    rw [hbytes₂, Set.disjoint_left]
    intro x hx hx'
    rw [Chunk.mem_bytes, Chunk.stop] at hx
    dsimp only at hx
    rcases hx' with hx' | hx'
    · rw [Chunk.mem_bytes, Chunk.stop] at hx'
      dsimp only at hx'
      omega
    · have hout := hmem x hx'
      omega
  obtain ⟨h₃, hfree, hholds₃, -⟩ := rtUserFree_eq hholds hb htailSize (by omega) htail8
    (Nat.dvd_add hr8 hs8) (by omega) (by omega) hdisj
  refine ⟨h₃, r, by rw [hcall, hfree]; rfl, ?_⟩
  refine hholds₃.serves hb hh.spaced (roundable_of_pos hs (by omega)) hr8
    (Int.natCast_dvd_natCast.mpr hrk) (by omega) (by omega) ?_ ?_
  · rw [bytes_give, hbytes₂, hrounded, Set.disjoint_left]
    intro x hx hx'
    rw [Chunk.mem_bytes, Chunk.stop] at hx
    dsimp only at hx
    simp only [Set.mem_union, Chunk.mem_bytes, Chunk.stop] at hx'
    rcases hx' with hx' | hx' | hx'
    · omega
    · omega
    · have hout := hmem x hx'
      omega
  · ext x
    rw [bytes_give, hbytes₂, hbytes, hrounded]
    simp only [Set.mem_union, Chunk.mem_bytes, Chunk.stop]
    by_cases hx : x ∈ bytes l'
    · simp [hx]
    · simp only [hx, or_false]
      omega

/-- The chunks in front of an address that is not free. -/
private theorem Heap.Holds.links_before (hh : h.Holds lo hi l) (hb : Bounds lo hi) (t : Nat) :
    ∃ (as : List Nat) (q : Nat), Links h.mem h.firstFree as q ∧ as.length < maxChunks ∧
      (as.Pairwise fun a b => a + 4 < b) ∧
      (∀ a ∈ as, a < t ∧ ∃ c ∈ l, c.addr = a) ∧
      (q = 0 ∨ t ≤ q ∧ 8 ∣ q) ∧ q < 2 ^ 32 := by
  have hl := List.takeWhile_append_dropWhile (p := (·.addr < t)) (l := l)
  have hlinked := hh.linked
  have hlen := hh.length_lt hb
  have hpair : l.Pairwise fun c d => c.addr + 4 < d.addr := by
    refine hh.spaced.pairwise.imp_of_mem ?_
    intro c d hc hd hcd
    have h8 := eight_le_size hh.spaced hh.aligned hc
    unfold Chunk.stop at hcd
    omega
  have hafter : ∀ d ∈ l.dropWhile (·.addr < t), d ∈ l := fun d hd => List.dropWhile_subset _ hd
  have hstop : ∀ d rest, l.dropWhile (·.addr < t) = d :: rest → t ≤ d.addr := by
    intro d rest hdrop
    have hnot := List.head?_dropWhile_not (fun c : Chunk => decide (c.addr < t)) l
    rw [hdrop] at hnot
    simpa using hnot
  rw [← hl] at hlinked
  obtain ⟨q, hfirst, hpost⟩ := segment_append.mp hlinked
  refine ⟨_, q, hfirst.links, ?_, ?_, ?_, ?_, ?_⟩
  · rw [List.length_map]
    exact (List.takeWhile_sublist _).length_le.trans_lt hlen
  · rw [List.pairwise_map]
    exact hpair.sublist (List.takeWhile_sublist _)
  · intro a ha
    obtain ⟨c, hc, rfl⟩ := List.mem_map.mp ha
    have hct := List.all_eq_true.mp List.all_takeWhile c hc
    exact ⟨by simpa using hct, c, List.takeWhile_subset _ hc, rfl⟩
  · cases hdrop : l.dropWhile (·.addr < t) with
    | nil =>
      rw [hdrop] at hpost
      exact Or.inl hpost
    | cons d rest =>
      rw [hdrop] at hpost hafter
      rw [hpost.1]
      exact Or.inr ⟨hstop d rest hdrop, (hh.aligned d (hafter d List.mem_cons_self)).1⟩
  · cases hdrop : l.dropWhile (·.addr < t) with
    | nil =>
      rw [hdrop] at hpost
      rw [show q = 0 from hpost]
      decide
    | cons d rest =>
      rw [hdrop] at hpost hafter
      have hd := hh.spaced.mem (hafter d List.mem_cons_self)
      have htop := hb.top
      unfold Chunk.stop at hd
      rw [hpost.1]
      omega

/-- The tail of any other size starts in the last chunk of the block, and stays in the list when the
block is freed. -/
theorem Heap.Holds.rtUserAllocAlign_not_serves (hh : h.Holds lo hi l) (hb : Bounds lo hi)
    (hk : 3 ≤ k) (hk' : k < 31) (hs : 0 < s) (hs8 : ¬ 8 ∣ s)
    (hsize : Roundable ((s : Int) + (2 ^ k : Nat) + headerSize * 2))
    (htake : take (rounded ((s : Int) + (2 ^ k : Nat) + headerSize * 2)) l = some (a, l'))
    {ptr : Nat} (hcall : h.rtUserAllocAlign s (2 ^ k : Nat) = some (h', ptr)) :
    ¬ h'.Serves lo hi l s (2 ^ k : Nat) ptr := by
  intro hserves
  obtain ⟨hpos, hdvd⟩ := rounded_pos hsize
  obtain ⟨hpad, hfits, -⟩ := padded_bounds hk hsize
  obtain ⟨hlo, hhi⟩ := hh.take_bounds hpos htake
  obtain ⟨har, hra, hw8, hr8⟩ := roundUp_bounds a hk
  have hint := hb.int
  have htop := hb.top
  have hlopos := hb.pos
  obtain ⟨-, -, hapart, -⟩ := hh.spaced.take htake
  have ha8 := (hh.aligned.take hdvd htake).1
  obtain ⟨h₂, l₂, hholds, hbytes₂, hcall'⟩ := hh.rtUserAllocAlign_eq hb hk hk' hsize htake rfl
  generalize (a + 2 ^ k - 1) / 2 ^ k * 2 ^ k = r at *
  rw [hcall'] at hcall
  obtain ⟨h₃, hfree, heq⟩ := Option.map_eq_some_iff.mp hcall
  obtain ⟨rfl, hptr⟩ := Prod.mk.inj heq
  subst hptr
  -- nothing is free between the block and the end of what was taken
  have hgap : ∀ x ∈ bytes l₂, x < r ∨ r + s + 4 ≤ x := by
    intro x hx
    rw [hbytes₂] at hx
    rcases hx with hx | hx
    · rw [Chunk.mem_bytes, Chunk.stop] at hx
      dsimp only at hx
      omega
    · by_contra hin
      refine Set.disjoint_left.mp hapart ?_ hx
      rw [Chunk.mem_bytes, Chunk.stop]
      dsimp only
      omega
  obtain ⟨as, q, hlinks, hlen, hpair, hbefore, hq, hq'⟩ := hholds.links_before hb (r + s)
  have hbelow : ∀ a ∈ as, a + 4 < r ∧ 8 ∣ a + h₂.mem.size a := by
    intro a ha
    obtain ⟨hat, c, hc, rfl⟩ := hbefore a ha
    obtain ⟨h0, h1⟩ := header_mem hholds.spaced hholds.aligned hc
    obtain ⟨hc8, hn8⟩ := hholds.aligned c hc
    have hlt := hgap _ h0
    have hlt' := hgap _ h1
    rw [hholds.linked.size_mem hc]
    omega
  have hsnoc : ∀ c, r ≤ c → (as ++ [c]).Pairwise fun a b => a + 4 < b := by
    intro c hc
    refine List.pairwise_append.mpr ⟨hpair, List.pairwise_singleton _ _, ?_⟩
    intro a ha b hb
    have har := (hbelow a ha).1
    rw [List.mem_singleton.mp hb]
    omega
  have htail8 : 8 ∣ 2 ^ k + 16 - (r - a) := Nat.dvd_sub (by omega) (Nat.dvd_sub hr8 ha8)
  have htailSize : alignUp ((2 ^ k + 16 - (r - a) : Nat) : Int) =
      some ((2 ^ k + 16 - (r - a) : Nat) : Int) := by
    rw [alignUp_eq (roundable_of_pos (by omega) (by omega)), rounded_of_dvd htail8]
  have htail : Links h₃.mem h₃.firstFree as (r + s) := by
    rcases rtUserFree_links hlinks htailSize (hsnoc (r + s) (by omega)) (by omega) (by omega) hlen
      (by omega) (by omega) hq' hfree with hnew | hmerged
    · obtain ⟨t, has, rfl, -⟩ := links_append.mp hnew
      exact has
    · obtain ⟨-, e, he, htouch⟩ := hmerged
      have he8 := (hbelow e he).2
      omega
  -- the caller writes nothing and frees the block
  obtain ⟨h₄, hfree₄, hholds₄⟩ := hserves.restored h₃.mem fun _ _ => rfl
  have hs' : Roundable (s : Int) := roundable_of_pos hs (by omega)
  obtain ⟨-, hs'8⟩ := rounded_pos hs'
  have hle := le_rounded hs'
  have hreach : ∃ bs, Links h₄.mem h₄.firstFree bs (r + s) := by
    rcases rtUserFree_links htail (alignUp_eq hs') (hsnoc r le_rfl) (by omega) (by omega) hlen
      (by omega) (by omega) (by omega) hfree₄ with hnew | hmerged
    · exact ⟨_, hnew⟩
    · exact ⟨_, hmerged.1⟩
  obtain ⟨bs, hlinks₄⟩ := hreach
  obtain ⟨c, hc, haddr⟩ := hlinks₄.mem_segment (by omega) hholds₄.linked
  have hc8 := (hholds₄.aligned c hc).1
  omega

theorem alignUp_of_neg (hlow : -2 ^ 31 ≤ size) (hneg : size < -8) :
    alignUp size = some ((size + 7) / 8 * 8) := by
  have hadd : add 32 size 8 = some (size + 8) :=
    add_eq_some.mpr ⟨by unfold Fits; omega, rfl⟩
  have hsub : sub 32 (size + 8) 1 = some (size + 7) :=
    sub_eq_some.mpr ⟨by unfold Fits; omega, by omega⟩
  simp only [alignUp, minChunkSize, hadd, hsub, Option.bind_eq_bind, Option.bind_some,
    Option.pure_def]

/-- A negative size fits the first chunk, whose rest would begin in front of it. -/
theorem rtUserAlloc_neg (hh : h.Holds lo hi l) (hlow : -2 ^ 31 ≤ size) (hneg : size < -8) :
    h.rtUserAlloc size = if l = [] then some (h, 0) else none := by
  have halign := alignUp_of_neg hlow hneg
  have hfuel : maxChunks = maxChunks - 1 + 1 := by decide
  cases l with
  | nil =>
    have hnull : h.firstFree = 0 := hh.linked
    rw [if_pos rfl, Heap.rtUserAlloc, halign, hfuel, hnull]
    rfl
  | cons c l =>
    obtain ⟨haddr, hne, hsize, -⟩ := hh.linked
    have hlarge : ¬ h.mem.size h.firstFree < (size + 7) / 8 * 8 := by omega
    have hdiff : ¬ h.mem.size h.firstFree = (size + 7) / 8 * 8 := by omega
    have hoffset : Heap.offset h.firstFree ((size + 7) / 8 * 8) = none := if_neg (by omega)
    rw [if_neg (List.cons_ne_nil _ _), Heap.rtUserAlloc, halign, hfuel]
    simp [walk, hlarge, hne, hdiff, hoffset]

theorem alignUp_overflow (hpos : 1 ≤ size) (hover : ¬ Roundable size) : alignUp size = none := by
  have hadd : add 32 size minChunkSize = none := by
    unfold add narrow
    exact if_neg fun hfits => hover ⟨hpos, hfits⟩
  rw [alignUp, hadd]
  rfl

/-- The first allocation decides about failure. -/
theorem rtUserAllocAlign_of_none {align : Int} (halign : ¬ align < headerSize)
    (hadd : Fits 32 (size + align))
    (hcall : h.rtUserAlloc (BitVec.ofInt 32 (size + align + headerSize * 2)).toInt = none) :
    h.rtUserAllocAlign size align = none := by
  have hsum : add 32 size align = some (size + align) := add_eq_some.mpr ⟨hadd, rfl⟩
  simp only [Heap.rtUserAllocAlign, if_neg halign, hsum, hcall, Option.bind_eq_bind,
    Option.bind_some, Option.bind_none]

theorem rtUserAllocAlign_of_null {align : Int} (halign : ¬ align < headerSize)
    (hadd : Fits 32 (size + align))
    (hcall : h.rtUserAlloc (BitVec.ofInt 32 (size + align + headerSize * 2)).toInt = some (h, 0)) :
    h.rtUserAllocAlign size align = some (h, 0) := by
  have hsum : add 32 size align = some (size + align) := add_eq_some.mpr ⟨hadd, rfl⟩
  simp only [Heap.rtUserAllocAlign, if_neg halign, hsum, hcall, Option.bind_eq_bind,
    Option.bind_some, if_true, Option.pure_def]

theorem not_allocatesAligned_of_none {align : Int} (hcall : h.rtUserAllocAlign size align = none) :
    ¬ h.AllocatesAligned lo hi l size align := by
  intro halloc
  rcases halloc with hnull | ⟨h', ptr, hsome, -⟩
  · rw [hcall] at hnull
    cases hnull
  · rw [hcall] at hsome
    cases hsome

end Call

section Alignment

/-- Below the size of a header any chunk address will do. -/
theorem allocatesAligned_small (hh : h.Holds lo hi l) (hb : Bounds lo hi) (hsize : 1 ≤ size)
    (hk : k < 3) : h.AllocatesAligned lo hi l size (2 ^ k : Nat) ↔ Roundable size := by
  have hdvd8 : 2 ^ k ∣ 8 := by
    have h8 : 2 ^ k ∣ 2 ^ 3 := Nat.pow_dvd_pow 2 hk.le
    exact h8
  have hsmall : ((2 ^ k : Nat) : Int) < headerSize := by
    have hlt : 2 ^ k < 2 ^ 3 := Nat.pow_lt_pow_right (by decide) hk
    unfold headerSize
    omega
  have hcall : h.rtUserAllocAlign size (2 ^ k : Nat) = h.rtUserAlloc size := by
    rw [Heap.rtUserAllocAlign, if_pos hsmall]
  constructor
  · intro halloc
    by_contra hover
    refine not_allocatesAligned_of_none ?_ halloc
    rw [hcall, Heap.rtUserAlloc, alignUp_overflow hsize hover]
    rfl
  · intro hround
    obtain ⟨hpos, hdvd⟩ := rounded_pos hround
    unfold Heap.AllocatesAligned
    rw [hcall]
    cases htake : take (rounded size) l with
    | none => exact Or.inl (rtUserAlloc_none hh hb (alignUp_eq hround) htake)
    | some t =>
      obtain ⟨a, l'⟩ := t
      obtain ⟨hlo, hhi⟩ := hh.take_bounds hpos htake
      obtain ⟨h', hsome, hholds, -⟩ := rtUserAlloc_some hh hb (alignUp_eq hround) hpos hdvd htake
      obtain ⟨-, hbytes, hapart, -⟩ := hh.spaced.take htake
      have ha8 := (hh.aligned.take hdvd htake).1
      exact Or.inr ⟨h', a, hsome, hholds.serves hb hh.spaced hround ha8
        (Int.natCast_dvd_natCast.mpr (hdvd8.trans ha8)) hlo hhi hapart hbytes⟩

/-- A padded size that wraps to a negative one only fails on an empty list. -/
theorem allocatesAligned_wrapped (hh : h.Holds lo hi l) (hk : 3 ≤ k)
    (hadd : Fits 32 (size + (2 ^ k : Nat)))
    (hwrap : ¬ Fits 32 (size + (2 ^ k : Nat) + headerSize * 2)) (hsize : 1 ≤ size) :
    h.AllocatesAligned lo hi l size (2 ^ k : Nat) ↔ l = [] := by
  have hlarge : ¬ ((2 ^ k : Nat) : Int) < headerSize := by
    have h8 := Nat.le_of_dvd (Nat.two_pow_pos k) (roundUp_bounds 0 hk).2.2.1
    unfold headerSize
    omega
  have hneg : (BitVec.ofInt 32 (size + (2 ^ k : Nat) + headerSize * 2)).toInt =
      size + (2 ^ k : Nat) + headerSize * 2 - 2 ^ 32 := by
    rw [BitVec.toInt_ofInt, Int.bmod_def]
    unfold Fits headerSize at *
    omega
  have hcall : h.rtUserAlloc (size + (2 ^ k : Nat) + headerSize * 2 - 2 ^ 32) =
      if l = [] then some (h, 0) else none := by
    apply rtUserAlloc_neg hh
    · unfold Fits headerSize at *
      omega
    · unfold Fits headerSize at *
      omega
  rw [← hneg] at hcall
  constructor
  · intro halloc
    by_contra hne
    rw [if_neg hne] at hcall
    exact not_allocatesAligned_of_none (rtUserAllocAlign_of_none hlarge hadd hcall) halloc
  · intro hnil
    rw [if_pos hnil] at hcall
    exact Or.inl (rtUserAllocAlign_of_null hlarge hadd hcall)

/-- A padded size that can be rounded up. -/
theorem allocatesAligned_padded {s : Nat} (hh : h.Holds lo hi l) (hb : Bounds lo hi) (hk : 3 ≤ k)
    (hk' : k < 31) (hs : 0 < s)
    (hsize : Roundable ((s : Int) + (2 ^ k : Nat) + headerSize * 2)) :
    h.AllocatesAligned lo hi l s (2 ^ k : Nat) ↔
      minChunkSize ∣ (s : Int) ∨
        ∀ c ∈ l, c.size < rounded ((s : Int) + (2 ^ k : Nat) + headerSize * 2) := by
  have hlarge : ¬ ((2 ^ k : Nat) : Int) < headerSize := by
    have h8 := Nat.le_of_dvd (Nat.two_pow_pos k) (roundUp_bounds 0 hk).2.2.1
    unfold headerSize
    omega
  have hchunk : minChunkSize ∣ (s : Int) ↔ 8 ∣ s := by
    unfold minChunkSize
    omega
  have hfits := (padded_bounds hk hsize).2.1
  have hpow := Nat.two_pow_pos k
  rw [hchunk, ← take_eq_none]
  cases htake : take (rounded ((s : Int) + (2 ^ k : Nat) + headerSize * 2)) l with
  | none =>
    have hcall := rtUserAlloc_none hh hb (alignUp_eq hsize) htake
    have hwrap : (BitVec.ofInt 32 ((s : Int) + (2 ^ k : Nat) + headerSize * 2)).toInt =
        (s : Int) + (2 ^ k : Nat) + headerSize * 2 := by
      apply BitVec.toInt_ofInt_eq_self (by decide)
      · unfold headerSize
        omega
      · unfold headerSize
        omega
    rw [← hwrap] at hcall
    have hadd : Fits 32 ((s : Int) + (2 ^ k : Nat)) := by
      unfold Fits
      omega
    exact iff_of_true (Or.inl (rtUserAllocAlign_of_null hlarge hadd hcall)) (Or.inr rfl)
  | some t =>
    obtain ⟨a, l'⟩ := t
    constructor
    · intro halloc
      by_contra hnot
      have hs8 : ¬ 8 ∣ s := fun hs8 => hnot (Or.inl hs8)
      rcases halloc with hnull | ⟨h', ptr, hcall, hserves⟩
      · obtain ⟨h₂, l₂, -, -, hcall⟩ := hh.rtUserAllocAlign_eq hb hk hk' hsize htake rfl
        obtain ⟨hlo, -⟩ := hh.take_bounds (rounded_pos hsize).1 htake
        have har := (roundUp_bounds a hk).1
        have hlopos := hb.pos
        rw [hcall] at hnull
        obtain ⟨h₃, -, heq⟩ := Option.map_eq_some_iff.mp hnull
        have hzero := (Prod.mk.inj heq).2
        omega
      · exact hh.rtUserAllocAlign_not_serves hb hk hk' hs hs8 hsize htake hcall hserves
    · intro hcond
      rcases hcond with hs8 | hnone
      · exact Or.inr (hh.rtUserAllocAlign_serves hb hk hk' hs hs8 hsize htake)
      · cases hnone

/-- For every free list, size and power of two, exactly the sizes that are multiples of the chunk
size, or larger than what is free, are allocated as they should be. -/
theorem rt_user_alloc_align_iff (hh : h.Holds lo hi l) (hb : Bounds lo hi)
    (hsize : 1 ≤ size ∧ Fits 32 size) (hk : k < 31) :
    h.AllocatesAligned lo hi l size (2 ^ k : Nat) ↔ AlignServed l size (2 ^ k : Nat) := by
  obtain ⟨hpos, -⟩ := hsize
  have hpow := Nat.two_pow_pos k
  unfold AlignServed
  by_cases hsmall : k < 3
  · have hlt : ((2 ^ k : Nat) : Int) < headerSize := by
      have hpow : 2 ^ k < 2 ^ 3 := Nat.pow_lt_pow_right (by decide) hsmall
      unfold headerSize
      omega
    rw [if_pos hlt]
    exact allocatesAligned_small hh hb hpos hsmall
  · have hk3 : 3 ≤ k := Nat.le_of_not_lt hsmall
    have hlarge : ¬ ((2 ^ k : Nat) : Int) < headerSize := by
      have h8 := Nat.le_of_dvd (Nat.two_pow_pos k) (roundUp_bounds 0 hk3).2.2.1
      unfold headerSize
      omega
    rw [if_neg hlarge]
    by_cases hadd : Fits 32 (size + (2 ^ k : Nat))
    · by_cases hwrap : Fits 32 (size + (2 ^ k : Nat) + headerSize * 2)
      · rw [if_pos hwrap]
        by_cases hround : Roundable (size + (2 ^ k : Nat) + headerSize * 2)
        · obtain ⟨s, rfl⟩ := Int.eq_ofNat_of_zero_le (by omega : 0 ≤ size)
          rw [allocatesAligned_padded hh hb hk3 hk (by omega) hround]
          simp only [hadd, hround, true_and]
        · refine iff_of_false ?_ (fun hcond => hround hcond.2.1)
          refine not_allocatesAligned_of_none (rtUserAllocAlign_of_none hlarge hadd ?_)
          have hsum : (BitVec.ofInt 32 (size + (2 ^ k : Nat) + headerSize * 2)).toInt =
              size + (2 ^ k : Nat) + headerSize * 2 :=
            BitVec.toInt_ofInt_eq_self (by decide) hwrap.1 hwrap.2
          rw [hsum, Heap.rtUserAlloc,
            alignUp_overflow (by unfold headerSize; omega) hround]
          rfl
      · rw [if_neg hwrap, allocatesAligned_wrapped hh hk3 hadd hwrap hpos]
        simp only [hadd, true_and]
    · refine iff_of_false ?_ (fun hcond => hadd hcond.1)
      refine not_allocatesAligned_of_none ?_
      have hover : add 32 size (2 ^ k : Nat) = none := by
        unfold add narrow
        exact if_neg hadd
      simp only [Heap.rtUserAllocAlign, if_neg hlarge, hover, Option.bind_eq_bind,
        Option.bind_none]

private theorem smallArena_holds : (smallArena.start fun _ => 0).heap.Holds 8 64 [⟨8, 56⟩] :=
  (Arena.Inv.start smallArena (by decide) fun _ => 0).holds

theorem rt_user_alloc_align_iff_small :
    (smallArena.start fun _ => 0).heap.AllocatesAligned 8 64 [⟨8, 56⟩] 16 (2 ^ 3 : Nat) :=
  (rt_user_alloc_align_iff smallArena_holds smallArena.bounds (by decide) (by decide)).mpr
    (by decide)

/-- Twelve bytes at a multiple of eight: the tail begins four bytes before the block ends. -/
theorem rt_user_alloc_align_tail :
    ¬ (smallArena.start fun _ => 0).heap.AllocatesAligned 8 64 [⟨8, 56⟩] 12 (2 ^ 3 : Nat) := by
  intro halloc
  have hcond := (allocatesAligned_padded (s := 12) smallArena_holds smallArena.bounds (le_refl 3)
    (by decide) (by decide) (by decide)).mp halloc
  revert hcond
  decide

end Alignment

end Hero.Runtime
