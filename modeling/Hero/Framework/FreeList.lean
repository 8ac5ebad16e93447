import Mathlib.Algebra.GroupWithZero.Nat
import Mathlib.Data.List.Basic
import Mathlib.Data.Set.Lattice
import Mathlib.Order.CompletePartialOrder
import Mathlib.Order.Interval.Set.LinearOrder
import Mathlib.Tactic.Common

/-!
# Sorted free lists

The free part of an arena as a list of chunks in the order of their addresses, no two of which
touch.  Blocks are taken from the front of the first chunk that is large enough and given back by
merging them with the neighbours they touch.
-/

namespace Hero.FreeList

structure Chunk where
  addr : Nat
  size : Nat
  deriving DecidableEq, Repr

/-- The byte behind a chunk. -/
def Chunk.stop (c : Chunk) : Nat := c.addr + c.size

def Chunk.bytes (c : Chunk) : Set Nat := Set.Ico c.addr c.stop

/-- Put a chunk in front of a list, merged with the first chunk if they touch. -/
def put (c : Chunk) : List Chunk → List Chunk
  | [] => [c]
  | d :: l => if c.stop = d.addr then ⟨c.addr, c.size + d.size⟩ :: l else c :: d :: l

/-- Take `n` bytes from the first chunk that has them. -/
def take (n : Nat) : List Chunk → Option (Nat × List Chunk)
  | [] => none
  | c :: l =>
    if c.size < n then (take n l).map fun (a, l') => (a, c :: l')
    else if c.size = n then some (c.addr, l)
    else some (c.addr, ⟨c.addr + n, c.size - n⟩ :: l)

/-- Take `n` bytes from the end of the first chunk that has them. -/
def takeEnd (n : Nat) : List Chunk → Option (Nat × List Chunk)
  | [] => none
  | c :: l =>
    if c.size < n then (takeEnd n l).map fun (a, l') => (a, c :: l')
    else if c.size = n then some (c.addr, l)
    else some (c.addr + (c.size - n), ⟨c.addr, c.size - n⟩ :: l)

/-- Give a block back. -/
def give (b : Chunk) : List Chunk → List Chunk
  | [] => [b]
  | c :: l => if c.addr < b.addr then put c (give b l) else put b (c :: l)

/-- Nonempty chunks between `lo` and `hi` in the order of their addresses, none touching the next. -/
def Spaced : Nat → Nat → List Chunk → Prop
  | _, _, [] => True
  | lo, hi, c :: l => lo ≤ c.addr ∧ 0 < c.size ∧ c.stop ≤ hi ∧ Spaced (c.stop + 1) hi l

/-- The free bytes. -/
def bytes (l : List Chunk) : Set Nat := {x | ∃ c ∈ l, x ∈ c.bytes}

def total (l : List Chunk) : Nat := (l.map Chunk.size).sum

/-- Addresses and sizes are multiples of `k`. -/
def Aligned (k : Nat) (l : List Chunk) : Prop := ∀ c ∈ l, k ∣ c.addr ∧ k ∣ c.size

variable {lo lo' hi k n a x : Nat} {b c d : Chunk} {l l' : List Chunk}

@[simp] theorem bytes_nil : bytes [] = ∅ := by
  ext x
  simp [bytes]

@[simp] theorem bytes_cons : bytes (c :: l) = c.bytes ∪ bytes l := by
  ext x
  simp [bytes]

@[simp] theorem total_nil : total [] = 0 := rfl

@[simp] theorem total_cons : total (c :: l) = c.size + total l := rfl

theorem total_append : total (l ++ l') = total l + total l' := by
  simp [total]

theorem size_le_total (hc : c ∈ l) : c.size ≤ total l := by
  induction l with
  | nil => cases hc
  | cons d l ih =>
    rw [total_cons]
    cases hc with
    | head => exact Nat.le_add_right _ _
    | tail _ hc => exact (ih hc).trans (Nat.le_add_left _ _)

@[simp] theorem aligned_nil : Aligned k [] := by simp [Aligned]

@[simp] theorem aligned_cons : Aligned k (c :: l) ↔ (k ∣ c.addr ∧ k ∣ c.size) ∧ Aligned k l := by
  simp [Aligned]

theorem put_cons : put c (d :: l) =
    if c.stop = d.addr then ⟨c.addr, c.size + d.size⟩ :: l else c :: d :: l := rfl

theorem Chunk.mem_bytes : x ∈ c.bytes ↔ c.addr ≤ x ∧ x < c.stop := Iff.rfl

theorem Spaced.weaken (h : Spaced lo hi l) (hle : lo' ≤ lo) : Spaced lo' hi l := by
  cases l with
  | nil => trivial
  | cons c l => exact ⟨hle.trans h.1, h.2⟩

theorem Spaced.mem (h : Spaced lo hi l) (hc : c ∈ l) : lo ≤ c.addr ∧ 0 < c.size ∧ c.stop ≤ hi := by
  induction l generalizing lo with
  | nil => cases hc
  | cons d l ih =>
    obtain ⟨hle, hpos, hstop, hrest⟩ := h
    cases hc with
    | head => exact ⟨hle, hpos, hstop⟩
    | tail _ hc =>
      obtain ⟨hle', hpos', hstop'⟩ := ih hrest hc
      unfold Chunk.stop at hle'
      exact ⟨by omega, hpos', hstop'⟩

/-- Chunks are in order and do not touch. -/
theorem Spaced.pairwise (h : Spaced lo hi l) : l.Pairwise fun c d => c.stop < d.addr := by
  induction l generalizing lo with
  | nil => exact List.Pairwise.nil
  | cons c l ih =>
    obtain ⟨-, -, -, hrest⟩ := h
    exact List.Pairwise.cons (fun d hd => (hrest.mem hd).1) (ih hrest)

theorem Spaced.mem_bytes (h : Spaced lo hi l) (hx : x ∈ bytes l) : lo ≤ x ∧ x < hi := by
  obtain ⟨c, hc, hle, hlt⟩ := hx
  obtain ⟨hlo, -, hhi⟩ := h.mem hc
  exact ⟨hlo.trans hle, hlt.trans_le hhi⟩

theorem Spaced.total_le (h : Spaced lo hi l) : total l ≤ hi - lo := by
  induction l generalizing lo with
  | nil => exact Nat.zero_le _
  | cons c l ih =>
    obtain ⟨hle, -, hstop, hrest⟩ := h
    have hsum := ih hrest
    unfold Chunk.stop at hstop hsum
    rw [total_cons]
    omega

/-- A list that covers the arena is one chunk. -/
theorem Spaced.eq_single (h : Spaced lo hi l) (hlt : lo < hi) (htotal : total l = hi - lo) :
    l = [⟨lo, hi - lo⟩] := by
  cases l with
  | nil =>
    rw [total_nil] at htotal
    omega
  | cons c l =>
    obtain ⟨hle, hpos, hstop, hrest⟩ := h
    rw [total_cons] at htotal
    unfold Chunk.stop at hstop hrest
    cases l with
    | nil =>
      rw [total_nil] at htotal
      have haddr : c.addr = lo := by omega
      have hsize : c.size = hi - lo := by omega
      rw [← hsize, ← haddr]
    | cons d l =>
      have hsum := hrest.total_le
      have hd := hrest.mem (List.mem_cons_self)
      unfold Chunk.stop at hd
      omega

theorem length_mul_le (h : ∀ c ∈ l, k ≤ c.size) : k * l.length ≤ total l := by
  induction l with
  | nil => simp
  | cons c l ih =>
    have hc := h c List.mem_cons_self
    have hl := ih (fun d hd => h d (List.mem_cons_of_mem _ hd))
    rw [List.length_cons, total_cons, Nat.mul_succ]
    omega

section Put

theorem Spaced.put (h : Spaced c.stop hi l) (hlo : lo ≤ c.addr) (hpos : 0 < c.size)
    (hhi : c.stop ≤ hi) : Spaced lo hi (put c l) := by
  cases l with
  | nil => exact ⟨hlo, hpos, hhi, trivial⟩
  | cons d l =>
    obtain ⟨hle, hpos', hstop, hrest⟩ := h
    rw [put_cons]
    split
    · next htouch =>
      have hsame : (⟨c.addr, c.size + d.size⟩ : Chunk).stop = d.stop := by
        unfold Chunk.stop at htouch ⊢
        dsimp only
        omega
      refine ⟨hlo, Nat.add_pos_left hpos _, ?_, ?_⟩
      · rw [hsame]
        exact hstop
      · rw [hsame]
        exact hrest
    · next hgap => exact ⟨hlo, hpos, hhi, by omega, hpos', hstop, hrest⟩

theorem bytes_put : bytes (FreeList.put c l) = c.bytes ∪ bytes l := by
  cases l with
  | nil => simp [FreeList.put]
  | cons d l =>
    rw [put_cons]
    split
    · next htouch =>
      have hmerged : (⟨c.addr, c.size + d.size⟩ : Chunk).bytes = c.bytes ∪ d.bytes := by
        have hc : c.addr ≤ c.stop := Nat.le_add_right _ _
        have hd : d.addr ≤ d.stop := Nat.le_add_right _ _
        have hstop : (⟨c.addr, c.size + d.size⟩ : Chunk).stop = d.stop := by
          unfold Chunk.stop at htouch ⊢
          dsimp only
          omega
        rw [Chunk.bytes, Chunk.bytes, Chunk.bytes, hstop, htouch,
          Set.Ico_union_Ico_eq_Ico (htouch ▸ hc) hd]
      rw [bytes_cons, bytes_cons, hmerged, Set.union_assoc]
    · rw [bytes_cons]

theorem total_put : total (FreeList.put c l) = c.size + total l := by
  cases l with
  | nil => rfl
  | cons d l =>
    rw [put_cons]
    split
    · simp only [total_cons]
      omega
    · rfl

theorem Aligned.put (hl : Aligned k l) (hc : k ∣ c.addr ∧ k ∣ c.size) : Aligned k (put c l) := by
  cases l with
  | nil => simpa [FreeList.put] using hc
  | cons d l =>
    rw [aligned_cons] at hl
    rw [put_cons]
    split
    · rw [aligned_cons]
      exact ⟨⟨hc.1, Nat.dvd_add hc.2 hl.1.2⟩, hl.2⟩
    · rw [aligned_cons, aligned_cons]
      exact ⟨hc, hl⟩

end Put

section Give

/-- A chunk in front of `b` that does not overlap it ends in front of it. -/
private theorem stop_le_of_lt (hlt : c.addr < b.addr) (hb : 0 < b.size)
    (hdisj : ∀ x ∈ b.bytes, x ∉ c.bytes) : c.stop ≤ b.addr := by
  by_contra hover
  have hin : b.addr ∈ b.bytes := ⟨le_refl _, Nat.lt_add_of_pos_right hb⟩
  exact hdisj _ hin ⟨hlt.le, by omega⟩

private theorem stop_le_of_ge (hle : b.addr ≤ c.addr) (hc : 0 < c.size)
    (hdisj : ∀ x ∈ b.bytes, x ∉ c.bytes) : b.stop ≤ c.addr := by
  by_contra hover
  have hin : c.addr ∈ c.bytes := ⟨le_refl _, Nat.lt_add_of_pos_right hc⟩
  exact hdisj _ ⟨hle, by omega⟩ hin

/-- Giving back a block that is not free keeps the chunks in order. -/
theorem Spaced.give (h : Spaced lo hi l) (hlo : lo ≤ b.addr) (hpos : 0 < b.size) (hhi : b.stop ≤ hi)
    (hdisj : ∀ x ∈ b.bytes, x ∉ bytes l) : Spaced lo hi (give b l) := by
  induction l generalizing lo with
  | nil => exact ⟨hlo, hpos, hhi, trivial⟩
  | cons c l ih =>
    have hrest := h.2.2.2
    have hc : ∀ x ∈ b.bytes, x ∉ c.bytes := by
      intro x hx hxc
      exact hdisj x hx ⟨c, List.mem_cons_self, hxc⟩
    have hl : ∀ x ∈ b.bytes, x ∉ bytes l := by
      intro x hx hxl
      obtain ⟨d, hd, hxd⟩ := hxl
      exact hdisj x hx ⟨d, List.mem_cons_of_mem _ hd, hxd⟩
    rw [FreeList.give]
    split
    · next hlt =>
      have hstop := stop_le_of_lt hlt hpos hc
      have hnext := ih (hrest.weaken (Nat.le_succ _)) hstop hl
      exact hnext.put h.1 h.2.1 h.2.2.1
    · next hge =>
      have hstop := stop_le_of_ge (Nat.le_of_not_lt hge) h.2.1 hc
      have hbehind : Spaced b.stop hi (c :: l) := ⟨hstop, h.2⟩
      exact hbehind.put hlo hpos hhi

theorem bytes_give : bytes (FreeList.give b l) = b.bytes ∪ bytes l := by
  induction l with
  | nil => simp [FreeList.give]
  | cons c l ih =>
    rw [FreeList.give]
    split
    · rw [bytes_put, ih, bytes_cons, Set.union_left_comm]
    · rw [bytes_put]

theorem total_give : total (FreeList.give b l) = b.size + total l := by
  induction l with
  | nil => rfl
  | cons c l ih =>
    rw [FreeList.give]
    split
    · rw [total_put, ih, total_cons]
      omega
    · rw [total_put]

theorem Aligned.give (hl : Aligned k l) (hb : k ∣ b.addr ∧ k ∣ b.size) :
    Aligned k (give b l) := by
  induction l with
  | nil => simpa [FreeList.give] using hb
  | cons c l ih =>
    have hcl := aligned_cons.mp hl
    rw [FreeList.give]
    split
    · exact (ih hcl.2).put hcl.1
    · exact hl.put hb

end Give

section Take

theorem take_cons : take n (c :: l) =
    if c.size < n then (take n l).map fun (a, l') => (a, c :: l')
    else if c.size = n then some (c.addr, l)
    else some (c.addr, ⟨c.addr + n, c.size - n⟩ :: l) := rfl

/-- A search fails where no chunk is large enough. -/
theorem take_eq_none : take n l = none ↔ ∀ c ∈ l, c.size < n := by
  induction l with
  | nil => simp [FreeList.take]
  | cons c l ih =>
    rw [take_cons]
    by_cases hsmall : c.size < n
    · simp [hsmall, ih]
    · by_cases hexact : c.size = n
      · simp [hexact]
      · simp [hsmall, hexact]

/-- The chunks behind the first one share no byte with it. -/
theorem Spaced.behind (h : Spaced lo hi (c :: l)) (hx : x ∈ c.bytes) : x ∉ bytes l := by
  intro hxl
  have hlo := (h.2.2.2.mem_bytes hxl).1
  exact absurd hx.2 (by omega)

/-- A block of `n` bytes at `a` was free, and what is left of the free bytes lies apart from it. -/
def Takes (lo hi n : Nat) (l : List Chunk) (a : Nat) (l' : List Chunk) : Prop :=
  Spaced lo hi l' ∧ bytes l = (⟨a, n⟩ : Chunk).bytes ∪ bytes l' ∧
    Disjoint (⟨a, n⟩ : Chunk).bytes (bytes l') ∧ total l = n + total l'

/-- A later chunk is taken from. -/
theorem Takes.cons (h : Spaced lo hi (c :: l)) (htakes : Takes (c.stop + 1) hi n l a l') :
    Takes lo hi n (c :: l) a (c :: l') := by
  obtain ⟨hspaced, hbytes, hdisj, htotal⟩ := htakes
  refine ⟨⟨h.1, h.2.1, h.2.2.1, hspaced⟩, ?_, ?_, ?_⟩
  · rw [bytes_cons, bytes_cons, hbytes, Set.union_left_comm]
  · rw [bytes_cons, Set.disjoint_union_right]
    refine ⟨?_, hdisj⟩
    rw [Set.disjoint_right]
    intro x hx hxa
    exact h.behind hx (hbytes ▸ Or.inl hxa)
  · rw [total_cons, total_cons, htotal]
    omega

/-- The whole first chunk is taken. -/
theorem Takes.whole (h : Spaced lo hi (c :: l)) : Takes lo hi c.size (c :: l) c.addr l := by
  refine ⟨h.2.2.2.weaken ?_, bytes_cons, ?_, total_cons⟩
  · have hle := h.1
    unfold Chunk.stop
    omega
  · rw [Set.disjoint_left]
    exact fun x hx => h.behind hx

/-- A part of the first chunk is taken, and `r` is left of it. -/
theorem Takes.part {r : Chunk} (h : Spaced lo hi (c :: l)) (hr : 0 < r.size) (hlo : c.addr ≤ r.addr)
    (hstop : r.stop ≤ c.stop) (hsize : c.size = n + r.size)
    (hparts : c.bytes = (⟨a, n⟩ : Chunk).bytes ∪ r.bytes)
    (hapart : Disjoint (⟨a, n⟩ : Chunk).bytes r.bytes) : Takes lo hi n (c :: l) a (r :: l) := by
  have hle := h.1
  have hhi := h.2.2.1
  have hrest := h.2.2.2
  refine ⟨⟨hle.trans hlo, hr, hstop.trans hhi, hrest.weaken (Nat.succ_le_succ hstop)⟩, ?_, ?_, ?_⟩
  · rw [bytes_cons, bytes_cons, hparts, Set.union_assoc]
  · rw [bytes_cons, Set.disjoint_union_right]
    refine ⟨hapart, ?_⟩
    rw [Set.disjoint_left]
    intro x hx
    exact h.behind (hparts ▸ Or.inl hx)
  · rw [total_cons, total_cons, hsize, Nat.add_assoc]

/-- A taken block was free, and what is left of the free bytes lies apart from it. -/
theorem Spaced.take (h : Spaced lo hi l) (htake : take n l = some (a, l')) :
    Spaced lo hi l' ∧ bytes l = (⟨a, n⟩ : Chunk).bytes ∪ bytes l' ∧
      Disjoint (⟨a, n⟩ : Chunk).bytes (bytes l') ∧ total l = n + total l' := by
  change Takes lo hi n l a l'
  induction l generalizing lo l' with
  | nil => cases htake
  | cons c l ih =>
    rw [take_cons] at htake
    split at htake
    · obtain ⟨⟨a', m⟩, hm, heq⟩ := Option.map_eq_some_iff.mp htake
      cases heq
      exact .cons h (ih h.2.2.2 hm)
    · next hlarge =>
      split at htake
      · next hexact =>
        cases htake
        subst hexact
        exact .whole h
      · next hmore =>
        cases htake
        have hless : n < c.size := by omega
        refine .part h (Nat.sub_pos_of_lt hless) (Nat.le_add_right _ _) ?_ ?_ ?_ ?_
        · unfold Chunk.stop
          dsimp only
          omega
        · dsimp only
          omega
        · ext x
          simp only [Set.mem_union, Chunk.mem_bytes, Chunk.stop]
          omega
        · rw [Set.disjoint_left]
          intro x hx hx'
          rw [Chunk.mem_bytes, Chunk.stop] at hx hx'
          dsimp only at hx hx'
          omega

theorem Aligned.take (hl : Aligned k l) (hk : k ∣ n) (htake : take n l = some (a, l')) :
    k ∣ a ∧ Aligned k l' := by
  induction l generalizing l' with
  | nil => cases htake
  | cons c l ih =>
    rw [aligned_cons] at hl
    rw [take_cons] at htake
    split at htake
    · obtain ⟨⟨a', m⟩, hm, heq⟩ := Option.map_eq_some_iff.mp htake
      cases heq
      obtain ⟨ha, hm⟩ := ih hl.2 hm
      exact ⟨ha, aligned_cons.mpr ⟨hl.1, hm⟩⟩
    · split at htake
      · cases htake
        exact ⟨hl.1.1, hl.2⟩
      · cases htake
        exact ⟨hl.1.1, aligned_cons.mpr ⟨⟨Nat.dvd_add hl.1.1 hk, Nat.dvd_sub hl.1.2 hk⟩, hl.2⟩⟩

end Take

section TakeEnd

theorem takeEnd_cons : takeEnd n (c :: l) =
    if c.size < n then (takeEnd n l).map fun (a, l') => (a, c :: l')
    else if c.size = n then some (c.addr, l)
    else some (c.addr + (c.size - n), ⟨c.addr, c.size - n⟩ :: l) := rfl

/-- A block taken from an end was free, and what is left of the free bytes lies apart from it. -/
theorem Spaced.takeEnd (h : Spaced lo hi l) (htake : takeEnd n l = some (a, l')) :
    Spaced lo hi l' ∧ bytes l = (⟨a, n⟩ : Chunk).bytes ∪ bytes l' ∧
      Disjoint (⟨a, n⟩ : Chunk).bytes (bytes l') ∧ total l = n + total l' := by
  change Takes lo hi n l a l'
  induction l generalizing lo l' with
  | nil => cases htake
  | cons c l ih =>
    rw [takeEnd_cons] at htake
    split at htake
    · obtain ⟨⟨a', m⟩, hm, heq⟩ := Option.map_eq_some_iff.mp htake
      cases heq
      exact .cons h (ih h.2.2.2 hm)
    · next hlarge =>
      split at htake
      · next hexact =>
        cases htake
        subst hexact
        exact .whole h
      · next hmore =>
        cases htake
        have hless : n < c.size := by omega
        refine .part h (Nat.sub_pos_of_lt hless) (le_refl _) ?_ ?_ ?_ ?_
        · unfold Chunk.stop
          dsimp only
          omega
        · dsimp only
          omega
        · ext x
          simp only [Set.mem_union, Chunk.mem_bytes, Chunk.stop]
          omega
        · rw [Set.disjoint_left]
          intro x hx hx'
          rw [Chunk.mem_bytes, Chunk.stop] at hx hx'
          dsimp only at hx hx'
          omega

theorem Aligned.takeEnd (hl : Aligned k l) (hk : k ∣ n) (htake : takeEnd n l = some (a, l')) :
    k ∣ a ∧ Aligned k l' := by
  induction l generalizing l' with
  | nil => cases htake
  | cons c l ih =>
    rw [aligned_cons] at hl
    rw [takeEnd_cons] at htake
    split at htake
    · obtain ⟨⟨a', m⟩, hm, heq⟩ := Option.map_eq_some_iff.mp htake
      cases heq
      obtain ⟨ha, hm⟩ := ih hl.2 hm
      exact ⟨ha, aligned_cons.mpr ⟨hl.1, hm⟩⟩
    · have hrest : k ∣ c.size - n := Nat.dvd_sub hl.1.2 hk
      split at htake
      · cases htake
        exact ⟨hl.1.1, hl.2⟩
      · cases htake
        exact ⟨Nat.dvd_add hl.1.1 hrest, aligned_cons.mpr ⟨⟨hl.1.1, hrest⟩, hl.2⟩⟩

/-- A block is taken from the end of the chunk where the search stops. -/
theorem takeEnd_eq_split : takeEnd n l = match l.dropWhile (·.size < n) with
    | [] => none
    | c :: post => some (c.addr + (c.size - n), l.takeWhile (·.size < n) ++
        if c.size = n then post else ⟨c.addr, c.size - n⟩ :: post) := by
  induction l with
  | nil => rfl
  | cons c l ih =>
    rw [takeEnd_cons]
    by_cases hsmall : c.size < n
    · rw [if_pos hsmall, List.dropWhile_cons_of_pos (by simpa using hsmall),
        List.takeWhile_cons_of_pos (by simpa using hsmall), ih]
      cases l.dropWhile (·.size < n) with
      | nil => rfl
      | cons d post => rfl
    · rw [if_neg hsmall, List.dropWhile_cons_of_neg (by simpa using hsmall),
        List.takeWhile_cons_of_neg (by simpa using hsmall)]
      by_cases hexact : c.size = n
      · simp [hexact]
      · simp [hexact]

end TakeEnd

/-! ### Where a search stops -/

section Split

/-- A block is taken where the search for a large enough chunk stops. -/
theorem take_eq_split : take n l = match l.dropWhile (·.size < n) with
    | [] => none
    | c :: post => some (c.addr, l.takeWhile (·.size < n) ++
        if c.size = n then post else ⟨c.addr + n, c.size - n⟩ :: post) := by
  induction l with
  | nil => rfl
  | cons c l ih =>
    rw [take_cons]
    by_cases hsmall : c.size < n
    · rw [if_pos hsmall, List.dropWhile_cons_of_pos (by simpa using hsmall),
        List.takeWhile_cons_of_pos (by simpa using hsmall), ih]
      cases l.dropWhile (·.size < n) with
      | nil => rfl
      | cons d post => rfl
    · rw [if_neg hsmall, List.dropWhile_cons_of_neg (by simpa using hsmall),
        List.takeWhile_cons_of_neg (by simpa using hsmall)]
      by_cases hexact : c.size = n
      · simp [hexact]
      · simp [hexact]

/-- Add a list behind another one; its first chunk may touch the last one there. -/
def join : List Chunk → List Chunk → List Chunk
  | [], m => m
  | [c], m => put c m
  | c :: d :: pre, m => c :: join (d :: pre) m

theorem join_snoc (pre m : List Chunk) (c : Chunk) : join (pre ++ [c]) m = pre ++ put c m := by
  induction pre with
  | nil => rfl
  | cons d pre ih =>
    cases pre with
    | nil => rfl
    | cons e pre => exact congrArg (d :: ·) ih

private theorem join_head (pre m : List Chunk) (c : Chunk) :
    ∃ n rest, join (c :: pre) m = ⟨c.addr, n⟩ :: rest := by
  cases pre with
  | nil =>
    cases m with
    | nil => exact ⟨c.size, [], rfl⟩
    | cons d m =>
      rw [join, put_cons]
      split
      · exact ⟨_, _, rfl⟩
      · exact ⟨_, _, rfl⟩
  | cons d pre => exact ⟨c.size, _, rfl⟩

/-- A block is given back where the search for its address stops. -/
theorem Spaced.give_eq_split (h : Spaced lo hi l) :
    FreeList.give b l = join (l.takeWhile (·.addr < b.addr))
      (FreeList.put b (l.dropWhile (·.addr < b.addr))) := by
  induction l generalizing lo with
  | nil => rfl
  | cons c l ih =>
    obtain ⟨-, -, -, hrest⟩ := h
    rw [FreeList.give]
    by_cases hlt : c.addr < b.addr
    · rw [if_pos hlt, List.dropWhile_cons_of_pos (by simpa using hlt),
        List.takeWhile_cons_of_pos (by simpa using hlt), ih hrest]
      cases hpre : l.takeWhile (·.addr < b.addr) with
      | nil => rfl
      | cons d pre =>
        -- `d` follows `c` in the list, so the two do not touch
        have hd : d ∈ l.takeWhile (·.addr < b.addr) := by
          rw [hpre]
          exact List.mem_cons_self
        have hgap := (hrest.mem (List.takeWhile_subset _ hd)).1
        obtain ⟨n, rest, hjoin⟩ := join_head pre (FreeList.put b (l.dropWhile (·.addr < b.addr))) d
        rw [join, hjoin, put_cons, if_neg]
        dsimp only
        omega
    · rw [if_neg hlt, List.dropWhile_cons_of_neg (by simpa using hlt),
        List.takeWhile_cons_of_neg (by simpa using hlt)]
      rfl

end Split

/-! ### Lists with the same bytes -/

section Unique

private theorem Spaced.stop_notMem (h : Spaced lo hi (c :: l)) : c.stop ∉ bytes (c :: l) := by
  rw [bytes_cons]
  intro hx
  rcases hx with hx | hx
  · exact absurd hx.2 (Nat.lt_irrefl _)
  · have hle := (h.2.2.2.mem_bytes hx).1
    omega

private theorem Spaced.head_mem (h : Spaced lo hi (c :: l)) : c.addr ∈ bytes (c :: l) :=
  ⟨c, List.mem_cons_self, le_refl _, Nat.lt_add_of_pos_right h.2.1⟩

private theorem Spaced.head_le (h : Spaced lo hi (c :: l)) (hx : x ∈ bytes (c :: l)) :
    c.addr ≤ x := by
  have hweak : Spaced c.addr hi (c :: l) := ⟨le_refl _, h.2⟩
  exact (hweak.mem_bytes hx).1

private theorem Spaced.head_stop_le (h : Spaced lo hi (c :: l)) (haddr : c.addr = d.addr)
    (hbytes : bytes (c :: l) = bytes (d :: l')) : d.stop ≤ c.stop := by
  by_contra hlt
  have hle : c.addr ≤ c.stop := Nat.le_add_right _ _
  refine h.stop_notMem ?_
  rw [hbytes]
  exact ⟨d, List.mem_cons_self, by omega, by omega⟩

private theorem Spaced.bytes_tail (h : Spaced lo hi (c :: l)) :
    bytes l = {y ∈ bytes (c :: l) | c.stop ≤ y} := by
  ext y
  rw [bytes_cons]
  constructor
  · intro hy
    have hle := (h.2.2.2.mem_bytes hy).1
    exact ⟨Or.inr hy, by omega⟩
  · intro hy
    obtain ⟨hy | hy, hle⟩ := hy
    · exact absurd hy.2 (Nat.not_lt.mpr hle)
    · exact hy

/-- The free bytes determine the list. -/
theorem Spaced.eq_of_bytes {lo₁ hi₁ : Nat} (h : Spaced lo hi l) (h' : Spaced lo₁ hi₁ l')
    (hbytes : bytes l = bytes l') : l = l' := by
  induction l generalizing lo lo₁ l' with
  | nil =>
    cases l' with
    | nil => rfl
    | cons d l' =>
      have hd := h'.head_mem
      rw [← hbytes, bytes_nil] at hd
      exact absurd hd (Set.notMem_empty _)
  | cons c l ih =>
    cases l' with
    | nil =>
      have hc := h.head_mem
      rw [hbytes, bytes_nil] at hc
      exact absurd hc (Set.notMem_empty _)
    | cons d l' =>
      have haddr : c.addr = d.addr := by
        have hc : c.addr ∈ bytes (d :: l') := hbytes ▸ h.head_mem
        have hd : d.addr ∈ bytes (c :: l) := hbytes ▸ h'.head_mem
        exact le_antisymm (h.head_le hd) (h'.head_le hc)
      have hstop : c.stop = d.stop :=
        le_antisymm (h'.head_stop_le haddr.symm hbytes.symm) (h.head_stop_le haddr hbytes)
      have hcd : c = d := by
        obtain ⟨ca, cn⟩ := c
        obtain ⟨da, dn⟩ := d
        unfold Chunk.stop at hstop
        dsimp only at haddr hstop
        obtain rfl : ca = da := haddr
        obtain rfl : cn = dn := by omega
        rfl
      subst hcd
      have htail : bytes l = bytes l' := by rw [h.bytes_tail, h'.bytes_tail, hbytes]
      rw [ih h.2.2.2 h'.2.2.2 htail]

end Unique

end Hero.FreeList
