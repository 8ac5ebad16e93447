import Hero.Apps.PhysMem
import Mathlib.Tactic.IntervalCases

/-!
# Block transfers of physical memory

The bytes that `set`, `copy_to` and `copy_from` move.  A transfer goes byte by byte up to an aligned
pointer, then in 64-bit words, then byte by byte again.  `copy_to` takes the bytes of a word as the
arguments of one call, which C++ evaluates in any order.
-/

namespace Hero.Apps

abbrev U8 := BitVec 8

/-! ### Words and their bytes -/

/-- The byte of a word in memory; the hosts are little-endian. -/
def wordByte (x : BitVec 64) (i : Nat) : U8 := x.extractLsb' (8 * i) 8

/-- `u64_from_u8` -/
def u64FromU8 (byte0 byte1 byte2 byte3 byte4 byte5 byte6 byte7 : U8) : BitVec 64 :=
  byte0.setWidth 64 <<< 0 ||| byte1.setWidth 64 <<< 8 ||| byte2.setWidth 64 <<< 16 |||
    byte3.setWidth 64 <<< 24 ||| byte4.setWidth 64 <<< 32 ||| byte5.setWidth 64 <<< 40 |||
    byte6.setWidth 64 <<< 48 ||| byte7.setWidth 64 <<< 56

theorem wordByte_or (x y : BitVec 64) (i : Nat) :
    wordByte (x ||| y) i = wordByte x i ||| wordByte y i := BitVec.extractLsb'_or

/-- A byte shifted into a word is that byte of it. -/
theorem wordByte_shiftLeft (x : U8) (k : Nat) {i : Nat} (hi : i < 8) :
    wordByte (x.setWidth 64 <<< (8 * k)) i = if i = k then x else 0#8 := by
  apply BitVec.eq_of_getLsbD_eq
  intro j hj
  have hword : 8 * i + j < 64 := by omega
  rw [wordByte, BitVec.getLsbD_extractLsb', BitVec.getLsbD_shiftLeft, BitVec.getLsbD_setWidth,
    decide_eq_true hj, decide_eq_true hword, Bool.true_and, Bool.true_and]
  by_cases hik : i = k
  · subst hik
    have hsub : 8 * i + j - 8 * i = j := by omega
    have hge : ¬8 * i + j < 8 * i := by omega
    have hlt : j < 64 := by omega
    simp [hsub, hge, hlt]
  · rw [if_neg hik, BitVec.getLsbD_zero]
    by_cases hlt : 8 * i + j < 8 * k
    · simp [hlt]
    · rw [BitVec.getLsbD_of_ge x _ (by omega)]
      simp

theorem wordByte_u64FromU8 (b : Nat → U8) {i : Nat} (hi : i < 8) :
    wordByte (u64FromU8 (b 0) (b 1) (b 2) (b 3) (b 4) (b 5) (b 6) (b 7)) i = b i := by
  simp only [u64FromU8, wordByte_or]
  rw [wordByte_shiftLeft (b 0) 0 hi, wordByte_shiftLeft (b 1) 1 hi, wordByte_shiftLeft (b 2) 2 hi,
    wordByte_shiftLeft (b 3) 3 hi, wordByte_shiftLeft (b 4) 4 hi, wordByte_shiftLeft (b 5) 5 hi,
    wordByte_shiftLeft (b 6) 6 hi, wordByte_shiftLeft (b 7) 7 hi]
  interval_cases i <;> simp

/-- The word that a load of eight bytes gives. -/
def loadWord (b : Nat → U8) : BitVec 64 := u64FromU8 (b 0) (b 1) (b 2) (b 3) (b 4) (b 5) (b 6) (b 7)

/-- The eight bytes that `copy_from` appends for a word -/
def pushes (val : BitVec 64) : List U8 :=
  (List.range 8).map fun i => (val >>> (8 * i) &&& 0xFF#64).setWidth 8

theorem pushes_eq (val : BitVec 64) : pushes val = (List.range 8).map (wordByte val) := by
  apply List.map_congr_left
  intro i _
  apply BitVec.eq_of_getLsbD_eq
  intro j hj
  have hmask : (0xFF#64 : BitVec 64) = (BitVec.allOnes 8).setWidth 64 := rfl
  have hlt : j < 64 := by omega
  rw [hmask, wordByte, BitVec.getLsbD_setWidth, BitVec.getLsbD_and, BitVec.getLsbD_setWidth,
    BitVec.getLsbD_allOnes, BitVec.getLsbD_ushiftRight, BitVec.getLsbD_extractLsb']
  simp [hj, hlt]

/-! ### Stores -/

section Stores

variable {w : Nat}

/-- Bytes for the addresses from a pointer on. -/
def storesOf (f : Nat → U8) (ptr : BitVec w) (n : Nat) : List (BitVec w × U8) :=
  (List.range n).map fun i => (ptr + BitVec.ofNat w i, f i)

theorem storesOf_add (f : Nat → U8) (ptr : BitVec w) (k n : Nat) : storesOf f ptr (k + n) =
    storesOf f ptr k ++ storesOf (fun i => f (k + i)) (ptr + BitVec.ofNat w k) n := by
  simp only [storesOf, List.range_add, List.map_append, List.map_map]
  congr 1
  apply List.map_congr_left
  intro i _
  simp only [Function.comp_apply, BitVec.ofNat_add, BitVec.add_assoc]

theorem storesOf_succ (f : Nat → U8) (ptr : BitVec w) (n : Nat) : storesOf f ptr (n + 1) =
    (ptr, f 0) :: storesOf (fun i => f (i + 1)) (ptr + 1) n := by
  have hone : storesOf f ptr 1 = [(ptr, f 0)] := by simp [storesOf]
  have hshift : (fun i => f (1 + i)) = fun i => f (i + 1) := by
    funext i
    rw [Nat.add_comm]
  rw [Nat.add_comm, storesOf_add, hone, hshift]
  rfl

theorem storesOf_congr {f g : Nat → U8} {n : Nat} (h : ∀ i < n, f i = g i) (ptr : BitVec w) :
    storesOf f ptr n = storesOf g ptr n := by
  apply List.map_congr_left
  intro i hi
  rw [h i (List.mem_range.mp hi)]

/-- Where a loop leaves the pointer, the source and the number of bytes, and what it stores. -/
structure Stored (w : Nat) where
  stores : List (BitVec w × U8)
  ptr : BitVec w
  src : Nat
  nBytes : Nat

/-- A 64-bit store -/
def storeWord (ptr : BitVec w) (x : BitVec 64) : List (BitVec w × U8) := storesOf (wordByte x) ptr 8

variable (byteAt : Nat → U8) (wordAt : Nat → BitVec 64)

/-- Byte stores until the pointer is 64-bit aligned. -/
def alignStores (ptr : BitVec w) (src : Nat) : Nat → Stored w
  | 0 => ⟨[], ptr, src, 0⟩
  | n + 1 =>
    if ptr.toNat % 8 ≠ 0 then
      let rest := alignStores (ptr + 1) (src + 1) n
      { rest with stores := (ptr, byteAt src) :: rest.stores }
    else ⟨[], ptr, src, n + 1⟩

/-- As many 64-bit stores as possible. -/
def wordStores (ptr : BitVec w) (src n : Nat) : Stored w :=
  if 7 < n then
    let rest := wordStores (ptr + 8) (src + 8) (n - 8)
    { rest with stores := storeWord ptr (wordAt src) ++ rest.stores }
  else ⟨[], ptr, src, n⟩

/-- The remainder with byte stores. -/
def byteStores (ptr : BitVec w) (src : Nat) : Nat → List (BitVec w × U8)
  | 0 => []
  | n + 1 => (ptr, byteAt src) :: byteStores (ptr + 1) (src + 1) n

/-- The three loops of `set` and `copy_to`. -/
def blockStores (ptr : BitVec w) (n : Nat) : List (BitVec w × U8) :=
  let aligned := alignStores byteAt ptr 0 n
  let words := wordStores wordAt aligned.ptr aligned.src aligned.nBytes
  aligned.stores ++ words.stores ++ byteStores byteAt words.ptr words.src words.nBytes

/-- How many bytes there are before the aligned ones. -/
def headLength (ptr : BitVec w) (n : Nat) : Nat := (alignLoop ptr n).bytes.length

/-- The byte that the loops store at an offset. -/
def storedAt (head n i : Nat) : U8 :=
  if head ≤ i ∧ head + 8 * ((i - head) / 8) + 8 ≤ n then
    wordByte (wordAt (head + 8 * ((i - head) / 8))) ((i - head) % 8)
  else byteAt i

theorem headLength_le (ptr : BitVec w) (n : Nat) : headLength ptr n ≤ n := by
  induction n generalizing ptr with
  | zero => exact Nat.le_refl 0
  | succ n ih =>
    rw [headLength, alignLoop]
    split
    · exact Nat.succ_le_succ (ih (ptr + 1))
    · exact Nat.zero_le _

theorem alignStores_eq (ptr : BitVec w) (src n : Nat) : alignStores byteAt ptr src n =
    ⟨storesOf (fun i => byteAt (src + i)) ptr (headLength ptr n),
      ptr + BitVec.ofNat w (headLength ptr n), src + headLength ptr n, n - headLength ptr n⟩ := by
  induction n generalizing ptr src with
  | zero => simp [alignStores, headLength, alignLoop, storesOf]
  | succ n ih =>
    by_cases hptr : ptr.toNat % 8 ≠ 0
    · have hhead : headLength ptr (n + 1) = headLength (ptr + 1) n + 1 := by
        rw [headLength, alignLoop, if_pos hptr]
        rfl
      have hshift : (fun i => byteAt (src + 1 + i)) = fun i => byteAt (src + (i + 1)) := by
        funext i
        rw [Nat.add_assoc, Nat.add_comm 1 i]
      rw [alignStores, if_pos hptr, ih, hhead, storesOf_succ, hshift, BitVec.ofNat_add]
      simp only [Stored.mk.injEq]
      refine ⟨rfl, ?_, by omega, by omega⟩
      rw [BitVec.add_assoc, BitVec.add_comm 1]
      rfl
    · have hhead : headLength ptr (n + 1) = 0 := by
        rw [headLength, alignLoop, if_neg hptr]
        rfl
      rw [alignStores, if_neg hptr, hhead]
      simp [storesOf]

theorem byteStores_eq (ptr : BitVec w) (src n : Nat) :
    byteStores byteAt ptr src n = storesOf (fun i => byteAt (src + i)) ptr n := by
  induction n generalizing ptr src with
  | zero => rfl
  | succ n ih =>
    have hshift : (fun i => byteAt (src + 1 + i)) = fun i => byteAt (src + (i + 1)) := by
      funext i
      rw [Nat.add_assoc, Nat.add_comm 1 i]
    rw [byteStores, ih, storesOf_succ, hshift]
    rfl

theorem wordStores_eq (ptr : BitVec w) (src n : Nat) : wordStores wordAt ptr src n =
    ⟨storesOf (fun i => wordByte (wordAt (src + 8 * (i / 8))) (i % 8)) ptr (8 * (n / 8)),
      ptr + BitVec.ofNat w (8 * (n / 8)), src + 8 * (n / 8), n % 8⟩ := by
  fun_induction wordStores wordAt ptr src n with
  | case1 ptr src n hlt rest ih =>
    have hn : 8 * (n / 8) = 8 + 8 * ((n - 8) / 8) := by omega
    have hmod : (n - 8) % 8 = n % 8 := by omega
    have hfirst : storeWord ptr (wordAt src) =
        storesOf (fun i => wordByte (wordAt (src + 8 * (i / 8))) (i % 8)) ptr 8 := by
      apply storesOf_congr
      intro i hi
      have hdiv : src + 8 * (i / 8) = src := by omega
      rw [hdiv, Nat.mod_eq_of_lt hi]
    have hshift : (fun i => wordByte (wordAt (src + 8 + 8 * (i / 8))) (i % 8)) =
        fun i => wordByte (wordAt (src + 8 * ((8 + i) / 8))) ((8 + i) % 8) := by
      funext i
      have hdiv : src + 8 + 8 * (i / 8) = src + 8 * ((8 + i) / 8) := by omega
      rw [hdiv, Nat.add_mod_left]
    have hrest : rest = _ := ih
    rw [hrest, hn, hmod, storesOf_add, hfirst, hshift, BitVec.ofNat_add, Nat.add_assoc]
    simp only [Stored.mk.injEq, and_true]
    rw [BitVec.add_assoc]
    exact ⟨rfl, rfl⟩
  | case2 ptr src n hge =>
    have hdiv : 8 * (n / 8) = 0 := by omega
    have hmod : n % 8 = n := by omega
    rw [hdiv, hmod]
    simp [storesOf]

/-- The loops store each byte once, in order. -/
theorem blockStores_eq (ptr : BitVec w) (n : Nat) : blockStores byteAt wordAt ptr n =
    storesOf (storedAt byteAt wordAt (headLength ptr n) n) ptr n := by
  have hle := headLength_le ptr n
  generalize hk : headLength ptr n = k at hle
  obtain ⟨q, hq⟩ : ∃ q, (n - k) / 8 = q := ⟨_, rfl⟩
  have hn : n = k + (8 * q + (n - k) % 8) := by omega
  have hsplit : storesOf (storedAt byteAt wordAt k n) ptr n =
      storesOf (storedAt byteAt wordAt k n) ptr k ++
      (storesOf (fun i => storedAt byteAt wordAt k n (k + i)) (ptr + BitVec.ofNat w k) (8 * q) ++
      storesOf (fun i => storedAt byteAt wordAt k n (k + (8 * q + i)))
        (ptr + BitVec.ofNat w k + BitVec.ofNat w (8 * q)) ((n - k) % 8)) := by
    rw [← storesOf_add (fun i => storedAt byteAt wordAt k n (k + i)), ← storesOf_add, ← hn]
  have hhead : storesOf (fun i => byteAt (0 + i)) ptr k =
      storesOf (storedAt byteAt wordAt k n) ptr k := by
    apply storesOf_congr
    intro i hi
    rw [storedAt, if_neg (by omega), Nat.zero_add]
  have hwords : storesOf (fun i => wordByte (wordAt (0 + k + 8 * (i / 8))) (i % 8))
        (ptr + BitVec.ofNat w k) (8 * q) =
      storesOf (fun i => storedAt byteAt wordAt k n (k + i)) (ptr + BitVec.ofNat w k) (8 * q) := by
    apply storesOf_congr
    intro i hi
    rw [storedAt, Nat.add_sub_cancel_left, Nat.zero_add, if_pos (by omega)]
  have htail : storesOf (fun i => byteAt (0 + k + 8 * q + i))
        (ptr + BitVec.ofNat w k + BitVec.ofNat w (8 * q)) ((n - k) % 8) =
      storesOf (fun i => storedAt byteAt wordAt k n (k + (8 * q + i)))
        (ptr + BitVec.ofNat w k + BitVec.ofNat w (8 * q)) ((n - k) % 8) := by
    apply storesOf_congr
    intro i hi
    have hsum : 0 + k + 8 * q + i = k + (8 * q + i) := by omega
    rw [storedAt, if_neg (by omega), hsum]
  rw [blockStores, alignStores_eq, hk]
  simp only [wordStores_eq, byteStores_eq, hq]
  rw [hhead, hwords, htail, hsplit, List.append_assoc]

end Stores

/-! ### Loads -/

section Loads

variable {w : Nat}

/-- Where a loop leaves the pointer and the number of bytes, and what it appended. -/
structure Loaded (w : Nat) where
  dst : List U8
  ptr : BitVec w
  nBytes : Nat

variable (rd : BitVec w → Option U8)

/-- Byte loads, as for the remainder. -/
def byteLoads (ptr : BitVec w) : Nat → Option (List U8)
  | 0 => some []
  | n + 1 => do
    let byte ← rd ptr
    let rest ← byteLoads (ptr + 1) n
    return byte :: rest

/-- A 64-bit load -/
def fetchWord (ptr : BitVec w) : Option (BitVec 64) := do
  let bytes ← byteLoads rd ptr 8
  return loadWord fun i => bytes.getD i 0#8

/-- Byte loads until the pointer is 64-bit aligned. -/
def alignLoads (ptr : BitVec w) : Nat → Option (Loaded w)
  | 0 => some ⟨[], ptr, 0⟩
  | n + 1 =>
    if ptr.toNat % 8 ≠ 0 then do
      let byte ← rd ptr
      let rest ← alignLoads (ptr + 1) n
      return { rest with dst := byte :: rest.dst }
    else some ⟨[], ptr, n + 1⟩

/-- As many 64-bit loads as possible. -/
def wordLoads (ptr : BitVec w) (n : Nat) : Option (Loaded w) :=
  if 7 < n then do
    let val ← fetchWord rd ptr
    let rest ← wordLoads (ptr + 8) (n - 8)
    return { rest with dst := pushes val ++ rest.dst }
  else some ⟨[], ptr, n⟩

/-- The three loops of `copy_from`. -/
def blockLoads (ptr : BitVec w) (n : Nat) : Option (List U8) := do
  let aligned ← alignLoads rd ptr n
  let words ← wordLoads rd aligned.ptr aligned.nBytes
  let rest ← byteLoads rd words.ptr words.nBytes
  return aligned.dst ++ words.dst ++ rest

variable {rd} {f : Nat → U8}

/-- The bytes from a pointer on can be read. -/
def Readable (rd : BitVec w → Option U8) (ptr : BitVec w) (f : Nat → U8) (n : Nat) : Prop :=
  ∀ i < n, rd (ptr + BitVec.ofNat w i) = some (f i)

theorem Readable.drop {ptr : BitVec w} {k n : Nat} (h : Readable rd ptr f (k + n)) :
    Readable rd (ptr + BitVec.ofNat w k) (fun i => f (k + i)) n := by
  intro i hi
  rw [BitVec.add_assoc, ← BitVec.ofNat_add]
  exact h (k + i) (by omega)

theorem Readable.head {ptr : BitVec w} {n : Nat} (h : Readable rd ptr f (n + 1)) :
    rd ptr = some (f 0) := by
  have hzero := h 0 (Nat.succ_pos n)
  rwa [BitVec.add_zero] at hzero

theorem Readable.tail {ptr : BitVec w} {n : Nat} (h : Readable rd ptr f (n + 1)) :
    Readable rd (ptr + 1) (fun i => f (i + 1)) n := by
  rw [Nat.add_comm] at h
  intro i hi
  have hi' := h.drop i hi
  simp only [Nat.add_comm 1 i] at hi'
  exact hi'

theorem byteLoads_eq {ptr : BitVec w} {n : Nat} (h : Readable rd ptr f n) :
    byteLoads rd ptr n = some ((List.range n).map f) := by
  induction n generalizing ptr f with
  | zero => rfl
  | succ n ih =>
    rw [byteLoads, h.head, ih h.tail, List.range_succ_eq_map, List.map_cons, List.map_map]
    rfl

theorem fetchWord_eq {ptr : BitVec w} (h : Readable rd ptr f 8) :
    fetchWord rd ptr = some (loadWord f) := by
  rw [fetchWord, byteLoads_eq h]
  rfl

theorem pushes_loadWord (f : Nat → U8) : pushes (loadWord f) = (List.range 8).map f := by
  rw [pushes_eq]
  apply List.map_congr_left
  intro i hi
  exact wordByte_u64FromU8 f (List.mem_range.mp hi)

theorem alignLoads_eq {ptr : BitVec w} {n : Nat} (h : Readable rd ptr f n) : ∃ k ≤ n,
    alignLoads rd ptr n = some ⟨(List.range k).map f, ptr + BitVec.ofNat w k, n - k⟩ := by
  induction n generalizing ptr f with
  | zero =>
    refine ⟨0, Nat.le_refl 0, ?_⟩
    simp [alignLoads]
  | succ n ih =>
    rw [alignLoads]
    split
    · obtain ⟨k, hk, heq⟩ := ih h.tail
      refine ⟨k + 1, Nat.succ_le_succ hk, ?_⟩
      have hptr : ptr + 1 + BitVec.ofNat w k = ptr + BitVec.ofNat w (k + 1) := by
        rw [BitVec.ofNat_add, BitVec.add_assoc, BitVec.add_comm 1]
        rfl
      rw [h.head, heq, List.range_succ_eq_map, List.map_cons, List.map_map, ← hptr,
        Nat.add_sub_add_right]
      rfl
    · refine ⟨0, Nat.zero_le _, ?_⟩
      simp

theorem wordLoads_eq {ptr : BitVec w} {n : Nat} (h : Readable rd ptr f n) : ∃ k ≤ n,
    wordLoads rd ptr n = some ⟨(List.range k).map f, ptr + BitVec.ofNat w k, n - k⟩ := by
  fun_induction wordLoads rd ptr n generalizing f with
  | case1 ptr n hlt ih =>
    have hn : n = 8 + (n - 8) := by omega
    rw [hn] at h
    obtain ⟨k, hk, heq⟩ := ih h.drop
    refine ⟨8 + k, by omega, ?_⟩
    have hfirst : Readable rd ptr f 8 := fun i hi => h i (by omega)
    have hptr : ptr + 8 + BitVec.ofNat w k = ptr + BitVec.ofNat w (8 + k) := by
      rw [BitVec.ofNat_add, BitVec.add_assoc]
      rfl
    rw [fetchWord_eq hfirst, heq, List.range_add, List.map_append, List.map_map, ← hptr, Nat.sub_add_eq]
    simp only [Option.bind_eq_bind, Option.bind_some, pushes_loadWord]
    rfl
  | case2 ptr n hge =>
    refine ⟨0, Nat.zero_le n, ?_⟩
    simp

/-- The loops load each byte once, in order. -/
theorem blockLoads_eq {ptr : BitVec w} {n : Nat} (h : Readable rd ptr f n) :
    blockLoads rd ptr n = some ((List.range n).map f) := by
  obtain ⟨k, hk, halign⟩ := alignLoads_eq h
  have hn : n = k + (n - k) := by omega
  rw [hn] at h
  obtain ⟨q, hq, hwords⟩ := wordLoads_eq h.drop
  have hrest : n - k = q + (n - k - q) := by omega
  have hmid := h.drop
  rw [hrest] at hmid
  have htail := byteLoads_eq hmid.drop
  have hlist : (List.range n).map f = (List.range k).map f ++
      (List.range q).map (fun i => f (k + i)) ++
      (List.range (n - k - q)).map (fun i => f (k + (q + i))) := by
    conv_lhs => rw [hn, hrest]
    rw [List.range_add, List.range_add]
    simp [Function.comp_def]
  rw [blockLoads, halign, hlist]
  simp only [Option.bind_eq_bind, Option.bind_some, hwords, htail]
  rfl

end Loads

/-! ### Physical bytes -/

namespace Os

variable {w : Nat} (os : Os w) (m : Mapping w)

/-- A byte load; it fails outside of the mapping. -/
def load (mem : Nat → U8) (va : BitVec w) : Option U8 := (os.physical m va).map mem

/-- Byte stores in order; they fail at the first one outside of the mapping. -/
def storeAll (mem : Nat → U8) : List (BitVec w × U8) → Option (Nat → U8)
  | [] => some mem
  | (va, byte) :: rest => do
    let a ← os.physical m va
    storeAll (Function.update mem a byte) rest

/-- Where in physical memory the stores go. -/
def trace (stores : List (BitVec w × U8)) : List (Option Nat × U8) :=
  stores.map fun s => (os.physical m s.1, s.2)

end Os

/-- The bytes of a physical range, in order. -/
def rangeOf (f : Nat → U8) (start n : Nat) : List (Option Nat × U8) :=
  (List.range n).map fun k => (some (start + k), f k)

/-- A memory with the bytes of a range replaced. -/
def patch (f : Nat → U8) (start n : Nat) (mem : Nat → U8) (a : Nat) : U8 :=
  if start ≤ a ∧ a < start + n then f (a - start) else mem a

theorem rangeOf_succ (f : Nat → U8) (start n : Nat) : rangeOf f start (n + 1) =
    (some start, f 0) :: rangeOf (fun k => f (k + 1)) (start + 1) n := by
  rw [rangeOf, List.range_succ_eq_map, List.map_cons, List.map_map]
  congr 1
  apply List.map_congr_left
  intro k _
  rw [Function.comp_apply, Nat.succ_eq_add_one, Nat.add_assoc, Nat.add_comm 1 k]

theorem patch_succ (f : Nat → U8) (start n : Nat) (mem : Nat → U8) :
    patch (fun k => f (k + 1)) (start + 1) n (Function.update mem start (f 0)) =
      patch f start (n + 1) mem := by
  funext a
  simp only [patch, Function.update_apply]
  by_cases ha : a = start
  · subst ha
    simp
  · rw [if_neg ha]
    by_cases hin : start ≤ a ∧ a < start + (n + 1)
    · have hsub : a - (start + 1) + 1 = a - start := by omega
      rw [if_pos hin, if_pos (by omega), hsub]
    · rw [if_neg hin, if_neg (by omega)]

/-- Stores to exactly a range replace its bytes. -/
theorem Os.storeAll_of_trace {w : Nat} {os : Os w} {m : Mapping w} {f : Nat → U8} {start n : Nat}
    {stores : List (BitVec w × U8)} (h : os.trace m stores = rangeOf f start n) (mem : Nat → U8) :
    os.storeAll m mem stores = some (patch f start n mem) := by
  induction stores generalizing f start n mem with
  | nil =>
    have hn : n = 0 := by
      have hlength := congrArg List.length h
      simpa [Os.trace, rangeOf] using hlength.symm
    subst hn
    rw [Os.storeAll, Option.some.injEq]
    funext a
    rw [patch, if_neg (by omega)]
  | cons s stores ih =>
    cases n with
    | zero => cases h
    | succ n =>
      rw [rangeOf_succ] at h
      obtain ⟨hs, hrest⟩ := List.cons.inj h
      obtain ⟨ha, hbyte⟩ := Prod.mk.inj hs
      have hstore := ih hrest (Function.update mem start (f 0))
      rw [patch_succ] at hstore
      rw [← hstore, Os.storeAll, ha, hbyte]
      rfl

/-! ### The transfers -/

/-- The order in which the arguments of a call are evaluated: the place of each of the eight. -/
structure ArgOrder where
  place : Nat → Nat
  perm : ((List.range 8).map place).Perm (List.range 8)

/-- `u64_from_u8(*src++, …)`: each argument takes the byte that the iterator has come to. -/
def argsWord (orders : Nat → ArgOrder) (src : Nat → U8) (i : Nat) : BitVec 64 :=
  let arg := fun j => src (i + (orders i).place j)
  u64FromU8 (arg 0) (arg 1) (arg 2) (arg 3) (arg 4) (arg 5) (arg 6) (arg 7)

namespace PhysMem

variable {w : Nat} (m : PhysMem w)

def storeRange (byteAt : Nat → U8) (wordAt : Nat → BitVec 64) (physAddr nBytes : BitVec w) :
    Except (Exn w) (List (BitVec w × U8)) := do
  m.validateAddrRange physAddr nBytes
  if m.mockOnly then return []
  let ptr ← m.relPtr physAddr
  return blockStores byteAt wordAt ptr nBytes.toNat

/-- The stores of `set` -/
def setStores (physAddr : BitVec w) (val : U8) (nBytes : BitVec w) :=
  m.storeRange (fun _ => val) (fun _ => u64FromU8 val val val val val val val val) physAddr nBytes

/-- The stores of `copy_to`; `orders` tells how the call for the word at an offset is evaluated. -/
def copyToStores (orders : Nat → ArgOrder) (physAddr : BitVec w) (src : Nat → U8)
    (nBytes : BitVec w) :=
  m.storeRange src (argsWord orders src) physAddr nBytes

/-- `copy_from`: what `dst` is afterwards, if all loads were in the mapping -/
def copyFromInto (os : Os w) (mem : Nat → U8) (physAddr : BitVec w) (dst : List U8)
    (nBytes : BitVec w) : Except (Exn w) (Option (List U8)) := do
  m.validateAddrRange physAddr nBytes
  if m.mockOnly then return some dst
  let ptr ← m.relPtr physAddr
  return (blockLoads (os.load m.mapping mem) ptr nBytes.toNat).map (dst ++ ·)

/-- What the block transfers are for. -/
structure Transfers (os : Os w) (orders : Nat → ArgOrder) (physAddr : BitVec w) (src : Nat → U8)
    (nBytes : BitVec w) : Prop where
  copyTo : ∀ stores, m.copyToStores orders physAddr src nBytes = .ok stores →
    os.trace m.mapping stores = rangeOf src physAddr.toNat nBytes.toNat
  set : ∀ val stores, m.setStores physAddr val nBytes = .ok stores →
    os.trace m.mapping stores = rangeOf (fun _ => val) physAddr.toNat nBytes.toNat
  roundTrip : ∀ mem stores, m.copyToStores orders physAddr src nBytes = .ok stores →
    ∃ mem', os.storeAll m.mapping mem stores = some mem' ∧
      m.copyFromInto os mem' physAddr [] nBytes = .ok (some ((List.range nBytes.toNat).map src))

/-- Every call for a word of the range leaves its bytes in their places. -/
def KeepsWords (orders : Nat → ArgOrder) (src : Nat → U8) (ptr : BitVec w) (n : Nat) : Prop :=
  ∀ t, headLength ptr n + 8 * t + 8 ≤ n → ∀ j < 8,
    src (headLength ptr n + 8 * t + (orders (headLength ptr n + 8 * t)).place j) =
      src (headLength ptr n + 8 * t + j)

variable {m} {os : Os w} {baseAddr size physAddr nBytes : BitVec w}

theorem storeRange_eq (hmock : m.mockOnly = false) (byteAt : Nat → U8) (wordAt : Nat → BitVec 64) :
    m.storeRange byteAt wordAt physAddr nBytes = if m.mapsAddrRange physAddr nBytes then
      .ok (blockStores byteAt wordAt (m.mapping.ptr + (physAddr &&& m.mapMask)) nBytes.toNat)
    else .error (.addrRangeNotMapped physAddr nBytes) := by
  simp only [storeRange, validateAddrRange, relPtr, hmock, Bool.false_eq_true, if_false]
  split <;> rfl

theorem copyFromInto_eq (hmock : m.mockOnly = false) (haccepted : m.mapsAddrRange physAddr nBytes = true)
    (mem : Nat → U8) (dst : List U8) : m.copyFromInto os mem physAddr dst nBytes =
      .ok ((blockLoads (os.load m.mapping mem) (m.mapping.ptr + (physAddr &&& m.mapMask))
        nBytes.toNat).map (dst ++ ·)) := by
  simp only [copyFromInto, validateAddrRange, relPtr, hmock, haccepted, Bool.false_eq_true, if_false,
    if_true]
  rfl

/-- The stores that an accepted range takes go where the accesses of the range go. -/
theorem storeRange_addresses (hmock : m.mockOnly = false) {byteAt : Nat → U8}
    {wordAt : Nat → BitVec 64} {stores : List (BitVec w × U8)}
    (h : m.storeRange byteAt wordAt physAddr nBytes = .ok stores) :
    m.accessRange physAddr nBytes = .ok (stores.map Prod.fst) := by
  rw [storeRange_eq hmock] at h
  rw [accessRange_eq hmock]
  split at h
  case isTrue haccepted =>
    cases h
    rw [if_pos haccepted, blockStores_eq, storesOf, List.map_map, bytesFrom_eq_map]
    rfl
  case isFalse => cases h

theorem storedAt_set (val : U8) (head n i : Nat) :
    storedAt (fun _ => val) (fun _ => u64FromU8 val val val val val val val val) head n i = val := by
  rw [storedAt]
  split
  · exact wordByte_u64FromU8 (fun _ => val) (Nat.mod_lt _ (by decide))
  · rfl

theorem wordByte_argsWord (orders : Nat → ArgOrder) (src : Nat → U8) (i : Nat) {j : Nat}
    (hj : j < 8) : wordByte (argsWord orders src i) j = src (i + (orders i).place j) :=
  wordByte_u64FromU8 (fun j => src (i + (orders i).place j)) hj

/-- `copy_to` stores the bytes of the source in their order exactly if each call keeps its word. -/
theorem storedAt_copyTo_iff {orders : Nat → ArgOrder} {src : Nat → U8} {ptr : BitVec w} {n : Nat} :
    (∀ i < n, storedAt src (argsWord orders src) (headLength ptr n) n i = src i) ↔
      KeepsWords orders src ptr n := by
  rw [KeepsWords]
  generalize headLength ptr n = head
  constructor
  · intro h t ht j hj
    have hbyte := h (head + 8 * t + j) (by omega)
    have hdiv : (head + 8 * t + j - head) / 8 = t := by omega
    have hmod : (head + 8 * t + j - head) % 8 = j := by omega
    rw [storedAt, hdiv, hmod, if_pos (by omega), wordByte_argsWord orders src _ hj] at hbyte
    exact hbyte
  · intro h i hi
    rw [storedAt]
    split
    case isTrue hin =>
      have hword := h ((i - head) / 8) hin.2 ((i - head) % 8) (Nat.mod_lt _ (by decide))
      have hsum : head + 8 * ((i - head) / 8) + (i - head) % 8 = i := by omega
      rw [wordByte_argsWord orders src _ (Nat.mod_lt _ (by decide)), hword, hsum]
    case isFalse => rfl

theorem trace_storesOf_iff {f g : Nat → U8} {ptr : BitVec w} {start n : Nat} :
    os.trace m.mapping (storesOf f ptr n) = rangeOf g start n ↔
      ∀ i < n, os.physical m.mapping (ptr + BitVec.ofNat w i) = some (start + i) ∧ f i = g i := by
  rw [Os.trace, storesOf, List.map_map, rangeOf, List.map_inj_left]
  simp only [List.mem_range, Function.comp_apply, Prod.mk.injEq]

/-- Where the bytes of an accepted range are behind their addresses, the range is in the window. -/
theorem inWindow_of_physical (h : init os baseAddr size false = .ok m)
    (haccepted : m.mapsAddrRange physAddr nBytes = true) (hpos : 0 < nBytes.toNat)
    (hphysical : ∀ i < nBytes.toNat,
      os.physical m.mapping (m.mapping.ptr + (physAddr &&& m.mapMask) + BitVec.ofNat w i) =
        some (physAddr.toNat + i)) :
    (Access.copyTo physAddr nBytes).InWindow os baseAddr size := by
  obtain ⟨hbase, hsize, -⟩ := init_eq_ok h
  obtain ⟨hfirst, hlast⟩ := Bool.and_eq_true_iff.mp haccepted
  obtain ⟨hle, -, -⟩ := mapsAddr_iff hfirst
  obtain ⟨hle', hlt, -⟩ := mapsAddr_iff hlast
  have hsum := Access.toNat_mask_add baseAddr (size - 1)
  have hbyte : ∀ i < nBytes.toNat, (baseAddr &&& ~~~(size - 1)).toNat +
      ((physAddr &&& (size - 1)).toNat + i) % 2 ^ w = physAddr.toNat + i := by
    intro i hi
    have htouched := Access.physical_touched h (.copyTo physAddr nBytes) i
    rw [Access.physAddr, hphysical i hi] at htouched
    simp only at htouched
    split at htouched
    · exact (Option.some.inj htouched).symm
    · cases htouched
  have hend : physAddr.toNat + nBytes.toNat - 1 < m.baseAddr.toNat + m.nBytes.toNat := by
    have hn := nBytes.isLt
    have hp := physAddr.isLt
    have hone : 1 < 2 ^ w := by omega
    have hword : physAddr + nBytes - 1 = BitVec.ofNat w (physAddr.toNat + nBytes.toNat - 1) := by
      rw [← BitVec.ofNat_sub_ofNat_of_le _ _ hone (by omega), BitVec.ofNat_add, BitVec.ofNat_toNat,
        BitVec.ofNat_toNat, BitVec.setWidth_eq, BitVec.setWidth_eq]
      rfl
    rw [hword, BitVec.toNat_ofNat] at hle' hlt
    have hstart := hbyte 0 hpos
    have hstop := hbyte (nBytes.toNat - 1) (by omega)
    have hplace := Nat.mod_lt ((physAddr &&& (size - 1)).toNat + (nBytes.toNat - 1)) (Nat.two_pow_pos w)
    rw [Nat.add_zero, Nat.mod_eq_of_lt (BitVec.isLt _)] at hstart
    by_cases hwrap : physAddr.toNat + nBytes.toNat - 1 < 2 ^ w
    · rwa [Nat.mod_eq_of_lt hwrap] at hlt
    · -- The address would be before the mapping, where the last byte has no place.
      rw [Nat.mod_eq_sub_mod (by omega), Nat.mod_eq_of_lt (by omega), hbase] at hle'
      omega
  refine Access.inWindow_of_confined h hpos ?_
  intro i hi
  rw [Access.size] at hi
  exact ⟨hphysical i hi, by rw [Access.physAddr]; omega, by rw [Access.physAddr]; omega⟩

end PhysMem

open PhysMem in
/-- A range that the window accepts is transferred as it should be exactly if it is empty, or is
`InWindow` and no call moves a byte within its word. -/
theorem phys_mem_transfers_iff {w : Nat} {os : Os w} {m : PhysMem w} {baseAddr size : BitVec w}
    (h : init os baseAddr size false = .ok m) (orders : Nat → ArgOrder) (physAddr : BitVec w)
    (src : Nat → U8) (nBytes : BitVec w) :
    m.Transfers os orders physAddr src nBytes ↔ (m.mapsAddrRange physAddr nBytes = true →
      nBytes.toNat = 0 ∨ (Access.copyTo physAddr nBytes).InWindow os baseAddr size ∧
        KeepsWords orders src (m.mapping.ptr + (physAddr &&& m.mapMask)) nBytes.toNat) := by
  obtain ⟨-, -, -, hmock, -⟩ := init_eq_ok h
  constructor
  · intro htransfers haccepted
    obtain hzero | hpos := Nat.eq_zero_or_pos nBytes.toNat
    · exact Or.inl hzero
    · have hrun : m.storeRange src (argsWord orders src) physAddr nBytes = _ :=
        storeRange_eq hmock src (argsWord orders src)
      rw [if_pos haccepted, blockStores_eq] at hrun
      have hbytes := trace_storesOf_iff.mp (htransfers.copyTo _ hrun)
      exact Or.inr ⟨inWindow_of_physical h haccepted hpos fun i hi => (hbytes i hi).1,
        storedAt_copyTo_iff.mp fun i hi => (hbytes i hi).2⟩
  · intro hgood
    have hphysical : m.mapsAddrRange physAddr nBytes = true → ∀ i < nBytes.toNat,
        os.physical m.mapping (m.mapping.ptr + (physAddr &&& m.mapMask) + BitVec.ofNat w i) =
          some (physAddr.toNat + i) := by
      intro haccepted i hi
      obtain hzero | hin := hgood haccepted
      · omega
      · exact Access.confined_of_inWindow (a := .copyTo physAddr nBytes) h haccepted hin.1 hi
    have hcopy : ∀ stores, m.copyToStores orders physAddr src nBytes = .ok stores →
        m.mapsAddrRange physAddr nBytes = true ∧
          os.trace m.mapping stores = rangeOf src physAddr.toNat nBytes.toNat := by
      intro stores hrun
      rw [copyToStores, storeRange_eq hmock] at hrun
      split at hrun
      case isTrue haccepted =>
        cases hrun
        refine ⟨haccepted, ?_⟩
        rw [blockStores_eq]
        apply trace_storesOf_iff.mpr
        intro i hi
        refine ⟨hphysical haccepted i hi, ?_⟩
        obtain hzero | hin := hgood haccepted
        · omega
        · exact storedAt_copyTo_iff.mpr hin.2 i hi
      case isFalse => cases hrun
    refine ⟨fun stores hrun => (hcopy stores hrun).2, ?_, ?_⟩
    · intro val stores hrun
      rw [setStores, storeRange_eq hmock] at hrun
      split at hrun
      case isTrue haccepted =>
        cases hrun
        rw [blockStores_eq]
        apply trace_storesOf_iff.mpr
        intro i hi
        exact ⟨hphysical haccepted i hi, storedAt_set val _ _ i⟩
      case isFalse => cases hrun
    · intro mem stores hrun
      obtain ⟨haccepted, htrace⟩ := hcopy stores hrun
      refine ⟨_, Os.storeAll_of_trace htrace mem, ?_⟩
      have hread : Readable (os.load m.mapping (patch src physAddr.toNat nBytes.toNat mem))
          (m.mapping.ptr + (physAddr &&& m.mapMask)) src nBytes.toNat := by
        intro i hi
        have hsub : physAddr.toNat + i - physAddr.toNat = i := by omega
        rw [Os.load, hphysical haccepted i hi, Option.map_some, patch, if_pos (by omega), hsub]
      rw [copyFromInto_eq hmock haccepted, blockLoads_eq hread]
      rfl

/-! ### Two orders -/

def leftToRight : ArgOrder := ⟨id, by rw [List.map_id]⟩

def rightToLeft : ArgOrder := ⟨fun j => 7 - j, by decide⟩

/-- A page of `/dev/mem`, and bytes that are all different. -/
private def devMem : Os 64 := ⟨12, true, fun _ _ => some 0x7f0000000000⟩
private def page : PhysMem 64 :=
  ⟨0x1000, 0x1000, 0xfff, ⟨0x7f0000000000, 0x1000, 0x1000⟩, false⟩
private def counting (i : Nat) : U8 := BitVec.ofNat 8 i

theorem phys_mem_transfers_leftToRight :
    page.Transfers devMem (fun _ => leftToRight) 0x1005 counting 13 := by
  have hin : (Access.copyTo (0x1005 : BitVec 64) 13).InWindow devMem 0x1000 0x1000 := by
    unfold Access.InWindow
    decide
  have hiff := @phys_mem_transfers_iff 64 devMem page 0x1000 0x1000 rfl (fun _ => leftToRight) 0x1005
    counting 13
  exact hiff.mpr fun _ => Or.inr ⟨hin, fun _ _ _ _ => rfl⟩

/-- Evaluated from the right, a call stores the bytes of its word in reverse. -/
theorem phys_mem_transfers_not_rightToLeft : ∃ m, PhysMem.init devMem 0x1000 0x1000 false = .ok m ∧
    m.mapsAddrRange 0x1000 8 = true ∧
    ¬ m.Transfers devMem (fun _ => rightToLeft) 0x1000 counting 8 := by
  refine ⟨page, rfl, by decide, ?_⟩
  intro htransfers
  have hrun : page.storeRange counting (argsWord (fun _ => rightToLeft) counting) 0x1000 8 = _ :=
    PhysMem.storeRange_eq rfl counting (argsWord (fun _ => rightToLeft) counting)
  rw [blockStores_eq] at hrun
  have hbytes := PhysMem.trace_storesOf_iff.mp (htransfers.copyTo _ hrun)
  exact absurd (hbytes 0 (by decide)).2 (by decide)

end Hero.Apps
