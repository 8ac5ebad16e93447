import Mathlib.Data.BitVec
import Mathlib.Data.Finset.Card
import Mathlib.Data.Finset.Range
import Mathlib.Data.Finset.SDiff
import Mathlib.Data.Finset.Lattice.Basic

/-!
# Bit fields

Masks and fields of machine words, and a word as the set of its bits.
-/

namespace Hero.BitField

variable {w : Nat}

/-- `BIT_MASK_GEN` -/
def bitMaskGen (w len : Nat) : BitVec w := (1#w <<< len) - 1#w

/-- `BF_MASK_GEN` -/
def bfMaskGen (w start len : Nat) : BitVec w := bitMaskGen w len <<< start

/-- `BF_GET` -/
def bfGet (y : BitVec w) (start len : Nat) : BitVec w := y >>> start &&& bitMaskGen w len

/-- `BF_PREP` -/
def bfPrep (x : BitVec w) (start len : Nat) : BitVec w := (x &&& bitMaskGen w len) <<< start

/-- `BF_SET` -/
def bfSet (y x : BitVec w) (start len : Nat) : BitVec w :=
  y &&& ~~~bfMaskGen w start len ||| bfPrep x start len

theorem getLsbD_of_lt {x : BitVec w} {k j : Nat} (hx : x.toNat < 2 ^ k) (hj : k ≤ j) :
    x.getLsbD j = false := by
  rw [← BitVec.testBit_toNat]
  exact Nat.testBit_lt_two_pow (lt_of_lt_of_le hx (Nat.pow_le_pow_right (by decide) hj))

theorem getLsbD_bitMaskGen (len j : Nat) :
    (bitMaskGen w len).getLsbD j = decide (j < len ∧ j < w) := by
  by_cases hj : j < w
  · have hpow : 1 < 2 ^ w := Nat.one_lt_two_pow (by omega)
    have htoNat : (bitMaskGen w len).toNat = 2 ^ min len w - 1 := by
      have hone : (1#w).toNat = 1 := by
        rw [BitVec.toNat_ofNat, Nat.mod_eq_of_lt hpow]
      rw [bitMaskGen, BitVec.toNat_sub, BitVec.toNat_shiftLeft, hone, Nat.shiftLeft_eq, Nat.one_mul]
      by_cases hlen : len < w
      · have hlt : 2 ^ len < 2 ^ w := Nat.pow_lt_pow_right (by decide) hlen
        have hpos : 0 < 2 ^ len := Nat.two_pow_pos len
        have hsum : 2 ^ w - 1 + 2 ^ len = 2 ^ len - 1 + 2 ^ w := by omega
        rw [Nat.mod_eq_of_lt hlt, Nat.min_eq_left hlen.le, hsum, Nat.add_mod_right,
          Nat.mod_eq_of_lt (by omega)]
      · have hdvd : 2 ^ len % 2 ^ w = 0 := Nat.mod_eq_zero_of_dvd (Nat.pow_dvd_pow 2 (by omega))
        rw [hdvd, Nat.min_eq_right (by omega), Nat.add_zero, Nat.mod_eq_of_lt (by omega)]
    rw [← BitVec.testBit_toNat, htoNat, Nat.testBit_two_pow_sub_one]
    simp [hj]
  · rw [BitVec.getLsbD_of_ge _ _ (by omega)]
    simp [hj]

@[simp] theorem getLsbD_bfMaskGen (start len j : Nat) :
    (bfMaskGen w start len).getLsbD j = decide (start ≤ j ∧ j < start + len ∧ j < w) := by
  rw [bfMaskGen, BitVec.getLsbD_shiftLeft, getLsbD_bitMaskGen]
  grind

theorem getLsbD_bfGet (y : BitVec w) (start len j : Nat) :
    (bfGet y start len).getLsbD j = (decide (j < len) && y.getLsbD (start + j)) := by
  rw [bfGet, BitVec.getLsbD_and, BitVec.getLsbD_ushiftRight, getLsbD_bitMaskGen]
  by_cases hj : j < w
  · by_cases hlen : j < len <;> simp [hj, hlen]
  · rw [BitVec.getLsbD_of_ge y _ (by omega)]
    simp

theorem getLsbD_bfPrep (x : BitVec w) (start len j : Nat) :
    (bfPrep x start len).getLsbD j =
      (decide (start ≤ j ∧ j < start + len ∧ j < w) && x.getLsbD (j - start)) := by
  rw [bfPrep, BitVec.getLsbD_shiftLeft, BitVec.getLsbD_and, getLsbD_bitMaskGen]
  by_cases hstart : start ≤ j
  · by_cases hlen : j < start + len
    · by_cases hj : j < w
      · have hlen' : j - start < len := by omega
        have hj' : j - start < w := by omega
        simp [hstart, hlen, hj, hlen', hj']
      · simp [hj]
    · have hlen' : ¬j - start < len := by omega
      simp [hlen, hlen']
  · have hstart' : j < start := by omega
    simp [hstart, hstart']

/-- Inserting a field replaces the bits of the field and keeps the others. -/
theorem getLsbD_bfSet (y x : BitVec w) (start len : Nat) {j : Nat} (hj : j < w) :
    (bfSet y x start len).getLsbD j =
      if start ≤ j ∧ j < start + len then x.getLsbD (j - start) else y.getLsbD j := by
  rw [bfSet, BitVec.getLsbD_or, BitVec.getLsbD_and, BitVec.getLsbD_not, getLsbD_bfMaskGen,
    getLsbD_bfPrep]
  by_cases hin : start ≤ j ∧ j < start + len
  · have hfield : start ≤ j ∧ j < start + len ∧ j < w := ⟨hin.1, hin.2, hj⟩
    simp [hin, hfield]
  · simp [hin, hj]

/-- A field is empty if none of its bits is set. -/
theorem bfGet_eq_zero_iff (y : BitVec w) (start len : Nat) :
    bfGet y start len = 0#w ↔ ∀ j < len, y.getLsbD (start + j) = false := by
  constructor
  · intro h j hj
    have hbit := congrArg (BitVec.getLsbD · j) h
    simpa [getLsbD_bfGet, hj] using hbit
  · intro h
    apply BitVec.eq_of_getLsbD_eq
    intro j _
    rw [getLsbD_bfGet, BitVec.getLsbD_zero]
    by_cases hj : j < len
    · rw [h j hj, Bool.and_false]
    · simp [hj]

/-! ### Tests of one bit -/

theorem twoPow_ne_zero {i : Nat} (hi : i < w) : BitVec.twoPow w i ≠ 0#w := by
  intro h
  have hbit := congrArg (BitVec.getLsbD · i) h
  simp [hi] at hbit

theorem decide_and_twoPow (x : BitVec w) (i : Nat) (hi : i < w) :
    decide (x &&& BitVec.twoPow w i = BitVec.twoPow w i) = x.getLsbD i := by
  rw [BitVec.and_twoPow]
  cases x.getLsbD i with
  | true => simp
  | false => simp [(twoPow_ne_zero hi).symm]

theorem decide_and_twoPow_zero (x : BitVec w) (i : Nat) (hi : i < w) :
    decide (x &&& BitVec.twoPow w i = 0#w) = !x.getLsbD i := by
  rw [BitVec.and_twoPow]
  cases x.getLsbD i with
  | true => simp [twoPow_ne_zero hi]
  | false => simp

/-- The numbers of the bits that are set. -/
def members (x : BitVec w) : Finset Nat := (Finset.range w).filter fun j => x.getLsbD j = true

variable {x y : BitVec w} {j : Nat}

@[simp] theorem mem_members : j ∈ members x ↔ x.getLsbD j = true := by
  rw [members, Finset.mem_filter, Finset.mem_range]
  constructor
  · exact fun h => h.2
  · exact fun h => ⟨BitVec.lt_of_getLsbD h, h⟩

theorem members_and_not : members (x &&& ~~~y) = members x \ members y := by
  ext j
  by_cases hj : j < w
  · simp [hj, -BitVec.getLsbD_eq_getElem]
  · simp [BitVec.getLsbD_of_ge x j (by omega)]

@[simp] theorem members_or : members (x ||| y) = members x ∪ members y := by
  ext j
  simp [-BitVec.getLsbD_eq_getElem]

@[simp] theorem members_one_shiftLeft {i : Nat} (hi : i < w) : members (1#w <<< i) = {i} := by
  ext j
  rw [mem_members, ← BitVec.twoPow_eq, BitVec.getLsbD_twoPow, Finset.mem_singleton]
  simp [hi, eq_comm]

theorem lt_of_mem_members (h : j ∈ members x) : j < w := BitVec.lt_of_getLsbD (mem_members.mp h)

theorem card_members_le : (members x).card ≤ w := by
  have hcard := Finset.card_filter_le (Finset.range w) fun j => x.getLsbD j = true
  rwa [Finset.card_range] at hcard

theorem members_eq_empty : members x = ∅ ↔ x = 0#w := by
  constructor
  · intro h
    apply BitVec.eq_of_getLsbD_eq
    intro j _
    rw [BitVec.getLsbD_zero]
    have hj : j ∉ members x := by
      rw [h]
      exact Finset.notMem_empty j
    simpa using hj
  · intro h
    subst h
    ext j
    simp

theorem and_one_shiftLeft_eq_zero {i : Nat} (hi : i < w) :
    x &&& (1#w <<< i) = 0#w ↔ i ∉ members x := by
  rw [← BitVec.twoPow_eq, BitVec.and_twoPow, mem_members]
  cases hbit : x.getLsbD i with
  | false => simp
  | true => simp [twoPow_ne_zero hi]

/-! ### Rounding by a mask -/

section Rounding

variable {k n : Nat}

theorem toNat_neg_two_pow (hk : k < w) :
    (-BitVec.ofNat w (2 ^ k)).toNat = (2 ^ (w - k) - 1) <<< k := by
  have hlt : 2 ^ k < 2 ^ w := Nat.pow_lt_pow_right (by decide) hk
  have hpos : 0 < 2 ^ k := Nat.two_pow_pos k
  have hsplit : 2 ^ w = 2 ^ (w - k) * 2 ^ k := by
    rw [← Nat.pow_add]
    congr 1
    omega
  rw [BitVec.toNat_neg, BitVec.toNat_ofNat, Nat.mod_eq_of_lt hlt, Nat.mod_eq_of_lt (by omega),
    Nat.shiftLeft_eq, Nat.sub_mul, Nat.one_mul, ← hsplit]

/-- The mask of a negated power of two rounds down. -/
theorem toNat_and_neg_two_pow (x : BitVec w) (hk : k < w) :
    (x &&& -BitVec.ofNat w (2 ^ k)).toNat = x.toNat / 2 ^ k * 2 ^ k := by
  rw [BitVec.toNat_and, toNat_neg_two_pow hk, ← Nat.shiftLeft_eq, ← Nat.shiftRight_eq_div_pow]
  apply Nat.eq_of_testBit_eq
  intro i
  rw [Nat.testBit_and, Nat.testBit_shiftLeft, Nat.testBit_shiftLeft, Nat.testBit_two_pow_sub_one,
    Nat.testBit_shiftRight]
  by_cases hki : k ≤ i
  · have hi : k + (i - k) = i := by omega
    rw [hi]
    by_cases hiw : i < w
    · have hin : i - k < w - k := by omega
      simp [hki, hin]
    · have hout : x.toNat.testBit i = false := by
        rw [BitVec.testBit_toNat, BitVec.getLsbD_of_ge _ _ (by omega)]
      simp [hout]
  · simp [hki]

/-- Rounding up to a multiple of a power of two, where the sum does not wrap. -/
theorem roundUp_eq (hk : k < w) (hn : n + 2 ^ k - 1 < 2 ^ w) :
    (BitVec.ofNat w n + BitVec.ofNat w (2 ^ k) - 1#w) &&& -BitVec.ofNat w (2 ^ k) =
      BitVec.ofNat w ((n + 2 ^ k - 1) / 2 ^ k * 2 ^ k) := by
  have hpos : 0 < 2 ^ k := Nat.two_pow_pos k
  have hone : 1 < 2 ^ w := Nat.one_lt_two_pow (by omega)
  have hle : (n + 2 ^ k - 1) / 2 ^ k * 2 ^ k ≤ n + 2 ^ k - 1 := Nat.div_mul_le_self _ _
  apply BitVec.eq_of_toNat_eq
  rw [toNat_and_neg_two_pow _ hk, ← BitVec.ofNat_add,
    BitVec.ofNat_sub_ofNat_of_le _ _ hone (by omega), BitVec.toNat_ofNat, BitVec.toNat_ofNat,
    Nat.mod_eq_of_lt hn, Nat.mod_eq_of_lt (by omega)]

end Rounding

end Hero.BitField
