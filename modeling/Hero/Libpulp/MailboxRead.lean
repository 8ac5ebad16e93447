import Hero.Driver.Mbox.Frames
import Hero.Framework.Checked
import Mathlib.Tactic.NormNum

/-!
# Reading the mailbox from user space

`pulp_mbox_read` of the user library calls `read` until the driver has returned all words.  The driver
may split the request; the library counts bytes but advances in words.
-/

namespace Hero.Libpulp

open Mbox Checked

/-- Conversion to `int` -/
def toInt (x : Nat) : Int := (BitVec.ofNat 32 x).toInt

/-- Conversion to a `size_t` of `w` bits -/
def toSize (w : Nat) (x : Int) : Nat := (x % 2 ^ w).toNat

/-- Where the library stands: its counters, what it has taken from the stream, and the memory from
`buffer` on, in words, with the places and lengths of the writes. -/
structure Reader where
  nChar : Int
  nCharLeft : Int
  taken : Nat
  buffer : Int → Word
  writes : List (Int × Nat)

/-- Copy the next words of the stream to `&buffer[n_char]`. -/
def Reader.copy (s : Reader) (stream : Nat → Word) (words : Nat) : Reader :=
  { s with
    taken := s.taken + words
    buffer := fun a => if s.nChar ≤ a ∧ a < s.nChar + words then
      stream (s.taken + (a - s.nChar).toNat) else s.buffer a
    writes := s.writes ++ [(s.nChar, words)] }

section

variable (w : Nat) (stream : Nat → Word) (avail : Nat → Nat)

/-- The loop of `pulp_mbox_read`; the `i`-th call of `read` finds `avail i` words.  There is no result
without fuel or when a counter overflows. -/
def readLoop : Nat → Nat → Reader → Option (Int × Reader)
  | 0, _, _ => none
  | fuel + 1, i, s =>
    if s.nCharLeft = 0 then some (0, s)
    else
      let got := min (toSize w s.nCharLeft) (4 * avail i)
      let ret := toInt got
      let s := s.copy stream (got / 4)
      if ret < 0 then some (ret, s)
      else do
        let nChar ← add 32 s.nChar ret
        let nCharLeft ← sub 32 s.nCharLeft ret
        readLoop fuel (i + 1) { s with nChar, nCharLeft }

/-- `pulp_mbox_read` -/
def pulpMboxRead (fuel : Nat) (buffer : Int → Word) (nWords : Nat) : Option (Int × Reader) :=
  readLoop w stream avail fuel 0 ⟨0, toInt (toSize w (nWords * 4)), 0, buffer, []⟩

/-- The call returns with the next `n` words of the stream in the buffer, and writes nothing else. -/
def ReadsExactly (buffer : Int → Word) (n : Nat) : Prop :=
  ∃ fuel s, pulpMboxRead w stream avail fuel buffer n = some (0, s) ∧ s.taken = n ∧
    (∀ i < n, s.buffer i = stream i) ∧ ∀ a ∈ s.writes, 0 ≤ a.1 ∧ a.1 + a.2 ≤ n

end

section

variable {w : Nat} {stream : Nat → Word} {avail : Nat → Nat}

/-- One pass of the loop that does not fail. -/
private theorem readLoop_step {fuel i : Nat} {s t : Reader} (h : s.nCharLeft ≠ 0)
    (hrun : readLoop w stream avail (fuel + 1) i s = some (0, t)) :
    ∃ got, got = min (toSize w s.nCharLeft) (4 * avail i) ∧ 0 ≤ toInt got ∧
      readLoop w stream avail fuel (i + 1) { s.copy stream (got / 4) with
        nChar := s.nChar + toInt got, nCharLeft := s.nCharLeft - toInt got } = some (0, t) := by
  rw [readLoop, if_neg h] at hrun
  refine ⟨_, rfl, ?_⟩
  simp only at hrun
  split at hrun
  · next hneg =>
    rw [Option.some.injEq, Prod.mk.injEq] at hrun
    omega
  · next hnonneg =>
    simp only [Option.bind_eq_bind, Option.bind_eq_some_iff, add_eq_some, sub_eq_some] at hrun
    obtain ⟨nChar, ⟨-, rfl⟩, nCharLeft, ⟨-, rfl⟩, hrest⟩ := hrun
    exact ⟨by omega, hrest⟩

/-- A negative count never gets to zero. -/
private theorem readLoop_negative {fuel i : Nat} {s t : Reader} (h : s.nCharLeft < 0) :
    readLoop w stream avail fuel i s ≠ some (0, t) := by
  induction fuel generalizing i s with
  | zero =>
    intro hrun
    cases hrun
  | succ fuel ih =>
    intro hrun
    obtain ⟨got, -, hnonneg, hrest⟩ := readLoop_step (by omega) hrun
    exact ih (by change s.nCharLeft - _ < 0; omega) hrest

private theorem toSize_of_nonneg {x : Int} (h0 : 0 ≤ x) (h1 : x < 2147483648) (hw : 32 ≤ w) :
    (toSize w x : Int) = x := by
  have hpow : (4294967296 : Int) ≤ 2 ^ w := by
    have h32 : (4294967296 : Int) = 2 ^ 32 := by norm_num
    rw [h32]
    exact pow_le_pow_right₀ (by norm_num) hw
  rw [toSize, Int.toNat_of_nonneg (Int.emod_nonneg _ (by positivity)), Int.emod_eq_of_lt h0]
  omega

private theorem toInt_eq (x : Nat) : toInt x = if x % 4294967296 < 2147483648 then
    ((x % 4294967296 : Nat) : Int) else ((x % 4294967296 : Nat) : Int) - 4294967296 := by
  rw [toInt, BitVec.toInt_eq_toNat_cond, BitVec.toNat_ofNat]
  norm_num
  split <;> split <;> omega

private theorem toInt_of_lt {x : Nat} (h : x < 2147483648) : toInt x = x := by
  rw [toInt_eq, if_pos (by omega), Nat.mod_eq_of_lt (by omega)]

private theorem toInt_lt (x : Nat) : toInt x < 2147483648 := by
  rw [toInt_eq]
  split <;> omega

/-- A pass of the loop with a positive count takes some of the words that are left. -/
private theorem readLoop_positive {fuel i : Nat} {s t : Reader} (hw : 32 ≤ w)
    (havail : ∀ i, 0 < avail i) (hpos : 0 < s.nCharLeft) (hlt : s.nCharLeft < 2147483648)
    (hdvd : 4 ∣ s.nCharLeft) (hrun : readLoop w stream avail (fuel + 1) i s = some (0, t)) :
    ∃ words : Nat, 0 < words ∧ 4 * (words : Int) ≤ s.nCharLeft ∧ words ≤ avail i ∧
      readLoop w stream avail fuel (i + 1) { s.copy stream words with
        nChar := s.nChar + 4 * words, nCharLeft := s.nCharLeft - 4 * words } = some (0, t) := by
  obtain ⟨got, hgot, -, hrest⟩ := readLoop_step (by omega) hrun
  have hsize := toSize_of_nonneg hpos.le hlt hw
  have hi := havail i
  have hret : toInt got = got := toInt_of_lt (by omega)
  have hwords : got = 4 * (got / 4) := by omega
  rw [hret] at hrest
  refine ⟨got / 4, by omega, by omega, by omega, ?_⟩
  rw [show (4 : Int) * (got / 4 : Nat) = got by omega]
  exact hrest

/-- What a loop that completes has taken, and where its last write begins. -/
private theorem readLoop_complete {fuel i : Nat} {s t : Reader} (hw : 32 ≤ w)
    (havail : ∀ i, 0 < avail i) (hpos : 0 < s.nCharLeft) (hlt : s.nCharLeft < 2147483648)
    (hdvd : 4 ∣ s.nCharLeft) (hrun : readLoop w stream avail fuel i s = some (0, t)) :
    4 * (t.taken : Int) = 4 * s.taken + s.nCharLeft ∧ ∃ words : Nat, 0 < words ∧
      4 * (words : Int) ≤ s.nCharLeft ∧ (s.nChar + s.nCharLeft - 4 * words, words) ∈ t.writes := by
  induction fuel generalizing i s with
  | zero => cases hrun
  | succ fuel ih =>
    obtain ⟨words, hwords, hle, -, hrest⟩ := readLoop_positive hw havail hpos hlt hdvd hrun
    by_cases hdone : s.nCharLeft - 4 * words = 0
    · have hstop : ∀ u : Reader, u.nCharLeft = 0 → readLoop w stream avail fuel (i + 1) u =
          some (0, t) → u = t := by
        intro u hu hut
        cases fuel with
        | zero => cases hut
        | succ fuel =>
          rw [readLoop, if_pos hu, Option.some.injEq, Prod.mk.injEq] at hut
          exact hut.2
      have hlast := hstop _ hdone hrest
      rw [← hlast]
      refine ⟨by change 4 * ((s.taken + words : Nat) : Int) = _; omega, words, hwords, hle, ?_⟩
      refine List.mem_append_right _ (List.mem_singleton.mpr ?_)
      rw [show s.nChar + s.nCharLeft - 4 * words = s.nChar by omega]
    · obtain ⟨htaken, words', hwords', hle', hmem⟩ := ih
        (by change 0 < s.nCharLeft - 4 * (words : Int); omega)
        (by change s.nCharLeft - 4 * (words : Int) < _; omega)
        (by change 4 ∣ s.nCharLeft - 4 * (words : Int); omega) hrest
      change 4 * (t.taken : Int) = 4 * ((s.taken + words : Nat) : Int) + (s.nCharLeft - 4 * words)
        at htaken
      change 4 * (words' : Int) ≤ s.nCharLeft - 4 * words at hle'
      change (s.nChar + 4 * words + (s.nCharLeft - 4 * words) - 4 * words', words') ∈ _ at hmem
      refine ⟨by omega, words', hwords', by omega, ?_⟩
      rwa [show s.nChar + s.nCharLeft - 4 * (words' : Int) =
        s.nChar + 4 * words + (s.nCharLeft - 4 * words) - 4 * words' by omega]

private theorem toInt_toSize (hw : 32 ≤ w) (n : Nat) : toInt (toSize w (n * 4)) = toInt (4 * n) := by
  have hdvd : 4294967296 ∣ 2 ^ w := by
    have h32 : 4294967296 = 2 ^ 32 := by norm_num
    rw [h32]
    exact pow_dvd_pow 2 hw
  have hsize : toSize w (n * 4) = 4 * n % 2 ^ w := by
    rw [toSize, show (n * 4 : Int) % 2 ^ w = ((4 * n % 2 ^ w : Nat) : Int) by push_cast; ring_nf,
      Int.toNat_natCast]
  rw [toInt_eq, toInt_eq, hsize, Nat.mod_mod_of_dvd _ hdvd]

/-- The loop where one call of `read` returns all that is left. -/
private theorem readLoop_whole {i n : Nat} {s : Reader} (hw : 32 ≤ w) (hpos : 0 < n)
    (hlt : n < 536870912) (hle : n ≤ avail i) (hchar : s.nChar = 0)
    (hleft : s.nCharLeft = (4 * n : Nat)) :
    readLoop w stream avail 2 i s =
      some (0, { s.copy stream n with nChar := (4 * n : Nat), nCharLeft := 0 }) := by
  have hsize : (toSize w (4 * n : Nat) : Int) = (4 * n : Nat) :=
    toSize_of_nonneg (by omega) (by omega) hw
  have hgot : min (toSize w (4 * n : Nat)) (4 * avail i) = 4 * n := by omega
  have hret : toInt (4 * n) = (4 * n : Nat) := toInt_of_lt (by omega)
  have hadd : add 32 0 (4 * n : Nat) = some ((4 * n : Nat) : Int) := by
    rw [add_eq_some, Fits]
    norm_num
    omega
  have hsub : sub 32 (4 * n : Nat) (4 * n : Nat) = some 0 := by
    rw [sub_eq_some, Fits]
    norm_num
  rw [readLoop, if_neg (by omega), hleft, hgot]
  simp only [hret, Reader.copy, hchar, hleft, hadd, hsub, Nat.mul_div_cancel_left n (show 0 < 4 by decide),
    Option.bind_eq_bind, Option.bind_some]
  rw [if_neg (by omega), readLoop, if_pos rfl]

/-- After a first short read, a later write ends behind the buffer. -/
private theorem ReadsExactly.at_once (hw : 32 ≤ w) (havail : ∀ i, 0 < avail i) {buffer : Int → Word}
    {n : Nat} : ReadsExactly w stream avail buffer n → n = 0 ∨ n ≤ avail 0 ∧ n < 2 ^ 29 := by
  rintro ⟨fuel, s, hrun, htaken, -, hwrites⟩
  rw [pulpMboxRead, toInt_toSize hw] at hrun
  rcases lt_trichotomy (toInt (4 * n)) 0 with hneg | hzero | hpos
  · exact absurd hrun (readLoop_negative hneg)
  · left
    cases fuel with
    | zero => cases hrun
    | succ fuel =>
      rw [readLoop, if_pos hzero, Option.some.injEq, Prod.mk.injEq] at hrun
      rw [← htaken, ← hrun.2]
  · right
    have hlt := toInt_lt (4 * n)
    have hdvd : 4 ∣ toInt (4 * n) := by
      rw [toInt_eq]
      split <;> omega
    have hall : 4 * (s.taken : Int) = 4 * ((0 : Nat) : Int) + toInt (4 * n) :=
      (readLoop_complete hw havail hpos hlt hdvd hrun).1
    have hleft : toInt (4 * n) = 4 * n := by omega
    cases fuel with
    | zero => cases hrun
    | succ fuel =>
      obtain ⟨words, hwords, hle, hfirst, hrest⟩ := readLoop_positive hw havail hpos hlt hdvd hrun
      change 4 * (words : Int) ≤ toInt (4 * n) at hle
      by_cases hdone : words = n
      · exact ⟨hdone ▸ hfirst, by omega⟩
      · -- the last write begins as many words behind its place as words were read before
        obtain ⟨-, words', hwords', hle', hmem⟩ := readLoop_complete hw havail
          (by change 0 < toInt (4 * n) - 4 * (words : Int); omega)
          (by change toInt (4 * n) - 4 * (words : Int) < _; omega)
          (by change 4 ∣ toInt (4 * n) - 4 * (words : Int); omega) hrest
        have hbound := (hwrites _ hmem).2
        change 4 * (words' : Int) ≤ toInt (4 * n) - 4 * words at hle'
        change 0 + 4 * (words : Int) + (toInt (4 * n) - 4 * words) - 4 * words' + words' ≤ n at hbound
        omega

end

/-- A request of any length is read exactly if and only if the driver returns all of it at once. -/
theorem pulpMboxRead_exact_iff (w : Nat) (hw : 32 ≤ w) (stream : Nat → Word) (avail : Nat → Nat)
    (havail : ∀ i, 0 < avail i) (buffer : Int → Word) (n : Nat) :
    ReadsExactly w stream avail buffer n ↔ n = 0 ∨ n ≤ avail 0 ∧ n < 2 ^ 29 := by
  constructor
  · exact ReadsExactly.at_once hw havail
  · intro h
    rcases Nat.eq_zero_or_pos n with rfl | hpos
    · refine ⟨1, ⟨0, 0, 0, buffer, []⟩, ?_, rfl, ?_, ?_⟩
      · rw [pulpMboxRead, toInt_toSize hw]
        rfl
      · exact fun i hi => absurd hi (Nat.not_lt_zero i)
      · exact fun a ha => absurd ha List.not_mem_nil
    · obtain ⟨hle, hlt⟩ := h.resolve_left hpos.ne'
      have hleft : toInt (4 * n) = (4 * n : Nat) := toInt_of_lt (by omega)
      have hrun : readLoop w stream avail 2 0 ⟨0, (4 * n : Nat), 0, buffer, []⟩ = _ :=
        readLoop_whole hw hpos (by omega) hle rfl rfl
      rw [← hleft, ← toInt_toSize hw] at hrun
      refine ⟨2, _, hrun, ?_, ?_, ?_⟩
      · exact Nat.zero_add n
      · intro i hi
        change (if (0 : Int) ≤ i ∧ (i : Int) < 0 + n then stream (0 + ((i : Int) - 0).toNat) else _) = _
        rw [if_pos (by omega)]
        congr 1
        omega
      · intro a ha
        rw [List.mem_singleton.mp ha]
        refine ⟨le_rfl, ?_⟩
        change (0 : Int) + n ≤ n
        omega

/-- Four words that the driver returns at once. -/
theorem pulpMboxRead_exact_four :
    ReadsExactly 64 (fun i => BitVec.ofNat 32 i) (fun _ => 32) (fun _ => 0#32) 4 :=
  (pulpMboxRead_exact_iff 64 (by decide) _ (fun _ => 32) (fun _ => by decide) _ 4).mpr
    (Or.inr ⟨by decide, by decide⟩)

/-- Two words that the driver returns one by one: the second is written behind the buffer. -/
theorem not_pulpMboxRead_exact_split :
    ¬ ReadsExactly 64 (fun i => BitVec.ofNat 32 i) (fun _ => 1) (fun _ => 0#32) 2 := by
  intro h
  have hcond := h.at_once (by decide) fun _ => by decide
  omega

end Hero.Libpulp
