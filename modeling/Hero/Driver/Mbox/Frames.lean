import Mathlib.Data.List.Basic
import Mathlib.Data.Nat.Bitwise

/-!
# Mailbox words

The request format PULP and the driver share, the frames PULP sends and what a word sequence means:
payload for user space, requests for the driver and the words left in the current frame.
-/

namespace Hero.Mbox

abbrev Word := BitVec 32

/-- `MBOX_N_BITS_REQ_TYPE` -/
def nBitsReqType : Nat := 4

def toRuntime : Word := 0x10000000#32
def rabUpdate : Word := 0x20000000#32
def rabSwitch : Word := 0x30000000#32

/-- `BF_GET` -/
def bfGet (y : Word) (start len : Nat) : Word := (y >>> start) &&& (1#32 <<< len - 1#32)

/-- `MBOX_GET_REQ_TYPE` -/
def getReqType (request : Word) : Word :=
  bfGet request (32 - nBitsReqType) nBitsReqType <<< (32 - nBitsReqType)

/-- `MBOX_GET_N_WORDS` -/
def getNWords (request : Word) : Nat := (bfGet request 0 (32 - nBitsReqType)).toNat

/-- What the driver does with a word that starts no transfer to the runtime. -/
inductive Request where
  | update (data : Word)
  | switch
  | unknown (data : Word)
  deriving DecidableEq, Repr

def Request.ofWord (data : Word) : Request :=
  if rabUpdate = getReqType data then .update data
  else if rabSwitch = getReqType data then .switch
  else .unknown data

/-- The frames PULP sends. -/
inductive Frame where
  | data (payload : List Word) (hlen : payload.length < 2 ^ (32 - nBitsReqType))
  | update (request : Word) (htype : getReqType request = rabUpdate)
  | switch (request : Word) (htype : getReqType request = rabSwitch)

namespace Frame

def header (n : Nat) : Word := toRuntime ||| BitVec.ofNat 32 n

def words : Frame → List Word
  | .data payload _ => header payload.length :: payload
  | .update request _ | .switch request _ => [request]

def payload : Frame → List Word
  | .data payload _ => payload
  | .update .. | .switch .. => []

def requests : Frame → List Word
  | .data .. => []
  | .update request _ | .switch request _ => [request]

end Frame

private theorem header_toNat {n : Nat} (hn : n < 2 ^ 28) : (Frame.header n).toNat = 2 ^ 28 + n := by
  have hlt : n < 2 ^ 32 := by omega
  have hor := Nat.two_pow_add_eq_or_of_lt hn 1
  rw [Nat.mul_one] at hor
  rw [Frame.header, BitVec.toNat_or, BitVec.toNat_ofNat, Nat.mod_eq_of_lt hlt, hor]
  rfl

theorem bfGet_toNat (y : Word) (start len : Nat) (hlen : len < 32) :
    (bfGet y start len).toNat = y.toNat / 2 ^ start % 2 ^ len := by
  have hmask : (1#32 <<< len - 1#32 : Word).toNat = 2 ^ len - 1 := by
    have hpow : 2 ^ len < 2 ^ 32 := Nat.pow_lt_pow_right (by decide) hlen
    have hpos : 0 < 2 ^ len := Nat.two_pow_pos len
    rw [BitVec.toNat_sub, BitVec.toNat_shiftLeft, Nat.shiftLeft_eq]
    simp only [BitVec.toNat_ofNat]
    rw [Nat.mod_eq_of_lt (a := 1) (by omega), Nat.one_mul, Nat.mod_eq_of_lt (a := 2 ^ len) (by omega)]
    omega
  rw [bfGet, BitVec.toNat_and, hmask, BitVec.toNat_ushiftRight, Nat.shiftRight_eq_div_pow,
    Nat.and_two_pow_sub_one_eq_mod]

theorem getReqType_header {n : Nat} (hn : n < 2 ^ 28) : getReqType (Frame.header n) = toRuntime := by
  apply BitVec.eq_of_toNat_eq
  rw [getReqType, BitVec.toNat_shiftLeft, bfGet_toNat _ _ _ (by decide), header_toNat hn,
    Nat.shiftLeft_eq]
  have hq : (2 ^ 28 + n) / 2 ^ 28 = 1 := by omega
  simp only [nBitsReqType]
  rw [show 32 - 4 = 28 from rfl, hq]
  rfl

theorem getNWords_header {n : Nat} (hn : n < 2 ^ 28) : getNWords (Frame.header n) = n := by
  rw [getNWords, bfGet_toNat _ _ _ (by decide), header_toNat hn]
  simp only [nBitsReqType]
  omega

/-- What a driver that has taken some words knows: payload and requests in order, and how many
payload words the current frame still has. -/
structure Parse where
  payload : List Word
  requests : List Word
  remaining : Nat

namespace Parse

def start : Parse := ⟨[], [], 0⟩

def step (p : Parse) (w : Word) : Parse :=
  if p.remaining = 0 then
    if getReqType w = toRuntime then { p with remaining := getNWords w }
    else { p with requests := p.requests ++ [w] }
  else { p with payload := p.payload ++ [w], remaining := p.remaining - 1 }

end Parse

def parse (ws : List Word) : Parse := ws.foldl Parse.step Parse.start

theorem parse_append (ws : List Word) (w : Word) : parse (ws ++ [w]) = (parse ws).step w := by
  simp [parse]

theorem Parse.step_payload_prefix (p : Parse) (w : Word) :
    p.payload <+: (p.step w).payload ∧ p.requests <+: (p.step w).requests := by
  unfold Parse.step
  split
  · split
    · exact ⟨List.prefix_rfl, List.prefix_rfl⟩
    · exact ⟨List.prefix_rfl, List.prefix_append _ _⟩
  · exact ⟨List.prefix_append _ _, List.prefix_rfl⟩

theorem Parse.foldl_prefix (p : Parse) (ws : List Word) :
    p.payload <+: (ws.foldl Parse.step p).payload ∧
      p.requests <+: (ws.foldl Parse.step p).requests := by
  induction ws generalizing p with
  | nil => exact ⟨List.prefix_rfl, List.prefix_rfl⟩
  | cons w ws ih =>
    obtain ⟨hp, hr⟩ := p.step_payload_prefix w
    obtain ⟨ihp, ihr⟩ := ih (p.step w)
    exact ⟨hp.trans ihp, hr.trans ihr⟩

/-- Taking more words only extends what was understood before. -/
theorem parse_prefix (ws more : List Word) :
    (parse ws).payload <+: (parse (ws ++ more)).payload ∧
      (parse ws).requests <+: (parse (ws ++ more)).requests := by
  rw [parse, parse, List.foldl_append]
  exact Parse.foldl_prefix _ more

private theorem foldl_payload (p : Parse) (ws : List Word) (hlen : p.remaining = ws.length) :
    ws.foldl Parse.step p = { p with payload := p.payload ++ ws, remaining := 0 } := by
  induction ws generalizing p with
  | nil =>
    obtain ⟨payload, requests, remaining⟩ := p
    simp only [List.length_nil] at hlen
    simp [hlen]
  | cons w ws ih =>
    have hne : p.remaining ≠ 0 := by simp [hlen]
    rw [List.foldl_cons, ih]
    · simp [Parse.step, hne]
    · simp [Parse.step, hlen]

private theorem foldl_frame (p : Parse) (f : Frame) (hp : p.remaining = 0) :
    f.words.foldl Parse.step p =
      ⟨p.payload ++ f.payload, p.requests ++ f.requests, 0⟩ := by
  obtain ⟨payload, requests, remaining⟩ := p
  simp only at hp
  subst hp
  cases f with
  | data ws hlen =>
    have hstep : Parse.step ⟨payload, requests, 0⟩ (Frame.header ws.length)
        = ⟨payload, requests, ws.length⟩ := by
      simp [Parse.step, getReqType_header hlen, getNWords_header hlen]
    rw [Frame.words, List.foldl_cons, hstep, foldl_payload _ _ rfl]
    simp [Frame.payload, Frame.requests]
  | update w htype | switch w htype =>
    have hne : getReqType w ≠ toRuntime := by
      rw [htype]
      decide
    simp [Frame.words, Frame.payload, Frame.requests, Parse.step, hne]

/-- A stream of frames is understood as PULP meant it. -/
theorem parse_frames (frames : List Frame) :
    parse (frames.flatMap Frame.words) =
      ⟨frames.flatMap Frame.payload, frames.flatMap Frame.requests, 0⟩ := by
  have hfold : ∀ (p : Parse), p.remaining = 0 →
      (frames.flatMap Frame.words).foldl Parse.step p =
        ⟨p.payload ++ frames.flatMap Frame.payload,
          p.requests ++ frames.flatMap Frame.requests, 0⟩ := by
    induction frames with
    | nil =>
      intro p hp
      obtain ⟨payload, requests, remaining⟩ := p
      simp only at hp
      simp [hp]
    | cons f frames ih =>
      intro p hp
      rw [List.flatMap_cons, List.foldl_append, foldl_frame p f hp, ih _ rfl]
      simp
  exact hfold Parse.start rfl

end Hero.Mbox
