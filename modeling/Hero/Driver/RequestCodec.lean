import Hero.Framework.BitField

/-!
# Request words across the system call

libpulp packs the configuration of a RAB slice and the direction of a DMA transfer into words with
`BF_SET`; the driver takes them apart with `BF_GET`. The words are `unsigned`, the masks
`unsigned long` of the side that computes them.
-/

namespace Hero.Driver.Request

open BitField

abbrev Word := BitVec 32
abbrev UChar := BitVec 8

/-- The C data models of the hosts: an application may have 32-bit longs under a 64-bit kernel. -/
inductive DataModel where
  | ilp32
  | lp64
  deriving DecidableEq, Repr

def DataModel.longBits : DataModel → Nat
  | .ilp32 => 32
  | .lp64 => 64

theorem DataModel.le_longBits (m : DataModel) : 32 ≤ m.longBits := by
  cases m <;> decide

/-! ### The macros -/

/-- `RAB_CONFIG_N_BITS_*` -/
def nBitsPort : Nat := 1
def nBitsAcp : Nat := 1
def nBitsLvl : Nat := 2
def nBitsProt : Nat := 3
def nBitsDate : Nat := 8

section Macros

variable (m : DataModel)

/-- `BF_SET` of an `unsigned char` in an `unsigned` -/
def setBits (request : Word) (x : UChar) (start len : Nat) : Word :=
  (bfSet (request.setWidth m.longBits) (x.setWidth m.longBits) start len).setWidth 32

/-- `BF_GET` of an `unsigned`, assigned to an `unsigned char` -/
def getBits (request : Word) (start len : Nat) : UChar :=
  ((request >>> start).setWidth m.longBits &&& bitMaskGen m.longBits len).setWidth 8

def rabGetFlagsHw (request : Word) : UChar := getBits m request 0 (nBitsProt + nBitsAcp)
def rabSetFlagsHw (request : Word) (flagsHw : UChar) : Word :=
  setBits m request flagsHw 0 (nBitsProt + nBitsAcp)

/-- The one getter without `BF_GET`. -/
def rabGetProt (request : Word) : UChar := (request &&& 0x7#32).setWidth 8
def rabSetProt (request : Word) (prot : UChar) : Word := setBits m request prot 0 nBitsProt

def rabGetAcp (request : Word) : UChar := getBits m request nBitsProt nBitsAcp
def rabSetAcp (request : Word) (useAcp : UChar) : Word := setBits m request useAcp nBitsProt nBitsAcp

def rabGetPort (request : Word) : UChar := getBits m request (nBitsProt + nBitsAcp) nBitsPort
def rabSetPort (request : Word) (port : UChar) : Word :=
  setBits m request port (nBitsProt + nBitsAcp) nBitsPort

def rabGetLvl (request : Word) : UChar :=
  getBits m request (nBitsProt + nBitsPort + nBitsAcp) nBitsLvl
def rabSetLvl (request : Word) (rabLvl : UChar) : Word :=
  setBits m request rabLvl (nBitsProt + nBitsPort + nBitsAcp) nBitsLvl

def rabGetDateExp (request : Word) : UChar :=
  getBits m request (nBitsProt + nBitsPort + nBitsAcp + nBitsLvl) nBitsDate
def rabSetDateExp (request : Word) (dateExp : UChar) : Word :=
  setBits m request dateExp (nBitsProt + nBitsPort + nBitsAcp + nBitsLvl) nBitsDate

def rabGetDateCur (request : Word) : UChar :=
  getBits m request (nBitsProt + nBitsPort + nBitsDate + nBitsAcp + nBitsLvl) nBitsDate
def rabSetDateCur (request : Word) (dateCur : UChar) : Word :=
  setBits m request dateCur (nBitsProt + nBitsPort + nBitsDate + nBitsAcp + nBitsLvl) nBitsDate

end Macros

section Bits

variable (m : DataModel) (request : Word)

theorem getLsbD_setBits (x : UChar) (start len : Nat) {j : Nat} (hj : j < 32) :
    (setBits m request x start len).getLsbD j =
      if start ≤ j ∧ j < start + len then x.getLsbD (j - start) else request.getLsbD j := by
  have hlong : j < m.longBits := lt_of_lt_of_le hj m.le_longBits
  have hlong' : j - start < m.longBits := by omega
  rw [setBits, BitVec.getLsbD_setWidth, getLsbD_bfSet _ _ _ _ hlong, BitVec.getLsbD_setWidth,
    BitVec.getLsbD_setWidth]
  simp [hj, hlong, hlong']

theorem getLsbD_getBits (start len : Nat) {j : Nat} (hj : j < 8) :
    (getBits m request start len).getLsbD j =
      (decide (j < len) && request.getLsbD (start + j)) := by
  have hlong : j < m.longBits := lt_of_lt_of_le hj (le_trans (by decide) m.le_longBits)
  rw [getBits, BitVec.getLsbD_setWidth, BitVec.getLsbD_and, BitVec.getLsbD_setWidth,
    BitVec.getLsbD_ushiftRight, getLsbD_bitMaskGen]
  by_cases hlen : j < len <;> simp [hj, hlong, hlen]

theorem rabGetProt_eq : rabGetProt request = getBits m request 0 nBitsProt := by
  apply BitVec.eq_of_getLsbD_eq
  intro j hj
  have hmask : (0x7#32 : Word) = bitMaskGen 32 3 := rfl
  rw [rabGetProt, BitVec.getLsbD_setWidth, BitVec.getLsbD_and, getLsbD_getBits m request _ _ hj,
    hmask, getLsbD_bitMaskGen, Nat.zero_add]
  have hword : j < 32 := by omega
  by_cases hlen : j < 3 <;> simp [nBitsProt, hj, hword, hlen]

end Bits

/-! ### The fields of a request -/

inductive RabField where
  | flagsHw
  | prot
  | acp
  | port
  | lvl
  | dateExp
  | dateCur
  deriving DecidableEq, Repr

namespace RabField

def start : RabField → Nat
  | flagsHw | prot => 0
  | acp => 3
  | port => 4
  | lvl => 5
  | dateExp => 7
  | dateCur => 15

def len : RabField → Nat
  | flagsHw => 4
  | prot => 3
  | acp | port => 1
  | lvl => 2
  | dateExp | dateCur => 8

/-- `RAB_SET_*` -/
def set (m : DataModel) : RabField → Word → UChar → Word
  | flagsHw => rabSetFlagsHw m
  | prot => rabSetProt m
  | acp => rabSetAcp m
  | port => rabSetPort m
  | lvl => rabSetLvl m
  | dateExp => rabSetDateExp m
  | dateCur => rabSetDateCur m

/-- `RAB_GET_*` -/
def get (m : DataModel) : RabField → Word → UChar
  | flagsHw => rabGetFlagsHw m
  | prot => rabGetProt
  | acp => rabGetAcp m
  | port => rabGetPort m
  | lvl => rabGetLvl m
  | dateExp => rabGetDateExp m
  | dateCur => rabGetDateCur m

/-- The hardware flags are the protection bits and the coherency flag. -/
def parts : RabField → List RabField
  | flagsHw => [prot, acp]
  | f => [f]

/-- The bits of the field. -/
def Holds (f : RabField) (j : Nat) : Prop := f.start ≤ j ∧ j < f.start + f.len

instance (f : RabField) (j : Nat) : Decidable (f.Holds j) :=
  inferInstanceAs (Decidable (_ ∧ _))

theorem set_eq (m : DataModel) (f : RabField) (request : Word) (x : UChar) :
    f.set m request x = setBits m request x f.start f.len := by
  cases f <;> rfl

theorem get_eq (m : DataModel) (f : RabField) (request : Word) :
    f.get m request = getBits m request f.start f.len := by
  cases f with
  | prot => exact rabGetProt_eq m request
  | _ => rfl

theorem getLsbD_set (m : DataModel) (f : RabField) (request : Word) (x : UChar) {j : Nat}
    (hj : j < 32) :
    (f.set m request x).getLsbD j =
      if f.Holds j then x.getLsbD (j - f.start) else request.getLsbD j := by
  rw [set_eq]
  exact getLsbD_setBits m request x f.start f.len hj

theorem getLsbD_get (m : DataModel) (f : RabField) (request : Word) {j : Nat} (hj : j < 8) :
    (f.get m request).getLsbD j = (decide (j < f.len) && request.getLsbD (f.start + j)) := by
  rw [get_eq]
  exact getLsbD_getBits m request f.start f.len hj

theorem end_le (f : RabField) : f.start + f.len ≤ 23 := by
  cases f <;> decide

/-- The setters of an order write every field. -/
def Complete (order : List RabField) : Prop := ∀ p, p ≠ flagsHw → ∃ f ∈ order, p ∈ f.parts

/-- Two fields that have no part in common. -/
def Apart (f g : RabField) : Prop := ∀ p ∈ f.parts, p ∉ g.parts

theorem ne_flagsHw_of_mem_parts {f p : RabField} (hp : p ∈ f.parts) : p ≠ flagsHw := by
  cases f <;> simp [parts] at hp <;> grind

theorem Holds.of_mem_parts {f p : RabField} {j : Nat} (hp : p ∈ f.parts) (h : p.Holds j) :
    f.Holds j := by
  obtain ⟨hstart, hend⟩ := h
  cases f <;> cases p <;> simp [parts, Holds, start, len] at * <;> omega

/-- A bit of a field is a bit of one of its parts. -/
theorem Holds.exists_part {f : RabField} {j : Nat} (h : f.Holds j) : ∃ p ∈ f.parts, p.Holds j := by
  cases f with
  | flagsHw =>
    by_cases hj : j < 3
    · exact ⟨prot, by decide, Nat.zero_le j, hj⟩
    · exact ⟨acp, by decide, Nat.le_of_not_lt hj, h.2⟩
  | _ => exact ⟨_, List.mem_singleton_self _, h⟩

/-- A bit of two fields is a bit of a part they share. -/
theorem exists_mem_parts {f g : RabField} {j : Nat} (hf : f.Holds j) (hg : g.Holds j) :
    ∃ p ∈ f.parts, p ∈ g.parts := by
  obtain ⟨hf, hf'⟩ := hf
  obtain ⟨hg, hg'⟩ := hg
  cases f <;> cases g <;> simp [parts, start, len] at * <;> omega

end RabField

/-- What a request says about a slice, each value as wide as its field. -/
structure RabFields where
  prot : BitVec 3
  acp : BitVec 1
  port : BitVec 1
  lvl : BitVec 2
  dateExp : BitVec 8
  dateCur : BitVec 8
  deriving DecidableEq, Repr

namespace RabFields

def value (r : RabFields) : RabField → UChar
  | .flagsHw => (r.acp ++ r.prot).setWidth 8
  | .prot => r.prot.setWidth 8
  | .acp => r.acp.setWidth 8
  | .port => r.port.setWidth 8
  | .lvl => r.lvl.setWidth 8
  | .dateExp => r.dateExp
  | .dateCur => r.dateCur

/-- The bits of a request in their order. -/
def packed (r : RabFields) : BitVec 23 :=
  r.dateCur ++ (r.dateExp ++ (r.lvl ++ (r.port ++ (r.acp ++ r.prot))))

/-- A word after setters in some order. -/
def build (m : DataModel) (r : RabFields) (order : List RabField) (word : Word) : Word :=
  order.foldl (fun word f => f.set m word (r.value f)) word

theorem getLsbD_value (r : RabFields) (f : RabField) {i : Nat} (hi : i < 8) :
    (r.value f).getLsbD i = (decide (i < f.len) && r.packed.getLsbD (f.start + i)) := by
  cases f <;> simp only [value, packed, RabField.start, RabField.len, BitVec.getLsbD_setWidth,
    BitVec.getLsbD_append, hi] <;> grind

variable (m : DataModel) (r : RabFields)

/-- A setter writes its bits of the packed request. -/
theorem getLsbD_set_value (f : RabField) (word : Word) {j : Nat} (hj : j < 32) :
    (f.set m word (r.value f)).getLsbD j =
      if f.Holds j then r.packed.getLsbD j else word.getLsbD j := by
  rw [RabField.getLsbD_set m f word _ hj]
  by_cases hf : f.Holds j
  · have hstart : f.start + (j - f.start) = j := Nat.add_sub_cancel' hf.1
    have hlen : j - f.start < f.len := by
      have hend := hf.2
      omega
    have hchar : j - f.start < 8 := lt_of_lt_of_le hlen (by cases f <;> decide)
    rw [if_pos hf, if_pos hf, getLsbD_value r f hchar, hstart, decide_eq_true hlen, Bool.true_and]
  · rw [if_neg hf, if_neg hf]

/-- After any setters the bits that they hold are those of the packed request. -/
theorem getLsbD_build (order : List RabField) (word : Word) {j : Nat} (hj : j < 32) :
    (build m r order word).getLsbD j =
      if ∃ f ∈ order, f.Holds j then r.packed.getLsbD j else word.getLsbD j := by
  induction order generalizing word with
  | nil => simp [build]
  | cons f order ih =>
    have hstep : build m r (f :: order) word = build m r order (f.set m word (r.value f)) := rfl
    rw [hstep, ih, getLsbD_set_value m r f word hj]
    by_cases hrest : ∃ g ∈ order, g.Holds j
    · have hsome : ∃ g ∈ f :: order, g.Holds j := by
        obtain ⟨g, hg, hbit⟩ := hrest
        exact ⟨g, List.mem_cons_of_mem f hg, hbit⟩
      rw [if_pos hrest, if_pos hsome]
    · rw [if_neg hrest]
      by_cases hf : f.Holds j
      · rw [if_pos hf, if_pos ⟨f, List.mem_cons_self, hf⟩]
      · rw [if_neg hf, if_neg]
        intro hsome
        obtain ⟨g, hg, hbit⟩ := hsome
        obtain heq | hmem := List.mem_cons.mp hg
        · exact hf (heq ▸ hbit)
        · exact hrest ⟨g, hmem, hbit⟩

/-- After setters that write every field, whatever the word was, each getter returns its field. -/
theorem get_build (kernel : DataModel) {order : List RabField} (horder : RabField.Complete order)
    (word : Word) (f : RabField) : f.get kernel (build m r order word) = r.value f := by
  apply BitVec.eq_of_getLsbD_eq
  intro i hi
  rw [RabField.getLsbD_get kernel f _ hi, getLsbD_value r f hi]
  by_cases hlen : i < f.len
  · have hend := f.end_le
    have hholds : f.Holds (f.start + i) := ⟨by omega, by omega⟩
    obtain ⟨p, hp, hbit⟩ := hholds.exists_part
    obtain ⟨g, hg, hpg⟩ := horder p (RabField.ne_flagsHw_of_mem_parts hp)
    have hword : f.start + i < 32 := by omega
    rw [getLsbD_build m r order word hword, if_pos ⟨g, hg, hbit.of_mem_parts hpg⟩]
  · rw [decide_eq_false hlen, Bool.false_and, Bool.false_and]

end RabFields

/-- A setter leaves the fields apart from its own as they were. -/
theorem RabField.get_set_of_apart (user kernel : DataModel) {f g : RabField} (h : f.Apart g)
    (word : Word) (x : UChar) : g.get kernel (f.set user word x) = g.get kernel word := by
  apply BitVec.eq_of_getLsbD_eq
  intro i hi
  rw [getLsbD_get kernel g _ hi, getLsbD_get kernel g _ hi]
  by_cases hlen : i < g.len
  · have hend := g.end_le
    have hword : g.start + i < 32 := by omega
    have hout : ¬f.Holds (g.start + i) := by
      intro hf
      obtain ⟨p, hp, hpg⟩ := exists_mem_parts hf (g := g) ⟨by omega, by omega⟩
      exact h p hp hpg
    rw [getLsbD_set user f word x hword, if_neg hout]
  · rw [decide_eq_false hlen, Bool.false_and, Bool.false_and]

/-! ### RAB requests -/

/-- `unsigned request[3]` -/
structure Words where
  word0 : Word
  word1 : Word
  word2 : Word
  deriving DecidableEq, Repr

/-- `pulp_rab_req` of libpulp -/
def pulpRabReq (m : DataModel) (addrStart sizeB : Word)
    (prot port dateExp dateCur useAcp rabLvl : UChar) : Words :=
  let request := 0#32
  let request := rabSetProt m request prot
  let request := rabSetAcp m request useAcp
  let request := rabSetPort m request port
  let request := rabSetLvl m request rabLvl
  let request := rabSetDateExp m request dateExp
  let request := rabSetDateCur m request dateCur
  ⟨request, addrStart, sizeB⟩

/-- The fields of the driver's `RabSliceReq` that the request determines -/
structure RabSliceReq where
  flagsHw : UChar
  rabPort : UChar
  rabLvl : UChar
  dateExp : UChar
  dateCur : UChar
  rabMapping : Word
  addrStart : Word
  addrEnd : Word
  deriving DecidableEq, Repr

/-- `PULP_IOCTL_RAB_REQ` of `pulp_ioctl` -/
def parseRabReq (m : DataModel) (request : Words) : RabSliceReq :=
  { flagsHw := rabGetFlagsHw m request.word0
    rabPort := rabGetPort m request.word0
    rabLvl := rabGetLvl m request.word0
    dateExp := rabGetDateExp m request.word0
    dateCur := rabGetDateCur m request.word0
    rabMapping := 0#32
    addrStart := request.word1
    addrEnd := request.word1 + request.word2 }

/-- The request that libpulp makes for the fields. -/
def RabFields.request (r : RabFields) (m : DataModel) (addrStart sizeB : Word) : Words :=
  pulpRabReq m addrStart sizeB (r.value .prot) (r.value .port) (r.value .dateExp) (r.value .dateCur)
    (r.value .acp) (r.value .lvl)

/-- The slice that the fields ask for. -/
def RabFields.slice (r : RabFields) (addrStart sizeB : Word) : RabSliceReq :=
  ⟨r.value .flagsHw, r.value .port, r.value .lvl, r.value .dateExp, r.value .dateCur, 0#32, addrStart,
    addrStart + sizeB⟩

/-- The order in which `pulp_rab_req` sets the fields -/
def rabReqOrder : List RabField := [.prot, .acp, .port, .lvl, .dateExp, .dateCur]

theorem rabReqOrder_complete : RabField.Complete rabReqOrder := by
  intro p hp
  cases p with
  | flagsHw => exact absurd rfl hp
  | _ => decide

theorem parseRabReq_request (user kernel : DataModel) (r : RabFields) (addrStart sizeB : Word) :
    parseRabReq kernel (r.request user addrStart sizeB) = r.slice addrStart sizeB := by
  have hget := r.get_build user kernel rabReqOrder_complete 0#32
  rw [parseRabReq, RabFields.slice, ← hget .flagsHw, ← hget .port, ← hget .lvl, ← hget .dateExp,
    ← hget .dateCur]
  rfl

/-! ### DMA requests -/

inductive Errno where
  | einval
  deriving DecidableEq, Repr

section Dma

variable (m : DataModel)

/-- `pulp_dma_xfer` -/
def pulpDmaXfer (addrL3 addrPulp sizeB : BitVec m.longBits) (hostRead : BitVec 32) :
    Except Errno Words :=
  if sizeB >>> 31 ≠ 0 then .error .einval
  else
    let sizeB := if hostRead ≠ 0 then bfSet sizeB 1 31 1 else sizeB
    .ok ⟨addrL3.setWidth 32, addrPulp.setWidth 32, sizeB.setWidth 32⟩

/-- What `pulp_ioctl` hands to `pulp_dma_xfer_async` -/
structure DmaXfer where
  addrL3 : Word
  addrPulp : Word
  sizeB : Word
  dmaCmd : UChar
  deriving DecidableEq, Repr

/-- `PULP_IOCTL_DMA_XFER_ASYNC` of `pulp_ioctl` -/
def parseDmaXfer (request : Words) : DmaXfer :=
  { addrL3 := request.word0
    addrPulp := request.word1
    sizeB := request.word2 &&& 0x7FFFFFFF#32
    dmaCmd := (request.word2 >>> 31).setWidth 8 }

variable {m} {sizeB : BitVec m.longBits}

/-- A size below 2^31 is accepted; the word has the size in its low bits and the direction above. -/
theorem pulpDmaXfer_eq_ok (addrL3 addrPulp : BitVec m.longBits) (hsize : sizeB.toNat < 2 ^ 31)
    (hostRead : BitVec 32) :
    ∃ request, pulpDmaXfer m addrL3 addrPulp sizeB hostRead = .ok request ∧
      ∀ j < 32, request.word2.getLsbD j =
        if j = 31 then decide (hostRead ≠ 0) else sizeB.getLsbD j := by
  have hlow : sizeB >>> 31 = 0 := by
    apply BitVec.eq_of_getLsbD_eq
    intro j _
    rw [BitVec.getLsbD_ushiftRight, getLsbD_of_lt hsize (by omega)]
    simp
  refine ⟨_, by rw [pulpDmaXfer, if_neg (not_not.mpr hlow)], ?_⟩
  intro j hj
  have hlong : j < m.longBits := lt_of_lt_of_le hj m.le_longBits
  rw [BitVec.getLsbD_setWidth, decide_eq_true hj, Bool.true_and]
  by_cases hread : hostRead ≠ 0
  · rw [if_pos hread, getLsbD_bfSet _ _ _ _ hlong]
    by_cases h31 : j = 31
    · subst h31
      have hpos : 0 < m.longBits := by omega
      rw [if_pos (by decide), if_pos rfl, decide_eq_true hread]
      simp [hpos]
    · have hout : ¬(31 ≤ j ∧ j < 31 + 1) := by omega
      rw [if_neg hout, if_neg h31]
  · rw [if_neg hread]
    by_cases h31 : j = 31
    · rw [if_pos h31, decide_eq_false hread, getLsbD_of_lt hsize (by omega)]
    · rw [if_neg h31]

/-- The driver takes the word apart into the size and the direction. -/
theorem parseDmaXfer_of_bits (request : Words) {dir : Bool} (hsize : sizeB.toNat < 2 ^ 31)
    (hword : ∀ j < 32, request.word2.getLsbD j = if j = 31 then dir else sizeB.getLsbD j) :
    (parseDmaXfer request).sizeB.toNat = sizeB.toNat ∧
      (parseDmaXfer request).dmaCmd = if dir then 1#8 else 0#8 := by
  constructor
  · have hlt : sizeB.toNat < 2 ^ 32 := by omega
    have heq : (parseDmaXfer request).sizeB = sizeB.setWidth 32 := by
      apply BitVec.eq_of_getLsbD_eq
      intro j hj
      have hmask : (0x7FFFFFFF#32 : Word) = bitMaskGen 32 31 := rfl
      rw [parseDmaXfer, BitVec.getLsbD_and, hword j hj, hmask, getLsbD_bitMaskGen,
        BitVec.getLsbD_setWidth, decide_eq_true hj, Bool.true_and]
      by_cases h31 : j = 31
      · rw [if_pos h31, getLsbD_of_lt hsize (by omega)]
        simp [h31]
      · have hmasked : j < 31 ∧ j < 32 := by omega
        rw [if_neg h31, decide_eq_true hmasked, Bool.and_true]
    rw [heq, BitVec.toNat_setWidth, Nat.mod_eq_of_lt hlt]
  · apply BitVec.eq_of_getLsbD_eq
    intro j hj
    rw [parseDmaXfer, BitVec.getLsbD_setWidth, BitVec.getLsbD_ushiftRight]
    by_cases h0 : j = 0
    · subst h0
      rw [hword 31 (by decide)]
      cases dir <;> rfl
    · rw [BitVec.getLsbD_of_ge _ _ (by omega)]
      cases dir <;> simp [h0]

end Dma

/-- Whatever the word was and in whatever order the fields are set, the driver decodes the fields that
libpulp set, and a setter changes no other field; a DMA request of a size below 2^31 is decoded to its
size and direction. -/
theorem request_codec (user kernel : DataModel) :
    (∀ (r : RabFields) (order : List RabField) (word : Word), RabField.Complete order →
      ∀ f, f.get kernel (r.build user order word) = r.value f) ∧
    (∀ (r : RabFields) (addrStart sizeB : Word),
      parseRabReq kernel (r.request user addrStart sizeB) = r.slice addrStart sizeB) ∧
    (∀ (f g : RabField) (word : Word) (x : UChar), f.Apart g →
      g.get kernel (f.set user word x) = g.get kernel word) ∧
    ∀ (addrL3 addrPulp sizeB : BitVec user.longBits) (hostRead : BitVec 32), sizeB.toNat < 2 ^ 31 →
      ∃ request, pulpDmaXfer user addrL3 addrPulp sizeB hostRead = .ok request ∧
        (parseDmaXfer request).sizeB.toNat = sizeB.toNat ∧
        (parseDmaXfer request).dmaCmd = if hostRead ≠ 0 then 1#8 else 0#8 := by
  refine ⟨?_, parseRabReq_request user kernel, ?_, ?_⟩
  · intro r order word horder f
    exact r.get_build user kernel horder word f
  · intro f g word x h
    exact RabField.get_set_of_apart user kernel h word x
  · intro addrL3 addrPulp sizeB hostRead hsize
    obtain ⟨request, hok, hbits⟩ := pulpDmaXfer_eq_ok addrL3 addrPulp hsize hostRead
    obtain ⟨hsizeB, hcmd⟩ := parseDmaXfer_of_bits request hsize hbits
    refine ⟨_, hok, hsizeB, ?_⟩
    rw [hcmd]
    simp

end Hero.Driver.Request
