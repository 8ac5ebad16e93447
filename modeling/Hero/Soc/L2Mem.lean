import Mathlib.Data.Nat.Log
import Mathlib.Tactic.Ring

/-!
# The L2 memory

`l2_mem` behind its AXI adapter: an array of memory cuts, of which a row answers a request, or the
single memory of the Xilinx variant.  Both hold the same bytes at the same addresses.  Bits and indices
that are `x` in a simulation are `none`.
-/

namespace Hero.Soc

/-! ### Parameters -/

/-- The parameters of `l2_mem` that its memory depends on. -/
structure L2Widths where
  axiAw : Nat
  axiDw : Nat
  nBytes : Nat

/-- Properties of one memory cut -/
def cutDw : Nat := 32
def cutNWords : Nat := 1024
def cutNBits : Nat := cutDw * cutNWords

namespace L2Widths

variable (p : L2Widths)

/-- Derived properties of the memory array, each an `int unsigned` -/
def nParCuts : Nat := p.axiDw / cutDw
def parCutsNBytes : Nat := p.nParCuts * cutNBits % 2 ^ 32 / 8
def nSerCuts : Nat := p.nBytes / p.parCutsNBytes

def wordIdxOff : Nat := Nat.clog 2 (p.axiDw / 8)
def wordIdxWidth : Nat := Nat.clog 2 cutNWords
def rowIdxOff : Nat := p.wordIdxOff + wordIdxWidth
def rowIdxWidth : Nat := Nat.clog 2 p.nSerCuts

/-- Derived properties of the Xilinx variant -/
def nWords : Nat := p.nBytes / (p.axiDw / 8)
def lineOff : Nat := Nat.clog 2 (p.axiDw / 8)

end L2Widths

/-- `a % b == 0`; a remainder by zero is `x`, and so is the comparison. -/
def Divides (b a : Nat) : Prop := b ≠ 0 ∧ a % b = 0

instance (b a : Nat) : Decidable (Divides b a) := inferInstanceAs (Decidable (_ ∧ _))

/-- `a % (2**$clog2(a)) == 0` with 32 bits. -/
def IsPowerOf2 (a : Nat) : Prop := Divides (2 ^ Nat.clog 2 a % 2 ^ 32) a

/-- Parameters that satisfy the elaboration assertions; those about the cuts alone are constants. -/
structure L2Params extends L2Widths where
  axiAw_lt : axiAw < 2 ^ 32
  axiDw_lt : axiDw < 2 ^ 32
  nBytes_lt : nBytes < 2 ^ 32
  axiAw_pos : 0 < axiAw
  axiAw_power : IsPowerOf2 axiAw
  axiDw_pos : 0 < axiDw
  axiDw_power : IsPowerOf2 axiDw
  nBytes_pos : 0 < nBytes
  nBytes_power : IsPowerOf2 nBytes
  cutDw_le : cutDw ≤ axiDw
  rows : Divides toL2Widths.parCutsNBytes nBytes

/-- The signals between the AXI adapter and the memory in one cycle. -/
structure Cycle (p : L2Params) where
  req : Bool
  we : Bool
  addr : BitVec p.axiAw
  wdata : BitVec p.axiDw
  be : BitVec (p.axiDw / 8)

/-! ### The two variants -/

/-- The index `addr[off +: width]`; bits behind the end of the address are `x`. -/
def partSelect {w : Nat} (addr : BitVec w) (off width : Nat) : Option Nat :=
  if off + width ≤ w then some (addr.toNat / 2 ^ off % 2 ^ width) else none

/-- `tc_sram` as it is simulated, with one port and a latency of one cycle. -/
structure TcSram where
  sram : Nat → Nat → Option Bool
  rAddrQ : Option Nat
  rdataQ : Nat → Option Bool

namespace TcSram

def read (s : TcSram) (addr : Option Nat) (j : Nat) : Option Bool := addr.bind fun a => s.sram a j

/-- A clock edge; a write to an index that is `x` has no effect. -/
def clock (s : TcSram) {dataWidth : Nat} (req we : Bool) (addr : Option Nat) (wdata : BitVec dataWidth)
    (be : BitVec (dataWidth / 8)) : TcSram where
  sram a j := if req ∧ we ∧ addr = some a ∧ be.getLsbD (j / 8) then some (wdata.getLsbD j)
    else s.sram a j
  rAddrQ := if req ∧ ¬ we then addr else s.rAddrQ
  rdataQ := s.read (if req ∧ ¬ we then addr else s.rAddrQ)

end TcSram

/-- The registers of the variant with an array of memory cuts, and the cuts by row and column. -/
structure CutArray where
  reqQ : Bool
  rowIdxQ : Option Nat
  cutAddrQ : Option Nat
  cuts : Nat → Nat → TcSram

namespace CutArray

variable {p : L2Params}

def rowIdxD (s : CutArray) (c : Cycle p) : Option Nat :=
  if c.req then partSelect c.addr p.rowIdxOff p.rowIdxWidth else s.rowIdxQ

def cutAddrD (s : CutArray) (c : Cycle p) : Option Nat :=
  if c.req then partSelect c.addr p.wordIdxOff L2Widths.wordIdxWidth else s.cutAddrQ

/-- `cut_req[row]`; without a row index the request goes to the only row. -/
def cutReq (s : CutArray) (c : Cycle p) (row : Nat) : Bool :=
  c.req && (p.rowIdxWidth == 0 || s.rowIdxD c == some row)

def clock (s : CutArray) (c : Cycle p) : CutArray where
  reqQ := c.req
  rowIdxQ := s.rowIdxD c
  cutAddrQ := s.cutAddrD c
  cuts row col := (s.cuts row col).clock (s.cutReq c row) c.we (s.cutAddrD c)
    (c.wdata.extractLsb' (cutDw * col) 32) (c.be.extractLsb' (cutDw / 8 * col) 4)

variable (p) in
/-- `rdata`, selected by the row of the last request. -/
def rdata (s : CutArray) (b : Nat) : Option Bool :=
  if p.rowIdxWidth = 0 then (s.cuts 0 (b / cutDw)).rdataQ (b % cutDw)
  else s.rowIdxQ.bind fun row => (s.cuts row (b / cutDw)).rdataQ (b % cutDw)

variable (p) in
/-- The address of the byte with bit `j` of a word. -/
def byteAddr (row word col j : Nat) : Nat :=
  (row * cutNWords + word) * (p.axiDw / 8) + (cutDw / 8 * col + j / 8)

variable (p) in
/-- After a reset, with given contents of the memory. -/
def start (mem : Nat → Nat → Option Bool) : CutArray where
  reqQ := false
  rowIdxQ := some 0
  cutAddrQ := some 0
  cuts row col := ⟨fun word j => mem (byteAddr p row word col j) (j % 8), some 0, fun _ => none⟩

end CutArray

/-- A memory with the ports of `xpm_memory_spram`: what its words hold, its output, and a clock edge with
`ena`, `wea`, `addra` and `dina`. -/
structure XpmSpram (dataWidth : Nat) where
  State : Type
  word : State → Nat → Nat → Option Bool
  douta : State → Nat → Option Bool
  clock : State → Bool → BitVec (dataWidth / 8) → Option Nat → BitVec dataWidth → State

/-- What is documented of it, with one cycle of latency and the write mode "no_change", at addresses that
are known: bytes are written by their enables, and without any enable the word is read. -/
structure XpmSpram.Documented {dataWidth : Nat} (X : XpmSpram dataWidth) : Prop where
  disabled : ∀ s wea addra dina, X.word (X.clock s false wea addra dina) = X.word s
  write : ∀ s wea a dina a' j, X.word (X.clock s true wea (some a) dina) a' j =
    if a' = a ∧ wea.getLsbD (j / 8) then some (dina.getLsbD j) else X.word s a' j
  read : ∀ s a dina j, X.douta (X.clock s true 0 (some a) dina) j = X.word s a j

/-- The Xilinx variant -/
structure XilinxMem {dataWidth : Nat} (X : XpmSpram dataWidth) where
  reqQ : Bool
  sram : X.State

/-- `we[j]` of the wrapper around the memory is `be[j] & we`. -/
def XilinxMem.clock {p : L2Params} {X : XpmSpram p.axiDw} (s : XilinxMem X) (c : Cycle p) :
    XilinxMem X where
  reqQ := c.req
  sram := X.clock s.sram c.req (if c.we then c.be else 0)
    (partSelect c.addr p.lineOff (Nat.clog 2 p.nWords)) c.wdata

/-! ### A flat memory -/

section Flat

variable {p : L2Params}

/-- The line of an address in the memory, which repeats every `N_BYTES` bytes. -/
def Cycle.line (c : Cycle p) : Nat := c.addr.toNat / (p.axiDw / 8) % (p.nBytes / (p.axiDw / 8))

/-- What a cycle writes to the byte `x`. -/
def Cycle.written (c : Cycle p) (x : Nat) : Option (BitVec 8) :=
  if c.req ∧ c.we ∧ x / (p.axiDw / 8) = c.line ∧ c.be.getLsbD (x % (p.axiDw / 8)) then
    some (c.wdata.extractLsb' (8 * (x % (p.axiDw / 8))) 8)
  else none

/-- The byte last written to `x` in a sequence of cycles. -/
def lastWritten (cs : List (Cycle p)) (x : Nat) : Option (BitVec 8) :=
  cs.reverse.findSome? (·.written x)

/-- A bit of a memory with the given contents at the start. -/
def content (mem : Nat → Nat → Option Bool) (cs : List (Cycle p)) (x i : Nat) : Option Bool :=
  (lastWritten cs x).elim (mem x i) fun byte => some (byte.getLsbD i)

/-- The byte with bit `b` of the data of an access. -/
def Cycle.byte (c : Cycle p) (b : Nat) : Nat := c.line * (p.axiDw / 8) + b / 8

/-- The contents of the words of the Xilinx variant as bytes. -/
def XilinxMem.contents {X : XpmSpram p.axiDw} (s : XilinxMem X) (x i : Nat) : Option Bool :=
  X.word s.sram (x / (p.axiDw / 8)) (8 * (x % (p.axiDw / 8)) + i)

end Flat

/-- The memory is a flat one: in the cycle after a read, whatever came before it, each variant returns
the bytes last written, and as what they were at the start those never written; the data of the variants
is the same but for bytes that are not written and differed at the start. -/
structure L2Params.Refines (p : L2Params) (X : XpmSpram p.axiDw) : Prop where
  cuts : ∀ mem (cs : List (Cycle p)) (r : Cycle p), r.req = true → r.we = false →
    ((cs.foldl CutArray.clock (CutArray.start p mem)).clock r).reqQ = true ∧
      ∀ b < p.axiDw, ((cs.foldl CutArray.clock (CutArray.start p mem)).clock r).rdata p b =
        content mem cs (r.byte b) (b % 8)
  xilinx : ∀ (s : XilinxMem X) (cs : List (Cycle p)) (r : Cycle p), r.req = true → r.we = false →
    ((cs.foldl XilinxMem.clock s).clock r).reqQ = true ∧
      ∀ b < p.axiDw, X.douta ((cs.foldl XilinxMem.clock s).clock r).sram b =
        content s.contents cs (r.byte b) (b % 8)
  same : ∀ mem (s : XilinxMem X) (cs : List (Cycle p)) (r : Cycle p), r.req = true → r.we = false →
    ∀ b < p.axiDw, ((lastWritten cs (r.byte b)).isSome ∨
        mem (r.byte b) (b % 8) = s.contents (r.byte b) (b % 8)) →
      ((cs.foldl CutArray.clock (CutArray.start p mem)).clock r).rdata p b =
        X.douta ((cs.foldl XilinxMem.clock s).clock r).sram b

/-! ### The shape of a memory -/

section Shape

variable {a e k x : Nat}

theorem IsPowerOf2.eq_pow (h : IsPowerOf2 a) (hpos : 0 < a) : a = 2 ^ Nat.clog 2 a := by
  obtain ⟨hne, hmod⟩ := h
  have hlt : Nat.clog 2 a < 32 := by
    by_contra hge
    exact hne (Nat.mod_eq_zero_of_dvd (Nat.pow_dvd_pow 2 (not_lt.mp hge)))
  rw [Nat.mod_eq_of_lt (Nat.pow_lt_pow_right (by decide) hlt)] at hmod
  have hle := Nat.le_of_dvd hpos (Nat.dvd_of_mod_eq_zero hmod)
  exact le_antisymm (Nat.le_pow_clog (by decide) a) hle

@[simp] theorem clog_two_pow (n : Nat) : Nat.clog 2 (2 ^ n) = n := Nat.clog_pow 2 n (by decide)

/-- The bits of a row, before they are taken modulo 2^32 -/
theorem row_bits {p : L2Widths} (hdw : p.axiDw = 2 ^ (e + 5)) :
    p.nParCuts * cutNBits = 2 ^ (e + 15) := by
  have hcuts : p.nParCuts = 2 ^ e := by
    rw [L2Widths.nParCuts, hdw, Nat.pow_add]
    exact Nat.mul_div_cancel _ (by decide)
  rw [hcuts, Nat.pow_add]
  rfl

theorem row_bytes {p : L2Widths} (hdw : p.axiDw = 2 ^ (e + 5)) (hfits : e < 17) :
    p.parCutsNBytes = 2 ^ (e + 12) := by
  have hlt : 2 ^ (e + 15) < 2 ^ 32 := Nat.pow_lt_pow_right (by decide) (by omega)
  rw [L2Widths.parCutsNBytes, row_bits hdw, Nat.mod_eq_of_lt hlt]
  exact Nat.pow_div (by omega : 3 ≤ e + 15) (by decide)

/-- A memory with 2^k rows of 2^e cuts. -/
structure L2Widths.Shape (p : L2Widths) (e k : Nat) : Prop where
  axiDw : p.axiDw = 2 ^ (e + 5)
  nBytes : p.nBytes = 2 ^ (k + 10 + (e + 2))
  fits : e < 17

theorem L2Params.exists_shape (p : L2Params) : ∃ e k, p.Shape e k := by
  have hdw := p.axiDw_power.eq_pow p.axiDw_pos
  have hbytes := p.nBytes_power.eq_pow p.nBytes_pos
  obtain ⟨hne, hmod⟩ := p.rows
  have hle := p.cutDw_le
  generalize Nat.clog 2 p.axiDw = d at hdw
  generalize Nat.clog 2 p.nBytes = n at hbytes
  have hd : 5 ≤ d := by
    rw [hdw] at hle
    exact (Nat.pow_le_pow_iff_right (by decide : 1 < 2)).mp hle
  obtain ⟨e, rfl⟩ := Nat.exists_eq_add_of_le' hd
  have hfits : e < 17 := by
    by_contra hge
    refine hne ?_
    have hzero : 2 ^ (e + 15) % 2 ^ 32 = 0 :=
      Nat.mod_eq_zero_of_dvd (Nat.pow_dvd_pow 2 (by omega))
    rw [L2Widths.parCutsNBytes, row_bits hdw, hzero]
  rw [row_bytes hdw hfits, hbytes] at hmod
  have hn : e + 12 ≤ n :=
    (Nat.pow_dvd_pow_iff_le_right (by decide)).mp (Nat.dvd_of_mod_eq_zero hmod)
  refine ⟨e, n - (e + 12), hdw, ?_, hfits⟩
  rw [hbytes]
  congr 1
  omega

namespace L2Widths.Shape

variable {p : L2Widths}

theorem nParCuts (h : p.Shape e k) : p.nParCuts = 2 ^ e := by
  rw [L2Widths.nParCuts, h.axiDw, Nat.pow_add]
  exact Nat.mul_div_cancel _ (by decide)

/-- The bytes of a line -/
theorem lane (h : p.Shape e k) : p.axiDw / 8 = 2 ^ (e + 2) := by
  rw [h.axiDw]
  exact Nat.pow_div (by omega : 3 ≤ e + 5) (by decide)

theorem lane_eq (h : p.Shape e k) : p.axiDw / 8 = 4 * p.nParCuts := by
  rw [h.lane, h.nParCuts, Nat.pow_add, Nat.mul_comm]

theorem axiDw_eq (h : p.Shape e k) : p.axiDw = 32 * p.nParCuts := by
  rw [h.axiDw, h.nParCuts, Nat.pow_add, Nat.mul_comm]

theorem lines (h : p.Shape e k) : p.nBytes / (p.axiDw / 8) = 2 ^ (k + 10) := by
  rw [h.lane, h.nBytes, Nat.pow_add]
  exact Nat.mul_div_cancel _ (Nat.two_pow_pos _)

theorem nSerCuts (h : p.Shape e k) : p.nSerCuts = 2 ^ k := by
  rw [L2Widths.nSerCuts, row_bytes h.axiDw h.fits, h.nBytes,
    show k + 10 + (e + 2) = k + (e + 12) by omega, Nat.pow_add]
  exact Nat.mul_div_cancel _ (Nat.two_pow_pos _)

theorem wordIdxOff (h : p.Shape e k) : p.wordIdxOff = e + 2 := by
  rw [L2Widths.wordIdxOff, h.lane, clog_two_pow]

theorem wordIdxWidth : L2Widths.wordIdxWidth = 10 := clog_two_pow 10

theorem rowIdxOff (h : p.Shape e k) : p.rowIdxOff = e + 2 + 10 := by
  rw [L2Widths.rowIdxOff, h.wordIdxOff, wordIdxWidth]

theorem rowIdxWidth (h : p.Shape e k) : p.rowIdxWidth = k := by
  rw [L2Widths.rowIdxWidth, h.nSerCuts, clog_two_pow]

theorem clog_nBytes (h : p.Shape e k) : Nat.clog 2 p.nBytes = k + 10 + (e + 2) := by
  rw [h.nBytes, clog_two_pow]

theorem clog_nWords (h : p.Shape e k) : Nat.clog 2 p.nWords = k + 10 := by
  rw [nWords, h.lines, clog_two_pow]

end L2Widths.Shape

end Shape

/-! ### The contents after a cycle -/

section Contents

variable {p : L2Params} {e k : Nat} {mem : Nat → Nat → Option Bool} {cs : List (Cycle p)} {c : Cycle p}
  {x i : Nat}

/-- What each cycle keeps, of the cycles so far and the state, holds after any further ones. -/
theorem foldl_history {σ ι : Type*} {clock : σ → ι → σ} (Holds : List ι → σ → Prop)
    (hclock : ∀ is s i, Holds is s → Holds (is ++ [i]) (clock s i)) {is : List ι} {s : σ}
    (h : Holds is s) (next : List ι) : Holds (is ++ next) (next.foldl clock s) := by
  induction next generalizing is s with
  | nil =>
    rw [List.append_nil]
    exact h
  | cons i next ih =>
    have hnext := ih (hclock is s i h)
    rw [List.append_assoc] at hnext
    exact hnext

theorem lastWritten_snoc : lastWritten (cs ++ [c]) x = (c.written x).or (lastWritten cs x) := by
  rw [lastWritten, List.reverse_append, List.findSome?_append]
  congr 1
  simp

/-- A cycle changes the bytes of its line that it writes, and no others. -/
theorem content_snoc (hi : i < 8) : content mem (cs ++ [c]) x i =
    if c.req ∧ c.we ∧ x / (p.axiDw / 8) = c.line ∧ c.be.getLsbD (x % (p.axiDw / 8)) then
      some (c.wdata.getLsbD (8 * (x % (p.axiDw / 8)) + i))
    else content mem cs x i := by
  rw [content, lastWritten_snoc, Cycle.written]
  split
  · simp [hi]
  · simp [content]

/-- The row of an address and its word in the row -/
def rowOf (e k addr : Nat) : Nat := addr / 2 ^ (e + 2 + 10) % 2 ^ k
def wordOf (e addr : Nat) : Nat := addr / 2 ^ (e + 2) % 1024

theorem Cycle.line_eq (h : p.Shape e k) (c : Cycle p) :
    c.line = rowOf e k c.addr.toNat * 1024 + wordOf e c.addr.toNat := by
  rw [rowOf, wordOf, line, h.lines, h.lane, Nat.pow_add 2 k 10, Nat.mul_comm (2 ^ k), Nat.mod_mul,
    Nat.pow_add 2 (e + 2), ← Nat.div_div_eq_div_mul]
  ring

theorem partSelect_eq {w off width : Nat} (addr : BitVec w) (h : off + width ≤ w) :
    partSelect addr off width = some (addr.toNat / 2 ^ off % 2 ^ width) := if_pos h

/-- Where a bit of a cut is in the flat memory -/
theorem CutArray.byteAddr_eq (h : p.Shape e k) (row word : Nat) {col j : Nat} (hcol : col < p.nParCuts)
    (hj : j < cutDw) : byteAddr p row word col j / (p.axiDw / 8) = row * 1024 + word ∧
      byteAddr p row word col j % (p.axiDw / 8) = 4 * col + j / 8 := by
  have hlane := h.lane_eq
  have hpos : 0 < p.axiDw / 8 := by omega
  refine (Nat.div_mod_unique hpos).mpr ⟨?_, ?_⟩
  · rw [byteAddr, cutNWords, cutDw]
    ring
  · unfold cutDw at hj
    omega

end Contents

/-! ### The array of memory cuts -/

namespace CutArray

/-- Each cut holds its part of the flat memory. -/
def Holds (p : L2Params) (mem : Nat → Nat → Option Bool) (cs : List (Cycle p)) (s : CutArray) : Prop :=
  ∀ row < p.nSerCuts, ∀ col < p.nParCuts, ∀ word < cutNWords, ∀ j < cutDw,
    (s.cuts row col).sram word j = content mem cs (byteAddr p row word col j) (j % 8)

section Accesses

variable {p : L2Params} {e k : Nat} {mem : Nat → Nat → Option Bool} {cs : List (Cycle p)} {c : Cycle p}
  {s : CutArray} {row word col j b : Nat}

theorem cutAddrD_eq (h : p.Shape e k) (hfit : k + 10 + (e + 2) ≤ p.axiAw) (hreq : c.req = true) :
    s.cutAddrD c = some (wordOf e c.addr.toNat) := by
  rw [cutAddrD, if_pos hreq, h.wordIdxOff, L2Widths.Shape.wordIdxWidth]
  exact partSelect_eq c.addr (by omega)

theorem rowIdxD_eq (h : p.Shape e k) (hfit : k + 10 + (e + 2) ≤ p.axiAw) (hreq : c.req = true) :
    s.rowIdxD c = some (rowOf e k c.addr.toNat) := by
  rw [rowIdxD, if_pos hreq, h.rowIdxOff, h.rowIdxWidth]
  exact partSelect_eq c.addr (by omega)

/-- A request reaches the cuts of its row. -/
theorem cutReq_iff (h : p.Shape e k) (hfit : k + 10 + (e + 2) ≤ p.axiAw) (hrow : row < p.nSerCuts) :
    s.cutReq c row = true ↔ c.req = true ∧ row = rowOf e k c.addr.toNat := by
  rw [cutReq, Bool.and_eq_true, and_congr_right_iff]
  intro hreq
  rw [rowIdxD_eq h hfit hreq, h.rowIdxWidth, Bool.or_eq_true, beq_iff_eq, beq_iff_eq,
    Option.some.injEq]
  rw [h.nSerCuts] at hrow
  constructor
  · rintro (rfl | heq)
    · rw [rowOf, Nat.pow_zero, Nat.mod_one]
      omega
    · exact heq.symm
  · intro heq
    exact Or.inr heq.symm

theorem start_holds (p : L2Params) (mem : Nat → Nat → Option Bool) : Holds p mem [] (start p mem) := by
  intro row _ col _ word _ j _
  rfl

/-- A cycle does to the cuts what it does to the flat memory. -/
theorem Holds.clock (h : p.Shape e k) (hfit : k + 10 + (e + 2) ≤ p.axiAw) (hs : s.Holds p mem cs)
    (c : Cycle p) : (s.clock c).Holds p mem (cs ++ [c]) := by
  intro row hrow col hcol word hword j hj
  obtain ⟨hline, hlane⟩ := byteAddr_eq h row word hcol hj
  rw [content_snoc (Nat.mod_lt j (by decide)), hline, hlane, c.line_eq h,
    ← hs row hrow col hcol word hword j hj]
  refine if_congr ?_ (congrArg some ?_) rfl
  · have henable : (c.be.extractLsb' (cutDw / 8 * col) 4).getLsbD (j / 8) =
        c.be.getLsbD (4 * col + j / 8) := by
      have hbyte : j / 8 < 4 := Nat.div_lt_of_lt_mul hj
      simp [hbyte, cutDw]
    rw [henable, cutReq_iff h hfit hrow, and_assoc, and_congr_right_iff]
    intro hreq
    rw [cutAddrD_eq h hfit hreq, Option.some.injEq]
    have hwordOf : wordOf e c.addr.toNat < 1024 := Nat.mod_lt _ (by decide)
    have hsplit : row * 1024 + word =
        rowOf e k c.addr.toNat * 1024 + wordOf e c.addr.toNat ↔
          row = rowOf e k c.addr.toNat ∧ wordOf e c.addr.toNat = word := by
      unfold cutNWords at hword
      omega
    rw [hsplit]
    constructor
    · rintro ⟨hrowOf, hwe, hwordOf, hbe⟩
      exact ⟨hwe, ⟨hrowOf, hwordOf⟩, hbe⟩
    · rintro ⟨hwe, ⟨hrowOf, hwordOf⟩, hbe⟩
      exact ⟨hrowOf, hwe, hwordOf, hbe⟩
  · have hbit : 8 * (4 * col + j / 8) + j % 8 = cutDw * col + j := by
      unfold cutDw
      omega
    unfold cutDw at hj
    simp [hbit, hj]

theorem Holds.run (h : p.Shape e k) (hfit : k + 10 + (e + 2) ≤ p.axiAw) (hs : s.Holds p mem cs)
    (next : List (Cycle p)) : (next.foldl CutArray.clock s).Holds p mem (cs ++ next) := by
  refine foldl_history (Holds p mem) ?_ hs next
  intro cs s c hs
  exact hs.clock h hfit c

/-- The data after a read -/
theorem Holds.rdata (h : p.Shape e k) (hfit : k + 10 + (e + 2) ≤ p.axiAw) (hs : s.Holds p mem cs)
    {r : Cycle p} (hreq : r.req = true) (hwe : r.we = false) (hb : b < p.axiDw) :
    (s.clock r).rdata p b = content mem cs (r.byte b) (b % 8) := by
  have hcol : b / cutDw < p.nParCuts := Nat.div_lt_of_lt_mul (h.axiDw_eq ▸ hb)
  have hbit : b % cutDw < cutDw := Nat.mod_lt _ (by decide)
  have hrow : rowOf e k r.addr.toNat < p.nSerCuts := by
    rw [h.nSerCuts]
    exact Nat.mod_lt _ (Nat.two_pow_pos k)
  have hword : wordOf e r.addr.toNat < cutNWords := Nat.mod_lt _ (by decide)
  have hcut : ((s.clock r).cuts (rowOf e k r.addr.toNat) (b / cutDw)).rdataQ (b % cutDw) =
      content mem cs (r.byte b) (b % 8) := by
    have hselected := (cutReq_iff (s := s) h hfit hrow).mpr ⟨hreq, rfl⟩
    change TcSram.read _ (if _ then _ else _) _ = _
    rw [if_pos ⟨hselected, by simp [hwe]⟩, cutAddrD_eq h hfit hreq]
    refine (hs _ hrow _ hcol _ hword _ hbit).trans ?_
    have hbyte : b / 8 = cutDw / 8 * (b / cutDw) + b % cutDw / 8 := by
      unfold cutDw
      omega
    have hmod : b % cutDw % 8 = b % 8 := by
      unfold cutDw
      omega
    rw [byteAddr, Cycle.byte, r.line_eq h, hbyte, hmod]
    rfl
  unfold CutArray.rdata
  split
  · next hwidth =>
    rw [h.rowIdxWidth] at hwidth
    have hzero : rowOf e k r.addr.toNat = 0 := by
      rw [rowOf, hwidth, Nat.pow_zero, Nat.mod_one]
    rw [hzero] at hcut
    exact hcut
  · rw [show (s.clock r).rowIdxQ = some (rowOf e k r.addr.toNat) from rowIdxD_eq h hfit hreq]
    exact hcut

end Accesses

end CutArray

/-! ### The Xilinx variant -/

namespace XilinxMem

section Accesses

variable {p : L2Params} {X : XpmSpram p.axiDw} {e k : Nat} {mem : Nat → Nat → Option Bool}
  {cs : List (Cycle p)} {c : Cycle p} {s : XilinxMem X} {b : Nat}

/-- The words hold the flat memory line by line. -/
def Holds (mem : Nat → Nat → Option Bool) (cs : List (Cycle p)) (s : XilinxMem X) : Prop :=
  ∀ line < p.nWords, ∀ b < p.axiDw,
    X.word s.sram line b = content mem cs (line * (p.axiDw / 8) + b / 8) (b % 8)

/-- The bytes of a line one after the other -/
theorem byte_eq (h : p.Shape e k) (line : Nat) (hb : b < p.axiDw) :
    (line * (p.axiDw / 8) + b / 8) / (p.axiDw / 8) = line ∧
      (line * (p.axiDw / 8) + b / 8) % (p.axiDw / 8) = b / 8 := by
  have hlane := h.lane_eq
  have hdw := h.axiDw_eq
  refine (Nat.div_mod_unique (by omega)).mpr ⟨by ring, ?_⟩
  omega

theorem partSelect_line (h : p.Shape e k) (hfit : k + 10 + (e + 2) ≤ p.axiAw) (c : Cycle p) :
    partSelect c.addr p.lineOff (Nat.clog 2 p.nWords) = some c.line := by
  rw [h.clog_nWords, show p.lineOff = e + 2 from h.wordIdxOff, partSelect_eq c.addr (by omega),
    Cycle.line, h.lines, h.lane]

theorem start_holds (h : p.Shape e k) (s : XilinxMem X) : s.Holds s.contents [] := by
  intro line _ b hb
  obtain ⟨hline, hlane⟩ := byte_eq h line hb
  change _ = X.word s.sram _ _
  rw [hline, hlane, Nat.div_add_mod]

/-- A cycle does to the words what it does to the flat memory. -/
theorem Holds.clock (hX : X.Documented) (h : p.Shape e k) (hfit : k + 10 + (e + 2) ≤ p.axiAw)
    (hs : s.Holds mem cs) (c : Cycle p) : (s.clock c).Holds mem (cs ++ [c]) := by
  intro line hline b hb
  obtain ⟨hdiv, hmod⟩ := byte_eq h line hb
  rw [content_snoc (Nat.mod_lt b (by decide)), hdiv, hmod, Nat.div_add_mod, ← hs line hline b hb]
  unfold XilinxMem.clock
  dsimp only
  rw [partSelect_line h hfit]
  cases hreq : c.req with
  | false => simp [hX.disabled]
  | true =>
    rw [hX.write]
    refine if_congr ?_ rfl rfl
    cases c.we <;> simp

theorem Holds.run (hX : X.Documented) (h : p.Shape e k) (hfit : k + 10 + (e + 2) ≤ p.axiAw)
    (hs : s.Holds mem cs) (next : List (Cycle p)) :
    (next.foldl XilinxMem.clock s).Holds mem (cs ++ next) := by
  refine foldl_history (Holds mem) ?_ hs next
  intro cs s c hs
  exact hs.clock hX h hfit c

/-- The data after a read -/
theorem Holds.douta (hX : X.Documented) (h : p.Shape e k) (hfit : k + 10 + (e + 2) ≤ p.axiAw)
    (hs : s.Holds mem cs) {r : Cycle p} (hreq : r.req = true) (hwe : r.we = false)
    (hb : b < p.axiDw) : X.douta (s.clock r).sram b = content mem cs (r.byte b) (b % 8) := by
  have hline : r.line < p.nWords := by
    rw [Cycle.line, L2Widths.nWords, h.lines]
    exact Nat.mod_lt _ (Nat.two_pow_pos _)
  refine Eq.trans ?_ (hs r.line hline b hb)
  unfold XilinxMem.clock
  dsimp only
  rw [partSelect_line h hfit, hreq, hwe]
  exact hX.read s.sram r.line r.wdata b

end Accesses

end XilinxMem

/-! ### The memory -/

section Memory

variable {p : L2Params} {X : XpmSpram p.axiDw} {e k : Nat}

/-- Where the address has all bits of the indices, both variants are the flat memory. -/
theorem L2Params.refines (hX : X.Documented) (h : p.Shape e k) (hfit : k + 10 + (e + 2) ≤ p.axiAw) :
    p.Refines X := by
  have hcuts : ∀ mem (cs : List (Cycle p)) (r : Cycle p), r.req = true → r.we = false →
      ∀ b < p.axiDw, ((cs.foldl CutArray.clock (CutArray.start p mem)).clock r).rdata p b =
        content mem cs (r.byte b) (b % 8) := by
    intro mem cs r hreq hwe b hb
    exact ((CutArray.start_holds p mem).run h hfit cs).rdata h hfit hreq hwe hb
  have hxilinx : ∀ (s : XilinxMem X) (cs : List (Cycle p)) (r : Cycle p), r.req = true →
      r.we = false → ∀ b < p.axiDw, X.douta ((cs.foldl XilinxMem.clock s).clock r).sram b =
        content s.contents cs (r.byte b) (b % 8) := by
    intro s cs r hreq hwe b hb
    exact ((XilinxMem.start_holds h s).run hX h hfit cs).douta hX h hfit hreq hwe hb
  constructor
  · intro mem cs r hreq hwe
    exact ⟨hreq, hcuts mem cs r hreq hwe⟩
  · intro s cs r hreq hwe
    exact ⟨hreq, hxilinx s cs r hreq hwe⟩
  · intro mem s cs r hreq hwe b hb hsame
    rw [hcuts mem cs r hreq hwe b hb, hxilinx s cs r hreq hwe b hb, content, content]
    rcases hsame with hwritten | hstart
    · obtain ⟨byte, hbyte⟩ := Option.isSome_iff_exists.mp hwritten
      rw [hbyte]
      rfl
    · rw [hstart]

/-- Without them a row or a word is selected by an index that is `x`. -/
theorem CutArray.rdata_unknown (h : p.Shape e k) (hfit : p.axiAw < k + 10 + (e + 2)) (s : CutArray)
    {r : Cycle p} (hreq : r.req = true) (hwe : r.we = false) (b : Nat) :
    (s.clock r).rdata p b = none := by
  unfold CutArray.rdata
  split
  · next hwidth =>
    have hword : s.cutAddrD r = none := by
      rw [h.rowIdxWidth] at hwidth
      rw [cutAddrD, if_pos hreq, h.wordIdxOff, L2Widths.Shape.wordIdxWidth]
      exact if_neg (by omega)
    have hselected : s.cutReq r 0 = true := by
      rw [cutReq, hreq, hwidth]
      rfl
    change TcSram.read _ (if _ then _ else _) _ = _
    rw [if_pos ⟨hselected, by simp [hwe]⟩, hword]
    rfl
  · have hrow : s.rowIdxD r = none := by
      rw [rowIdxD, if_pos hreq, h.rowIdxOff, h.rowIdxWidth]
      exact if_neg (by omega)
    rw [show (s.clock r).rowIdxQ = none from hrow]
    rfl

end Memory

/-- Both variants are the flat memory if and only if an address reaches each of its bytes. -/
theorem l2_mem_refines_iff (p : L2Params) (X : XpmSpram p.axiDw) (hX : X.Documented) :
    p.Refines X ↔ Nat.clog 2 p.nBytes ≤ p.axiAw := by
  obtain ⟨e, k, h⟩ := p.exists_shape
  rw [h.clog_nBytes]
  constructor
  · intro hrefines
    by_contra hfit
    let r : Cycle p := ⟨true, false, 0, 0, 0⟩
    have hread := (hrefines.cuts (fun _ _ => some false) [] r rfl rfl).2 0 p.axiDw_pos
    rw [CutArray.rdata_unknown h (not_le.mp hfit) _ rfl rfl] at hread
    cases hread
  · intro hfit
    exact L2Params.refines hX h hfit

/-- A block RAM that holds its output in cycles without a read. -/
def blockRam (dataWidth : Nat) : XpmSpram dataWidth where
  State := (Nat → Nat → Option Bool) × (Nat → Option Bool)
  word s := s.1
  douta s := s.2
  clock s ena wea addra dina :=
    (fun a j => if ena ∧ addra = some a ∧ wea.getLsbD (j / 8) then some (dina.getLsbD j) else s.1 a j,
      fun j => if ena ∧ wea = 0 then addra.bind fun a => s.1 a j else s.2 j)

theorem blockRam_documented (dataWidth : Nat) : (blockRam dataWidth).Documented := by
  constructor
  · intro s wea addra dina
    simp [blockRam]
  · intro s wea a dina a' j
    rcases eq_or_ne a' a with rfl | hne
    · simp [blockRam]
    · simp [blockRam, hne, hne.symm]
  · intro s a dina j
    simp [blockRam]

theorem isPowerOf2_pow {n : Nat} (hn : n < 32) : IsPowerOf2 (2 ^ n) := by
  have hlt : 2 ^ n < 2 ^ 32 := Nat.pow_lt_pow_right (by decide) hn
  rw [IsPowerOf2, clog_two_pow, Nat.mod_eq_of_lt hlt]
  exact ⟨(Nat.two_pow_pos n).ne', Nat.mod_self _⟩

/-- The memory as it is instantiated in `pulp`, with 2^n bits of address -/
def pulpL2 (n : Nat) (hn : n < 32) : L2Params where
  axiAw := 2 ^ n
  axiDw := 2 ^ 8
  nBytes := 2 ^ 17
  axiAw_lt := Nat.pow_lt_pow_right (by decide) hn
  axiDw_lt := by decide
  nBytes_lt := by decide
  axiAw_pos := Nat.two_pow_pos n
  axiAw_power := isPowerOf2_pow hn
  axiDw_pos := by decide
  axiDw_power := isPowerOf2_pow (by decide)
  nBytes_pos := by decide
  nBytes_power := isPowerOf2_pow (by decide)
  cutDw_le := show 32 ≤ 2 ^ 8 by decide
  rows := by
    rw [row_bytes (e := 3) rfl (by decide)]
    decide

theorem l2_mem_refines_pulp :
    (pulpL2 6 (by decide)).Refines (blockRam _) ↔ Nat.clog 2 (2 ^ 17) ≤ 2 ^ 6 :=
  l2_mem_refines_iff (pulpL2 6 (by decide)) (blockRam _) (blockRam_documented _)

/-- With 16 bits of address the 17 bits of a byte address do not fit, and every read returns `x`. -/
theorem l2_mem_not_refines : ¬ (pulpL2 4 (by decide)).Refines (blockRam _) := by
  intro hrefines
  have hshape : (pulpL2 4 (by decide)).Shape 3 2 := ⟨rfl, rfl, by decide⟩
  let r : Cycle (pulpL2 4 (by decide)) := ⟨true, false, 0, 0, 0⟩
  have hread := (hrefines.cuts (fun _ _ => some false) [] r rfl rfl).2 0 (by decide)
  rw [CutArray.rdata_unknown hshape (by decide) _ rfl rfl] at hread
  cases hread

end Hero.Soc
