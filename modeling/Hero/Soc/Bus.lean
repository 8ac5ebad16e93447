import Mathlib.Data.Nat.Log
import Mathlib.Tactic.Ring
import Mathlib.Tactic.Linarith

/-!
# Address map of the SoC bus

The rules with which `soc_bus` configures its crossbar, the vendored decoder that reads them and
the master ports that hang on the selected index.  The decoder excludes the end address of a rule;
the rules name the last byte of their regions.
-/

namespace Hero.Soc

/-- `axi_pkg::xbar_rule_64_t`. -/
structure Rule where
  idx : Nat
  startAddr : BitVec 64
  endAddr : BitVec 64
  deriving DecidableEq

def Rule.Matches (r : Rule) (addr : BitVec 64) : Prop := r.startAddr ≤ addr ∧ addr < r.endAddr

instance (r : Rule) (addr : BitVec 64) : Decidable (r.Matches addr) :=
  inferInstanceAs (Decidable (_ ∧ _))

/-- `cf_math_pkg::idx_width`. -/
def idxWidth (numIdx : Nat) : Nat := if 1 < numIdx then Nat.clog 2 numIdx else 1

/-- `addr_decode` without a default index: `none` is `dec_error_o`, and of several matching rules
the one with the highest position wins. -/
def addrDecode (noIndices : Nat) (addrMap : List Rule) (addr : BitVec 64) : Option Nat :=
  addrMap.foldl (fun idx r => if r.Matches addr then some (r.idx % 2 ^ idxWidth noIndices) else idx)
    none

/-- The parameters of `soc_bus`, all `int unsigned`, as is the number of rules. -/
structure Bus where
  nClusters : Nat
  l2NPorts : Nat
  l2NBytesPerPort : Nat
  bytes_lt : l2NBytesPerPort < 2 ^ 32
  rules_lt : nClusters + l2NPorts + 5 < 2 ^ 32

/-- The external master ports. -/
inductive Port where
  | clMst (i : Nat)
  | l2Mst (i : Nat)
  | rabMst
  | mboxHostMst
  | mboxPulpMst
  deriving DecidableEq, Repr

namespace Bus

def nMasters (b : Bus) : Nat := b.nClusters + b.l2NPorts + 3
def idxL2Mem (b : Bus) : Nat := b.nClusters
def idxRab (b : Bus) : Nat := b.idxL2Mem + 1
def idxMboxHost (b : Bus) : Nat := b.idxRab + 1
def idxMboxPulp (b : Bus) : Nat := b.idxMboxHost + 1

/-- The `AXI_ASSIGN`s between the external ports and the array `masters`. -/
def wiring (b : Bus) : List (Port × Nat) :=
  (List.range b.nClusters).map (fun i => (.clMst i, i)) ++
    (List.range b.l2NPorts).map (fun i => (.l2Mst i, b.idxL2Mem + i)) ++
    [(.rabMst, b.idxRab), (.mboxHostMst, b.idxMboxHost), (.mboxPulpMst, b.idxMboxPulp)]

def mboxLen : BitVec 64 := 0x1000
def mboxPulpBaseAddr : BitVec 64 := 0x1B800000
def mboxHostBaseAddr : BitVec 64 := mboxPulpBaseAddr + mboxLen

def clusterRule (i : Nat) : Rule where
  idx := i
  startAddr := 0x10000000 + BitVec.ofNat 64 i * 0x00400000
  endAddr := 0x10000000 + BitVec.ofNat 64 i * 0x00400000 + 0x002FFFFF

def l2Rule (b : Bus) (i : Nat) : Rule where
  idx := b.idxL2Mem + i
  startAddr := 0x1C000000 + BitVec.ofNat 64 i * BitVec.ofNat 64 b.l2NBytesPerPort
  endAddr := 0x1C000000 + BitVec.ofNat 64 (i + 1) * BitVec.ofNat 64 b.l2NBytesPerPort - 1

/-- The array `addr_map`, lowest position first. -/
def addrMap (b : Bus) : List Rule :=
  [⟨b.idxRab, 0x0000000000000000, 0x000000000FFFFFFF⟩] ++
    (List.range b.nClusters).map clusterRule ++
    [⟨b.idxRab, 0x000000001A000000, 0x000000001AFFFFFF⟩,
      ⟨b.idxMboxPulp, mboxPulpBaseAddr, mboxPulpBaseAddr + mboxLen - 1⟩,
      ⟨b.idxMboxHost, mboxHostBaseAddr, mboxHostBaseAddr + mboxLen - 1⟩] ++
    (List.range b.l2NPorts).map b.l2Rule ++
    [⟨b.idxRab, 0x1C000000 + BitVec.ofNat 64 b.l2NPorts * BitVec.ofNat 64 b.l2NBytesPerPort,
      0xFFFFFFFFFFFFFFFF⟩]

def decode (b : Bus) (addr : BitVec 64) : Option Nat := addrDecode b.nMasters b.addrMap addr

end Bus

/-- The documented regions of the address map. -/
inductive Region where
  | belowClusters
  | cluster (i : Nat)
  | rab
  | mboxPulp
  | mboxHost
  | l2Port (i : Nat)
  | aboveL2
  deriving DecidableEq, Repr

namespace Region

def Exists (b : Bus) : Region → Prop
  | .cluster i => i < b.nClusters
  | .l2Port i => i < b.l2NPorts
  | _ => True

/-- The first byte of a region. -/
def start (b : Bus) : Region → Nat
  | .belowClusters => 0
  | .cluster i => 0x10000000 + i * 0x00400000
  | .rab => 0x1A000000
  | .mboxPulp => 0x1B800000
  | .mboxHost => 0x1B801000
  | .l2Port i => 0x1C000000 + i * b.l2NBytesPerPort
  | .aboveL2 => 0x1C000000 + b.l2NPorts * b.l2NBytesPerPort

/-- The byte behind a region. -/
def stop (b : Bus) : Region → Nat
  | .belowClusters => 0x10000000
  | .cluster i => 0x10000000 + i * 0x00400000 + 0x00300000
  | .rab => 0x1B000000
  | .mboxPulp => 0x1B801000
  | .mboxHost => 0x1B802000
  | .l2Port i => 0x1C000000 + (i + 1) * b.l2NBytesPerPort
  | .aboveL2 => 2 ^ 64

def port : Region → Port
  | .belowClusters | .rab | .aboveL2 => .rabMst
  | .cluster i => .clMst i
  | .mboxPulp => .mboxPulpMst
  | .mboxHost => .mboxHostMst
  | .l2Port i => .l2Mst i

def Contains (b : Bus) (r : Region) (addr : BitVec 64) : Prop :=
  r.start b ≤ addr.toNat ∧ addr.toNat < r.stop b

def IsLastByte (b : Bus) (r : Region) (addr : BitVec 64) : Prop := addr.toNat + 1 = r.stop b

/-- The rule of a region. -/
def rule (b : Bus) : Region → Rule
  | .belowClusters => ⟨b.idxRab, 0x0000000000000000, 0x000000000FFFFFFF⟩
  | .cluster i => Bus.clusterRule i
  | .rab => ⟨b.idxRab, 0x000000001A000000, 0x000000001AFFFFFF⟩
  | .mboxPulp => ⟨b.idxMboxPulp, Bus.mboxPulpBaseAddr, Bus.mboxPulpBaseAddr + Bus.mboxLen - 1⟩
  | .mboxHost => ⟨b.idxMboxHost, Bus.mboxHostBaseAddr, Bus.mboxHostBaseAddr + Bus.mboxLen - 1⟩
  | .l2Port i => b.l2Rule i
  | .aboveL2 =>
    ⟨b.idxRab, 0x1C000000 + BitVec.ofNat 64 b.l2NPorts * BitVec.ofNat 64 b.l2NBytesPerPort,
      0xFFFFFFFFFFFFFFFF⟩

end Region

/-- No two regions of the map overlap. -/
def Bus.RegionsDisjoint (b : Bus) : Prop :=
  ∀ r r' : Region, r.Exists b → r'.Exists b → r ≠ r' →
    r.stop b ≤ r'.start b ∨ r'.stop b ≤ r.start b

/-- The decoder selects a master index on which the port of the region hangs, and no other. -/
def Bus.Selects (b : Bus) (r : Region) (addr : BitVec 64) : Prop :=
  ∃ idx, b.decode addr = some idx ∧ idx < b.nMasters ∧
    ∀ port, (port, idx) ∈ b.wiring ↔ port = r.port

/-- The index of a port is not the index of another one: `IDX_RAB` and the mailboxes follow the
first L2 port, not the last. -/
def Port.Unshared (b : Bus) : Port → Prop
  | .clMst _ => True
  | .l2Mst i => i = 0 ∨ 3 < i
  | .rabMst => b.l2NPorts ≤ 1
  | .mboxHostMst => b.l2NPorts ≤ 2
  | .mboxPulpMst => 1 ≤ b.l2NPorts ∧ b.l2NPorts ≤ 3

section Decoder

variable {n : Nat} {rules : List Rule} {addr : BitVec 64} {r : Rule}

/-- Rules that do not match leave the index alone. -/
theorem addrDecode_none (h : ∀ r ∈ rules, ¬ r.Matches addr) : addrDecode n rules addr = none := by
  unfold addrDecode
  induction rules with
  | nil => rfl
  | cons r rules ih =>
    rw [List.foldl_cons, if_neg (h r (by simp))]
    exact ih fun r' hr' => h r' (by simp [hr'])

/-- The only rule that matches is selected. -/
theorem addrDecode_unique (hr : r ∈ rules) (hmatch : r.Matches addr)
    (honly : ∀ r' ∈ rules, r'.Matches addr → r' = r) :
    addrDecode n rules addr = some (r.idx % 2 ^ idxWidth n) := by
  have hkeep : ∀ (l : List Rule), (∀ r' ∈ l, r'.Matches addr → r' = r) →
      l.foldl (fun idx r => if r.Matches addr then some (r.idx % 2 ^ idxWidth n) else idx)
        (some (r.idx % 2 ^ idxWidth n)) = some (r.idx % 2 ^ idxWidth n) := by
    intro l hl
    induction l with
    | nil => rfl
    | cons x l ih =>
      rw [List.foldl_cons]
      by_cases hx : x.Matches addr
      · rw [if_pos hx, hl x (by simp) hx]
        exact ih fun r' hr' => hl r' (by simp [hr'])
      · rw [if_neg hx]
        exact ih fun r' hr' => hl r' (by simp [hr'])
  obtain ⟨before, after, rfl⟩ := List.append_of_mem hr
  unfold addrDecode
  rw [List.foldl_append, List.foldl_cons, if_pos hmatch]
  exact hkeep after fun r' hr' => honly r' (by simp [hr'])

theorem lt_two_pow_idxWidth {k : Nat} (h : k < n) : k < 2 ^ idxWidth n := by
  unfold idxWidth
  split
  · exact h.trans_le (Nat.le_pow_clog (by decide) n)
  · omega

end Decoder

variable {b : Bus} {r r' : Region} {addr : BitVec 64}

/-- The rules of the map are those of its regions. -/
theorem mem_addrMap {rule : Rule} : rule ∈ b.addrMap ↔ ∃ r : Region, r.Exists b ∧ r.rule b = rule := by
  simp only [Bus.addrMap, List.mem_append, List.mem_cons, List.not_mem_nil, or_false, List.mem_map,
    List.mem_range]
  constructor
  · intro h
    rcases h with (((h | h) | h | h | h) | h) | h
    · exact ⟨.belowClusters, trivial, h.symm⟩
    · obtain ⟨i, hi, h⟩ := h
      exact ⟨.cluster i, hi, h⟩
    · exact ⟨.rab, trivial, h.symm⟩
    · exact ⟨.mboxPulp, trivial, h.symm⟩
    · exact ⟨.mboxHost, trivial, h.symm⟩
    · obtain ⟨i, hi, h⟩ := h
      exact ⟨.l2Port i, hi, h⟩
    · exact ⟨.aboveL2, trivial, h.symm⟩
  · intro h
    obtain ⟨r, hr, rfl⟩ := h
    cases r with
    | belowClusters => simp [Region.rule]
    | cluster i => exact Or.inl (Or.inl (Or.inl (Or.inr ⟨i, hr, rfl⟩)))
    | rab => simp [Region.rule]
    | mboxPulp => simp [Region.rule]
    | mboxHost => simp [Region.rule]
    | l2Port i => exact Or.inl (Or.inr ⟨i, hr, rfl⟩)
    | aboveL2 => simp [Region.rule]

/-- More clusters would run into the window of the RAB. -/
theorem Bus.RegionsDisjoint.nClusters_le (h : b.RegionsDisjoint) : b.nClusters ≤ 40 := by
  by_contra hmany
  have hlt : 40 < b.nClusters := by omega
  have hdisj := h (.cluster 40) .rab hlt trivial (by simp)
  simp only [Region.start, Region.stop] at hdisj
  omega

/-- A run of L2 ports ends within the address space. -/
private theorem l2_end_lt (b : Bus) {i : Nat} (hi : i ≤ b.l2NPorts) :
    0x1C000000 + i * b.l2NBytesPerPort < 2 ^ 64 := by
  have hbytes := b.bytes_lt
  have hrules := b.rules_lt
  have hmul : i * b.l2NBytesPerPort ≤ (2 ^ 32 - 5) * (2 ^ 32 - 1) :=
    Nat.mul_le_mul (by omega) (by omega)
  omega

private theorem l2_end_toNat (b : Bus) {i : Nat} (hi : i ≤ b.l2NPorts) :
    (0x1C000000 + BitVec.ofNat 64 i * BitVec.ofNat 64 b.l2NBytesPerPort : BitVec 64).toNat =
      0x1C000000 + i * b.l2NBytesPerPort := by
  have hlt := l2_end_lt b hi
  rw [← BitVec.ofNat_mul]
  generalize i * b.l2NBytesPerPort = m at *
  bv_omega

/-- The rule of a region matches the region without its last byte. -/
theorem rule_matches_iff (hn : b.nClusters ≤ 40) (hr : r.Exists b) :
    (r.rule b).Matches addr ↔ r.Contains b addr ∧ ¬ r.IsLastByte b addr := by
  simp only [Rule.Matches, Region.Contains, Region.IsLastByte]
  cases r with
  | belowClusters =>
    simp only [Region.rule, Region.start, Region.stop]
    bv_omega
  | cluster i =>
    have hi : i < 40 := lt_of_lt_of_le hr hn
    simp only [Region.rule, Bus.clusterRule, Region.start, Region.stop]
    bv_omega
  | rab =>
    simp only [Region.rule, Region.start, Region.stop]
    bv_omega
  | mboxPulp =>
    simp only [Region.rule, Bus.mboxPulpBaseAddr, Bus.mboxLen, Region.start, Region.stop]
    bv_omega
  | mboxHost =>
    simp only [Region.rule, Bus.mboxHostBaseAddr, Bus.mboxPulpBaseAddr, Bus.mboxLen, Region.start,
      Region.stop]
    bv_omega
  | l2Port i =>
    have hi : i < b.l2NPorts := hr
    have hlow := l2_end_toNat b hi.le
    have hhigh := l2_end_toNat b (Nat.succ_le_of_lt hi)
    have hlt := l2_end_lt b (Nat.succ_le_of_lt hi)
    simp only [Region.rule, Bus.l2Rule, Region.start, Region.stop, Nat.succ_eq_add_one] at *
    bv_omega
  | aboveL2 =>
    have hlow := l2_end_toNat b le_rfl
    simp only [Region.rule, Region.start, Region.stop]
    bv_omega

/-- The windows of up to 40 clusters lie below the window of the RAB. -/
theorem regionsDisjoint_iff (b : Bus) : b.RegionsDisjoint ↔ b.nClusters ≤ 40 := by
  refine ⟨Bus.RegionsDisjoint.nClusters_le, ?_⟩
  intro hn r r' hr hr' hne
  have hports : ∀ i j, i < j → (i + 1) * b.l2NBytesPerPort ≤ j * b.l2NBytesPerPort :=
    fun i j hij => Nat.mul_le_mul_right _ hij
  have hend := l2_end_lt b le_rfl
  cases r <;> cases r' <;>
    simp only [Region.Exists, Region.start, Region.stop, ne_eq, Region.cluster.injEq,
      Region.l2Port.injEq, not_true_eq_false] at * <;> try omega
  case l2Port.l2Port i j =>
    have hij := hports i j
    have hji := hports j i
    omega
  case l2Port.aboveL2 i =>
    have hi := hports i _ hr
    omega
  case aboveL2.l2Port i =>
    have hi := hports i _ hr'
    omega

private theorem eq_of_contains (h : b.RegionsDisjoint) (hr : r.Exists b) (hr' : r'.Exists b)
    (hin : r.Contains b addr) (hin' : r'.Contains b addr) : r' = r := by
  by_contra hne
  obtain ⟨h0, h1⟩ := hin
  obtain ⟨h0', h1'⟩ := hin'
  have hdisj := h r' r hr' hr hne
  omega

/-- The decoder finds the region of every byte but its last one. -/
theorem decode_eq (h : b.RegionsDisjoint) (hr : r.Exists b) (hin : r.Contains b addr)
    (hlast : ¬ r.IsLastByte b addr) :
    b.decode addr = some ((r.rule b).idx % 2 ^ idxWidth b.nMasters) := by
  apply addrDecode_unique (mem_addrMap.mpr ⟨r, hr, rfl⟩)
  · exact (rule_matches_iff h.nClusters_le hr).mpr ⟨hin, hlast⟩
  · intro rule hrule hmatch
    obtain ⟨r', hr', rfl⟩ := mem_addrMap.mp hrule
    have hin' := ((rule_matches_iff h.nClusters_le hr').mp hmatch).1
    rw [eq_of_contains h hr hr' hin hin']

theorem decode_lastByte (h : b.RegionsDisjoint) (hr : r.Exists b) (hin : r.Contains b addr)
    (hlast : r.IsLastByte b addr) : b.decode addr = none := by
  apply addrDecode_none
  intro rule hrule hmatch
  obtain ⟨r', hr', rfl⟩ := mem_addrMap.mp hrule
  obtain ⟨hin', hnot⟩ := (rule_matches_iff h.nClusters_le hr').mp hmatch
  rw [eq_of_contains h hr hr' hin hin'] at hnot
  exact hnot hlast

/-- The master index of a port. -/
def Port.idx (b : Bus) : Port → Nat
  | .clMst i => i
  | .l2Mst i => b.idxL2Mem + i
  | .rabMst => b.idxRab
  | .mboxHostMst => b.idxMboxHost
  | .mboxPulpMst => b.idxMboxPulp

def Port.Exists (b : Bus) : Port → Prop
  | .clMst i => i < b.nClusters
  | .l2Mst i => i < b.l2NPorts
  | _ => True

theorem mem_wiring {port : Port} {k : Nat} :
    (port, k) ∈ b.wiring ↔ port.Exists b ∧ port.idx b = k := by
  cases port with
  | clMst i =>
    simp only [Bus.wiring, Port.Exists, Port.idx]
    constructor
    · intro h
      simp at h
      exact ⟨h.2 ▸ h.1, h.2.symm⟩
    · intro h
      obtain ⟨hi, rfl⟩ := h
      simp [hi]
  | l2Mst i => simp [Bus.wiring, Port.Exists, Port.idx]
  | rabMst => simp [Bus.wiring, Port.Exists, Port.idx, eq_comm]
  | mboxHostMst => simp [Bus.wiring, Port.Exists, Port.idx, eq_comm]
  | mboxPulpMst => simp [Bus.wiring, Port.Exists, Port.idx, eq_comm]

theorem rule_idx (b : Bus) (r : Region) : (r.rule b).idx = r.port.idx b := by
  cases r <;> rfl

theorem port_exists (hr : r.Exists b) : r.port.Exists b := by
  cases r with
  | cluster i => exact hr
  | l2Port i => exact hr
  | belowClusters => trivial
  | rab => trivial
  | mboxPulp => trivial
  | mboxHost => trivial
  | aboveL2 => trivial

/-- A port has its index for itself, and the index exists, exactly where it is `Unshared`. -/
theorem unshared_iff {port : Port} (hport : port.Exists b) :
    port.Unshared b ↔ port.idx b < b.nMasters ∧
      ∀ port', port'.Exists b → port'.idx b = port.idx b → port' = port := by
  constructor
  · intro h
    refine ⟨?_, ?_⟩
    · cases port <;> simp only [Port.Exists, Port.Unshared, Port.idx, Bus.idxL2Mem, Bus.idxRab,
        Bus.idxMboxHost, Bus.idxMboxPulp, Bus.nMasters] at * <;> omega
    · intro port' hport' hidx
      cases port <;> cases port' <;> simp only [Port.Exists, Port.Unshared, Port.idx, Bus.idxL2Mem,
        Bus.idxRab, Bus.idxMboxHost, Bus.idxMboxPulp, Port.clMst.injEq, Port.l2Mst.injEq] at * <;>
        omega
  · intro h
    obtain ⟨hlt, honly⟩ := h
    have hrab := honly .rabMst trivial
    have hhost := honly .mboxHostMst trivial
    have hpulp := honly .mboxPulpMst trivial
    have hfirst := honly (.l2Mst 1)
    have hsecond := honly (.l2Mst 2)
    have hthird := honly (.l2Mst 3)
    cases port <;> simp [Port.Exists, Port.Unshared, Port.idx, Bus.idxL2Mem, Bus.idxRab,
      Bus.idxMboxHost, Bus.idxMboxPulp, Bus.nMasters] at * <;> omega

/-- For every address of a region the decoder selects exactly the port of that region if and only
if the address is not the last byte of the region and the port does not share its index. -/
theorem soc_bus_selects_iff (b : Bus) (h : b.RegionsDisjoint) (r : Region) (hr : r.Exists b)
    (addr : BitVec 64) (hin : r.Contains b addr) :
    b.Selects r addr ↔ ¬ r.IsLastByte b addr ∧ r.port.Unshared b := by
  rw [unshared_iff (port_exists hr)]
  constructor
  · intro hsel
    obtain ⟨idx, hdec, hlt, hwired⟩ := hsel
    have hlast : ¬ r.IsLastByte b addr := by
      intro hlast
      rw [decode_lastByte h hr hin hlast] at hdec
      cases hdec
    obtain ⟨-, rfl⟩ := mem_wiring.mp ((hwired r.port).mpr rfl)
    refine ⟨hlast, hlt, ?_⟩
    intro port' hport' hidx
    exact (hwired port').mp (mem_wiring.mpr ⟨hport', hidx⟩)
  · intro hboth
    obtain ⟨hlast, hlt, honly⟩ := hboth
    have hdec := decode_eq h hr hin hlast
    rw [rule_idx, Nat.mod_eq_of_lt (lt_two_pow_idxWidth hlt)] at hdec
    refine ⟨r.port.idx b, hdec, hlt, ?_⟩
    intro port'
    rw [mem_wiring]
    constructor
    · intro hport'
      exact honly port' hport'.1 hport'.2
    · rintro rfl
      exact ⟨port_exists hr, rfl⟩

/-- Four clusters and one L2 port of 128 KiB. -/
def fourClusters : Bus where
  nClusters := 4
  l2NPorts := 1
  l2NBytesPerPort := 0x20000
  bytes_lt := by decide
  rules_lt := by decide

theorem soc_bus_selects_mailbox : fourClusters.Selects .mboxHost 0x1B801FFE :=
  (soc_bus_selects_iff fourClusters ((regionsDisjoint_iff _).mpr (by decide)) .mboxHost trivial
    0x1B801FFE ⟨by decide, by decide⟩).mpr
    ⟨show ¬ (0x1B801FFE + 1 = 0x1B802000) by decide, show 1 ≤ 2 by decide⟩

/-- Four clusters and two L2 ports: the second one has the index of the RAB. -/
def twoL2Ports : Bus := { fourClusters with l2NPorts := 2, rules_lt := by decide }

/-- The last byte below the clusters is decoded to no port, and the first byte of the second L2
port to an index on which the RAB hangs as well. -/
theorem soc_bus_not_selects :
    fourClusters.RegionsDisjoint ∧ Region.belowClusters.Contains fourClusters 0x0FFFFFFF ∧
      fourClusters.decode 0x0FFFFFFF = none ∧
      ¬ fourClusters.Selects .belowClusters 0x0FFFFFFF ∧
    twoL2Ports.RegionsDisjoint ∧ (Region.l2Port 1).Contains twoL2Ports 0x1C020000 ∧
      twoL2Ports.decode 0x1C020000 = some 5 ∧ (.rabMst, 5) ∈ twoL2Ports.wiring ∧
      ¬ twoL2Ports.Selects (.l2Port 1) 0x1C020000 := by
  have hnone : fourClusters.decode 0x0FFFFFFF = none := by decide
  have hsome : twoL2Ports.decode 0x1C020000 = some 5 := by decide
  have hrab : (Port.rabMst, 5) ∈ twoL2Ports.wiring := by decide
  refine ⟨(regionsDisjoint_iff _).mpr (by decide), ⟨by decide, by decide⟩, hnone, ?_,
    (regionsDisjoint_iff _).mpr (by decide), ⟨by decide, by decide⟩, hsome, hrab, ?_⟩
  · intro hsel
    obtain ⟨idx, hdec, -⟩ := hsel
    rw [hnone] at hdec
    cases hdec
  · intro hsel
    obtain ⟨idx, hdec, -, hwired⟩ := hsel
    rw [hsome] at hdec
    cases hdec
    have hport := (hwired .rabMst).mp hrab
    cases hport

end Hero.Soc
