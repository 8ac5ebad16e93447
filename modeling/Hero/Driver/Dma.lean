import Hero.Driver.SegmentArrays

/-!
# DMA transfers

`pulp_dma_xfer_async` cuts a transfer along the segments of the host buffer.
-/

namespace Hero.Driver

open SgArray

/-- What the calls of `pulp_dma_xfer_async` into the kernel find. -/
structure DmaEnv where
  /-- `pulp_mem_get_user_pages` gets its array. -/
  lock : Bool
  /-- `pulp_mem_map_sg` gets its arrays. -/
  kmalloc : SgArray → Bool
  /-- The array of the descriptors is allocated. -/
  descs : Bool
  /-- The channel accepts the transfer of a segment. -/
  prep : Nat → Bool

structure DmaTransfer where
  addrDst : Nat
  addrSrc : Nat
  sizeB : Nat
  last : Bool
  deriving DecidableEq, Repr

structure DmaLoop where
  addrPulp : Nat
  sizeB : Nat
  submitted : List DmaTransfer

/-- The transfer of a segment; `dmaCmd` is set for transfers from PULP to the host. -/
def dmaTransfer (dmaCmd : Bool) (addrPulp addrOffset sizeB : Nat) (last : Bool) : DmaTransfer :=
  if dmaCmd then ⟨u32 addrOffset, addrPulp, sizeB, last⟩ else ⟨addrPulp, u32 addrOffset, sizeB, last⟩

def dmaStep (seg : Segments) (dmaCmd : Bool) (s : DmaLoop) (i : Nat) : DmaLoop :=
  let addrPulp := u32 (s.addrPulp + s.sizeB)
  let sizeB := sub32 (seg.vec i).addrEnd (seg.vec i).addrStart
  ⟨addrPulp, sizeB,
    s.submitted ++ [dmaTransfer dmaCmd addrPulp (seg.vec i).addrOffset sizeB (i = seg.n - 1)]⟩

/-- The loop over the segments: the error code, and what has been submitted. -/
def dmaSubmit (env : DmaEnv) (seg : Segments) (dmaCmd : Bool) :
    List Nat → DmaLoop → Int × List DmaTransfer
  | [], s => (0, s.submitted)
  | i :: l, s =>
    if env.prep i then dmaSubmit env seg dmaCmd l (dmaStep seg dmaCmd s i) else (-16, s.submitted)

/-- `pulp_dma_xfer_async`; `none` where it goes on with arrays that it does not have. A failed
segmentation returns a negative number, which is not below 1 as `unsigned`. -/
def dmaXferAsync (m : DataModel) (env : DmaEnv) (pages : Nat → Nat) (addrL3 addrPulp sizeB : Nat)
    (dmaCmd : Bool) : Option (Int × List DmaTransfer) :=
  let len := memGetNumPages addrL3 sizeB
  if !env.lock then some (-12, [])
  else if len = 0 ∨ ¬ [addrPhysVec, addrStartVec, addrEndVec, addrOffsetVec, pageStartIdxs,
      pageEndIdxs].all env.kmalloc ∨ !env.descs then none
  else
    let seg := memMapSgLong m pages len addrL3 (u32 (addrL3 + sizeB))
    some (dmaSubmit env seg dmaCmd (List.range seg.n) ⟨addrPulp, 0, []⟩)

namespace DmaTransfer

variable (dmaCmd : Bool) (t : DmaTransfer)

def host : Nat := if dmaCmd then t.addrDst else t.addrSrc

def pulp : Nat := if dmaCmd then t.addrSrc else t.addrDst

/-- The bytes a transfer copies: host address and PULP address of each. -/
def moves : List (Nat × Nat) :=
  (List.range t.sizeB).map fun j => (t.host dmaCmd + j, t.pulp dmaCmd + j)

end DmaTransfer

/-- The physical address of byte `i` of a host buffer. -/
def hostAddr (pages : Nat → Nat) (addrL3 i : Nat) : Nat :=
  pageToPhys (pages ((addrL3 + i) / pageSize - addrL3 / pageSize)) + pageOffset (addrL3 + i)

/-- The transfers copy each byte of the buffer once, from or to its place at PULP. -/
structure CopiesBuffer (dmaCmd : Bool) (pages : Nat → Nat) (addrL3 addrPulp sizeB : Nat)
    (ts : List DmaTransfer) : Prop where
  bytes : (ts.flatMap (·.moves dmaCmd)).Perm
    ((List.range sizeB).map fun i => (hostAddr pages addrL3 i, addrPulp + i))
  contiguous : ∀ t ∈ ts, ∃ i, ∀ j, j < t.sizeB →
    hostAddr pages addrL3 (i + j) = t.host dmaCmd + j
  sizes : (ts.map (·.sizeB)).sum = sizeB

section

variable {env : DmaEnv} {seg : Segments} {dmaCmd : Bool} {s : DmaLoop}

theorem dmaSubmit_of_prep {l : List Nat} (hprep : ∀ i ∈ l, env.prep i = true) :
    dmaSubmit env seg dmaCmd l s = (0, (l.foldl (dmaStep seg dmaCmd) s).submitted) := by
  induction l generalizing s with
  | nil => rfl
  | cons i l ih =>
    rw [dmaSubmit, if_pos (hprep i List.mem_cons_self)]
    exact ih (fun j hj => hprep j (List.mem_cons_of_mem i hj))

theorem prep_of_dmaSubmit {l : List Nat} (h : (dmaSubmit env seg dmaCmd l s).1 = 0) :
    ∀ i ∈ l, env.prep i = true := by
  induction l generalizing s with
  | nil => exact fun i hi => absurd hi List.not_mem_nil
  | cons i l ih =>
    rw [dmaSubmit] at h
    by_cases hi : env.prep i = true
    · rw [if_pos hi] at h
      intro j hj
      rcases List.mem_cons.mp hj with rfl | hj
      · exact hi
      · exact ih h j hj
    · rw [if_neg hi] at h
      simp at h

@[simp] theorem dmaTransfer_host (addrPulp addrOffset sizeB : Nat) (last : Bool) :
    (dmaTransfer dmaCmd addrPulp addrOffset sizeB last).host dmaCmd = u32 addrOffset := by
  cases dmaCmd <;> rfl

@[simp] theorem dmaTransfer_pulp (addrPulp addrOffset sizeB : Nat) (last : Bool) :
    (dmaTransfer dmaCmd addrPulp addrOffset sizeB last).pulp dmaCmd = addrPulp := by
  cases dmaCmd <;> rfl

@[simp] theorem dmaTransfer_sizeB (addrPulp addrOffset sizeB : Nat) (last : Bool) :
    (dmaTransfer dmaCmd addrPulp addrOffset sizeB last).sizeB = sizeB := by
  cases dmaCmd <;> rfl

/-- The transfer of segment `k`, whose PULP side starts as far behind `addrPulp` as the segment does
behind the start of the buffer. -/
def segmentTransfer (seg : Segments) (dmaCmd : Bool) (addrL3 addrPulp k : Nat) : DmaTransfer :=
  dmaTransfer dmaCmd (u32 (addrPulp + ((seg.vec k).addrStart - addrL3))) (seg.vec k).addrOffset
    (sub32 (seg.vec k).addrEnd (seg.vec k).addrStart) (k = seg.n - 1)

/-- The PULP side advances by the size of each segment. -/
theorem dmaLoop_submitted {addrL3 addrPulp : Nat} {hi : Nat → Nat} {b : Nat}
    (htile : Tiling seg.n addrL3 b (fun k => (seg.vec k).addrStart) hi)
    (hsize : ∀ k, k < seg.n →
      sub32 (seg.vec k).addrEnd (seg.vec k).addrStart = hi k - (seg.vec k).addrStart) :
    ((List.range seg.n).foldl (dmaStep seg dmaCmd) ⟨addrPulp, 0, []⟩).submitted =
      (List.range seg.n).map (segmentTransfer seg dmaCmd addrL3 addrPulp) := by
  have hloop : ∀ j, j ≤ seg.n →
      let s := (List.range j).foldl (dmaStep seg dmaCmd) ⟨addrPulp, 0, []⟩
      s.submitted = (List.range j).map (segmentTransfer seg dmaCmd addrL3 addrPulp) ∧
        (j < seg.n → u32 (s.addrPulp + s.sizeB) =
          u32 (addrPulp + ((seg.vec j).addrStart - addrL3))) := by
    intro j
    induction j with
    | zero =>
      intro _
      refine ⟨rfl, ?_⟩
      intro _
      rw [htile.first, Nat.sub_self]
      rfl
    | succ j ih =>
      intro hj
      have hprev := ih (by omega)
      rw [List.range_succ, List.foldl_append, List.map_append]
      generalize (List.range j).foldl (dmaStep seg dmaCmd) ⟨addrPulp, 0, []⟩ = s at hprev
      have hpulp := hprev.2 hj
      constructor
      · simp only [List.foldl_cons, List.foldl_nil, dmaStep, hprev.1, hpulp, List.map_cons,
          List.map_nil, segmentTransfer]
      · intro hnext
        have hlink := htile.link j hnext
        have hle := htile.le j hj
        have hlo := htile.le_lo hj
        simp only [List.foldl_cons, List.foldl_nil, dmaStep, hpulp, hsize j hj]
        rw [← hlink]
        simp only [u32, Nat.mod_add_mod]
        congr 1
        omega
  exact (hloop seg.n le_rfl).1

/-- A segment whose host side is a run of bytes below 2^32, and whose PULP side starts there too. -/
def RunExact (pages : Nat → Nat) (addrL3 addrPulp : Nat) (lo hi addrOffset : Nat) : Prop :=
  addrPulp + (lo - addrL3) < 2 ^ 32 ∧
    ∀ j, j < hi - lo → hostAddr pages addrL3 (lo - addrL3 + j) = u32 addrOffset + j

variable {pages : Nat → Nat} {addrL3 addrPulp sizeB : Nat} {hi : Nat → Nat}

theorem segmentTransfer_moves (hsize : ∀ k, k < seg.n →
      sub32 (seg.vec k).addrEnd (seg.vec k).addrStart = hi k - (seg.vec k).addrStart)
    {k : Nat} (hk : k < seg.n) :
    (segmentTransfer seg dmaCmd addrL3 addrPulp k).moves dmaCmd =
      (List.range (hi k - (seg.vec k).addrStart)).map fun j =>
        (u32 (seg.vec k).addrOffset + j,
          u32 (addrPulp + ((seg.vec k).addrStart - addrL3)) + j) := by
  simp only [DmaTransfer.moves, segmentTransfer, dmaTransfer_host, dmaTransfer_pulp,
    dmaTransfer_sizeB, hsize k hk]

/-- Exact segments laid end to end copy the buffer. -/
theorem copiesBuffer_of_exact
    (htile : Tiling seg.n addrL3 (addrL3 + sizeB) (fun k => (seg.vec k).addrStart) hi)
    (hsize : ∀ k, k < seg.n →
      sub32 (seg.vec k).addrEnd (seg.vec k).addrStart = hi k - (seg.vec k).addrStart)
    (hexact : ∀ k, k < seg.n → RunExact pages addrL3 addrPulp (seg.vec k).addrStart (hi k)
      (seg.vec k).addrOffset) :
    CopiesBuffer dmaCmd pages addrL3 addrPulp sizeB
      ((List.range seg.n).map (segmentTransfer seg dmaCmd addrL3 addrPulp)) := by
  have hpoints := htile.flatMap_range'
  rw [Nat.add_sub_cancel_left] at hpoints
  have hmoves : ∀ k ∈ List.range seg.n,
      (segmentTransfer seg dmaCmd addrL3 addrPulp k).moves dmaCmd =
        (List.range' (seg.vec k).addrStart (hi k - (seg.vec k).addrStart)).map fun va =>
          (hostAddr pages addrL3 (va - addrL3), addrPulp + (va - addrL3)) := by
    intro k hmem
    have hk := List.mem_range.mp hmem
    obtain ⟨hpulp, hhost⟩ := hexact k hk
    have hlo := htile.le_lo hk
    rw [segmentTransfer_moves hsize hk, List.range'_eq_map_range, List.map_map]
    apply List.map_congr_left
    intro j hj
    have hva : (seg.vec k).addrStart + j - addrL3 = (seg.vec k).addrStart - addrL3 + j := by omega
    simp only [Function.comp_apply, hva, hhost j (List.mem_range.mp hj), u32_of_lt hpulp,
      Nat.add_assoc]
  refine ⟨?_, ?_, ?_⟩
  · apply List.Perm.of_eq
    rw [List.flatMap_map]
    calc (List.range seg.n).flatMap
          (fun k => (segmentTransfer seg dmaCmd addrL3 addrPulp k).moves dmaCmd)
        = (List.range seg.n).flatMap fun k =>
            (List.range' (seg.vec k).addrStart (hi k - (seg.vec k).addrStart)).map fun va =>
              (hostAddr pages addrL3 (va - addrL3), addrPulp + (va - addrL3)) :=
          List.flatMap_congr hmoves
      _ = (List.range' addrL3 sizeB).map fun va =>
            (hostAddr pages addrL3 (va - addrL3), addrPulp + (va - addrL3)) := by
          rw [← List.map_flatMap, hpoints]
      _ = (List.range sizeB).map fun i => (hostAddr pages addrL3 i, addrPulp + i) := by
          rw [List.range'_eq_map_range, List.map_map]
          apply List.map_congr_left
          intro i _
          simp only [Function.comp_apply, Nat.add_sub_cancel_left]
  · intro t ht
    obtain ⟨k, hmem, rfl⟩ := List.mem_map.mp ht
    have hk := List.mem_range.mp hmem
    refine ⟨(seg.vec k).addrStart - addrL3, ?_⟩
    intro j hj
    rw [segmentTransfer, dmaTransfer_sizeB, hsize k hk] at hj
    rw [segmentTransfer, dmaTransfer_host]
    exact (hexact k hk).2 j hj
  · have hlen := congrArg List.length hpoints
    rw [List.length_flatMap, List.length_range'] at hlen
    rw [List.map_map, ← hlen]
    congr 1
    apply List.map_congr_left
    intro k hmem
    simp only [Function.comp_apply, segmentTransfer, dmaTransfer_sizeB,
      hsize k (List.mem_range.mp hmem), List.length_range']

/-- Transfers that copy the buffer are exact. -/
theorem exact_of_copiesBuffer (hpulp : addrPulp < 2 ^ 32) (hend : addrL3 + sizeB ≤ 2 ^ 32)
    (htile : Tiling seg.n addrL3 (addrL3 + sizeB) (fun k => (seg.vec k).addrStart) hi)
    (hsize : ∀ k, k < seg.n →
      sub32 (seg.vec k).addrEnd (seg.vec k).addrStart = hi k - (seg.vec k).addrStart)
    (h : CopiesBuffer dmaCmd pages addrL3 addrPulp sizeB
      ((List.range seg.n).map (segmentTransfer seg dmaCmd addrL3 addrPulp)))
    {k : Nat} (hk : k < seg.n) (hlt : (seg.vec k).addrStart < hi k) :
    RunExact pages addrL3 addrPulp (seg.vec k).addrStart (hi k) (seg.vec k).addrOffset := by
  have hlo := htile.le_lo hk
  have hhi := htile.hi_le hk
  -- a copied byte is a byte of the buffer, at the place its PULP address says
  have hmove : ∀ j, j < hi k - (seg.vec k).addrStart → ∃ i, i < sizeB ∧
      hostAddr pages addrL3 i = u32 (seg.vec k).addrOffset + j ∧
        addrPulp + i = u32 (addrPulp + ((seg.vec k).addrStart - addrL3)) + j := by
    intro j hj
    have hmem : (u32 (seg.vec k).addrOffset + j,
        u32 (addrPulp + ((seg.vec k).addrStart - addrL3)) + j) ∈
        ((List.range seg.n).map (segmentTransfer seg dmaCmd addrL3 addrPulp)).flatMap
          (·.moves dmaCmd) := by
      apply List.mem_flatMap.mpr
      refine ⟨_, List.mem_map_of_mem (List.mem_range.mpr hk), ?_⟩
      rw [segmentTransfer_moves hsize hk]
      exact List.mem_map_of_mem (List.mem_range.mpr hj)
    obtain ⟨i, hi, heq⟩ := List.mem_map.mp (h.bytes.mem_iff.mp hmem)
    rw [Prod.mk.injEq] at heq
    exact ⟨i, List.mem_range.mp hi, heq⟩
  have hbelow : addrPulp + ((seg.vec k).addrStart - addrL3) < 2 ^ 32 := by
    by_contra hge
    obtain ⟨i, _, _, heq⟩ := hmove 0 (by omega)
    have hwrap : u32 (addrPulp + ((seg.vec k).addrStart - addrL3)) =
        addrPulp + ((seg.vec k).addrStart - addrL3) - 2 ^ 32 := by
      rw [u32, Nat.mod_eq_sub_mod (by omega), Nat.mod_eq_of_lt (by omega)]
    omega
  refine ⟨hbelow, ?_⟩
  intro j hj
  obtain ⟨i, _, hhost, heq⟩ := hmove j hj
  rw [u32_of_lt hbelow] at heq
  rw [← hhost]
  congr 1
  omega

end

/-- Every page of the buffer either directly follows its predecessor in physical memory, or starts a
segment, at a physical and a PULP address that `unsigned` holds. -/
def RunsBelow (m : DataModel) (pages : Nat → Nat) (addrL3 addrPulp nPages : Nat) : Prop :=
  ∀ p, p < nPages →
    p ≠ 0 ∧ pageToPhys (pages p) = pageToPhys (pages (p - 1)) + pageSize ∨
      (p = 0 ∨ m.Breaks pages p) ∧ pageToPhys (pages p) < 2 ^ 32 ∧
        addrPulp + (pageBase addrL3 + pageSize * p - addrL3) < 2 ^ 32

instance (m : DataModel) (pages : Nat → Nat) (addrL3 addrPulp nPages : Nat) :
    Decidable (RunsBelow m pages addrL3 addrPulp nPages) :=
  inferInstanceAs (Decidable (∀ _, _ → _))

section

variable {m : DataModel} {pages : Nat → Nat} {nPages addrL3 addrPulp addrEnd : Nat} {s : Segments}

theorem pageToPhys_add_lt {pfn off : Nat} (hlt : pageToPhys pfn < 2 ^ 32) (hoff : off < pageSize) :
    pageToPhys pfn + off < 2 ^ 32 := by
  have hpfn : pfn < 2 ^ 20 := Nat.lt_of_mul_lt_mul_right (a := pageSize) hlt
  calc pageToPhys pfn + off < (pfn + 1) * pageSize := by
        rw [Nat.succ_mul]
        exact Nat.add_lt_add_left hoff _
    _ ≤ 2 ^ 20 * pageSize := Nat.mul_le_mul_right pageSize hpfn

theorem DataModel.ulong_of_lt (m : DataModel) {x : Nat} (hlt : x < 2 ^ 32) : m.ulong x = x := by
  apply Nat.mod_eq_of_lt
  cases m with
  | ilp32 => exact hlt
  | lp64 => exact hlt.trans (by decide)

/-- The offset of a segment is the physical address of its first byte. -/
theorem Segmented.ulong_offset
    (h : Segmented (fun i => pageToPhys (m.unwrapped pages i)) nPages addrL3 addrEnd s)
    (hpages : ∀ i, i < nPages ↔ pageBase addrL3 + pageSize * i < addrEnd)
    {k : Nat} (hk : k < s.n) (hlt : (s.vec k).addrStart < (s.vec k).addrEnd) :
    m.ulong (s.vec k).addrOffset =
      m.addrPhys pages (s.vec k).pageIdxStart + pageOffset (s.vec k).addrStart := by
  have hoff := pageOffset_lt (s.vec k).addrStart
  have hexact := h.translates hpages hk le_rfl hlt
  obtain ⟨p, hp, hva, _⟩ := h.page_mem hpages hk le_rfl hlt
  have hsplit := h.start_split hk
  have hpage : p = (s.vec k).pageIdxStart := by
    apply Nat.eq_of_mul_eq_mul_left (show 0 < pageSize by decide)
    omega
  rw [Nat.sub_self, Nat.add_zero, hp, hpage] at hexact
  have hword := m.ulong_unwrapped pages (s.vec k).pageIdxStart
  rw [DataModel.addrPhys] at hword
  rw [hexact, m.ulong_page_add _ hoff, hword]

/-- Segments other than the first start at a break. -/
theorem Segmented.breaks
    (h : Segmented (fun i => pageToPhys (m.unwrapped pages i)) nPages addrL3 addrEnd s)
    {k : Nat} (hk : k < s.n) :
    (s.vec k).pageIdxStart = 0 ∨ m.Breaks pages (s.vec k).pageIdxStart := by
  cases k with
  | zero => exact Or.inl h.page_first
  | succ k =>
    have hlt := h.page_lt k hk
    exact Or.inr ((m.breaks_iff pages (by omega)).mpr (h.broken k hk))

/-- Pages that follow each other from the first page of a segment on. -/
theorem RunsBelow.run (hruns : RunsBelow m pages addrL3 addrPulp nPages)
    (h : Segmented (fun i => pageToPhys (m.unwrapped pages i)) nPages addrL3 addrEnd s)
    (hn : 0 < nPages) {k p : Nat} (hk : k < s.n) (hlo : (s.vec k).pageIdxStart ≤ p)
    (hhi : p ≤ (s.vec k).pageIdxEnd) :
    pageToPhys (pages p) =
      pageToPhys (pages (s.vec k).pageIdxStart) + pageSize * (p - (s.vec k).pageIdxStart) := by
  have hle := (h.pages_tiling hn).hi_le hk
  induction p with
  | zero =>
    rw [Nat.le_zero.mp hlo, Nat.sub_self, Nat.mul_zero, Nat.add_zero]
  | succ p ih =>
    rcases Nat.lt_or_eq_of_le hlo with hlt | heq
    · have hprev := ih (by omega) (by omega)
      have hnext := h.page_succ hn hk hlt hhi
      have hnot : ¬ m.Breaks pages (p + 1) := by
        intro hbreak
        exact (m.breaks_iff pages (by omega)).mp hbreak hnext
      rcases hruns (p + 1) (by omega) with ⟨_, hfollow⟩ | ⟨hstart, _⟩
      · rw [hfollow, Nat.add_sub_cancel, hprev, Nat.add_assoc, ← Nat.mul_succ]
        congr 2
        omega
      · rcases hstart with hzero | hbreak
        · omega
        · exact absurd hbreak hnot
    · simp only [heq, Nat.sub_self, Nat.mul_zero, Nat.add_zero]

/-- The segments of a buffer whose runs start low are exact. -/
theorem RunsBelow.exact (hruns : RunsBelow m pages addrL3 addrPulp nPages)
    (h : Segmented (fun i => pageToPhys (m.unwrapped pages i)) nPages addrL3 addrEnd s)
    (hpages : ∀ i, i < nPages ↔ pageBase addrL3 + pageSize * i < addrEnd)
    (hn : 0 < nPages) {k : Nat} (hk : k < s.n) (hlt : (s.vec k).addrStart < (s.vec k).addrEnd) :
    RunExact pages addrL3 addrPulp (s.vec k).addrStart (s.vec k).addrEnd
      (m.ulong (s.vec k).addrOffset) := by
  have hle := (h.pages_tiling hn).hi_le hk
  have hpage := h.page_le hk
  have hsplit := h.start_split hk
  have hbase := pageBase_add_pageOffset addrL3
  have hoff := pageOffset_lt (s.vec k).addrStart
  have hlow : pageToPhys (pages (s.vec k).pageIdxStart) < 2 ^ 32 ∧
      addrPulp + (pageBase addrL3 + pageSize * (s.vec k).pageIdxStart - addrL3) < 2 ^ 32 := by
    rcases hruns (s.vec k).pageIdxStart (by omega) with ⟨hpos, hfollow⟩ | ⟨_, hlow⟩
    · rcases h.breaks hk with hzero | hbreak
      · exact absurd hzero hpos
      · apply absurd _ hbreak
        rw [DataModel.addrPhys, hfollow, DataModel.addrPhys, m.ulong_ulong_add]
    · exact hlow
  have hoffset : u32 (m.ulong (s.vec k).addrOffset) =
      pageToPhys (pages (s.vec k).pageIdxStart) + pageOffset (s.vec k).addrStart := by
    rw [h.ulong_offset hpages hk hlt, DataModel.addrPhys, m.ulong_of_lt hlow.1]
    exact u32_of_lt (pageToPhys_add_lt hlow.1 hoff)
  refine ⟨?_, ?_⟩
  · rcases h.start_eq hk with ⟨_, hstart, hzero⟩ | ⟨_, hstart, _⟩
    · have hlow' := hlow.2
      rw [hzero] at hlow'
      rw [hstart]
      omega
    · rw [hstart]
      exact hlow.2
  · intro j hj
    have hlo := h.tiling.le_lo hk
    have hloj : (s.vec k).addrStart ≤ (s.vec k).addrStart + j := Nat.le_add_right _ j
    have hhij : (s.vec k).addrStart + j < (s.vec k).addrEnd := by omega
    obtain ⟨p, hp, hva, hplo, hphi⟩ := h.page_mem hpages hk hloj hhij
    have hrun := hruns.run h hn hk hplo hphi
    have hmul : pageSize * p = pageSize * (s.vec k).pageIdxStart +
        pageSize * (p - (s.vec k).pageIdxStart) := by
      rw [← Nat.mul_add, Nat.add_sub_of_le hplo]
    rw [hostAddr, show addrL3 + ((s.vec k).addrStart - addrL3 + j) = (s.vec k).addrStart + j by omega,
      hp, hrun, hoffset]
    omega

/-- Exact segments start low. -/
theorem runsBelow_of_exact
    (h : Segmented (fun i => pageToPhys (m.unwrapped pages i)) nPages addrL3 addrEnd s)
    (hpages : ∀ i, i < nPages ↔ pageBase addrL3 + pageSize * i < addrEnd)
    (hn : 0 < nPages) (hlt : addrL3 < addrEnd) (hpulp : addrPulp < 2 ^ 32)
    (hexact : ∀ k, k < s.n → RunExact pages addrL3 addrPulp (s.vec k).addrStart (s.vec k).addrEnd
      (m.ulong (s.vec k).addrOffset)) :
    RunsBelow m pages addrL3 addrPulp nPages := by
  intro p hp
  obtain ⟨k, hk, hplo, hphi⟩ := (h.pages_tiling hn).exists_mem (Nat.zero_le p) hp
  obtain ⟨hbelow, hhost⟩ := hexact k hk
  have hlo := h.tiling.le_lo hk
  have hseg := h.start_lt_end hpages hlt hk
  have hbase := pageBase_add_pageOffset addrL3
  rcases Nat.lt_or_eq_of_le hplo with hinner | hfirst
  · -- the bytes on both sides of the border below the page are neighbours
    apply Or.inl
    obtain ⟨hborder, hborder'⟩ := h.border_mem hpages hk hinner (by omega)
    have hprev := hhost (pageBase addrL3 + pageSize * p - 1 - (s.vec k).addrStart) (by omega)
    have hnext := hhost (pageBase addrL3 + pageSize * p - (s.vec k).addrStart) (by omega)
    have hpos : 0 < p := by omega
    rw [hostAddr, show addrL3 + ((s.vec k).addrStart - addrL3 +
      (pageBase addrL3 + pageSize * p - 1 - (s.vec k).addrStart)) =
        pageBase addrL3 + pageSize * p - 1 by omega] at hprev
    rw [hostAddr, show addrL3 + ((s.vec k).addrStart - addrL3 +
      (pageBase addrL3 + pageSize * p - (s.vec k).addrStart)) =
        pageBase addrL3 + pageSize * p by omega] at hnext
    have hpage : (pageBase addrL3 + pageSize * p) / pageSize - addrL3 / pageSize = p ∧
        pageOffset (pageBase addrL3 + pageSize * p) = 0 := by
      simp only [pageBase, pageOffset, pageSize]
      omega
    have hpage' : (pageBase addrL3 + pageSize * p - 1) / pageSize - addrL3 / pageSize = p - 1 ∧
        pageOffset (pageBase addrL3 + pageSize * p - 1) = pageSize - 1 := by
      simp only [pageBase, pageOffset, pageSize]
      omega
    rw [hpage.1, hpage.2] at hnext
    rw [hpage'.1, hpage'.2] at hprev
    have hsize : 0 < pageSize := by decide
    exact ⟨hpos.ne', by omega⟩
  · apply Or.inr
    have hstart := hhost 0 (by omega)
    obtain ⟨q, hq, hva, _⟩ := h.page_mem hpages hk le_rfl hseg
    have hsplit := h.start_split hk
    have hqp : q = p := by
      apply Nat.eq_of_mul_eq_mul_left (show 0 < pageSize by decide)
      rw [← hfirst]
      omega
    have hu32 : u32 (m.ulong (s.vec k).addrOffset) < 2 ^ 32 := Nat.mod_lt _ (by decide)
    rw [hostAddr, Nat.add_zero, Nat.add_sub_of_le hlo, hq, hqp] at hstart
    refine ⟨?_, by omega, ?_⟩
    · rw [← hfirst]
      exact h.breaks hk
    · rw [← hfirst]
      rcases h.start_eq hk with ⟨_, _, hzero⟩ | ⟨_, heq, _⟩
      · rw [hzero]
        omega
      · rw [heq] at hbelow
        exact hbelow

end

/-- What the call needs: its allocations, a page at least, a channel that accepts every segment, and
runs of pages that start low. -/
structure DmaReady (m : DataModel) (env : DmaEnv) (pages : Nat → Nat)
    (addrL3 addrPulp sizeB : Nat) : Prop where
  lock : env.lock = true
  kmalloc : ∀ a, env.kmalloc a = true
  descs : env.descs = true
  page : 0 < memGetNumPages addrL3 sizeB
  prep : ∀ k, k < memCheckNumSg m pages (memGetNumPages addrL3 sizeB) → env.prep k = true
  runs : 0 < sizeB → RunsBelow m pages addrL3 addrPulp (memGetNumPages addrL3 sizeB)

theorem all_kmalloc_iff {kmalloc : SgArray → Bool} :
    [addrPhysVec, addrStartVec, addrEndVec, addrOffsetVec, pageStartIdxs, pageEndIdxs].all kmalloc =
      true ↔ ∀ a, kmalloc a = true := by
  rw [List.all_eq_true]
  constructor
  · intro h a
    apply h
    cases a <;> decide
  · exact fun h a _ => h a

theorem sub32_u32 {x y : Nat} (hyx : y ≤ x) (hx : x ≤ 2 ^ 32) (hxy : x - y < 2 ^ 32) :
    sub32 (u32 x) y = x - y := by
  rcases Nat.lt_or_eq_of_le hx with hlt | heq
  · rw [u32_of_lt hlt, sub32_of_le hyx]
  · have hzero : u32 x = 0 := by
      rw [heq]
      decide
    rw [hzero, sub32, if_neg (by omega)]
    omega

/-- The end that `pulp_mem_map_sg` is given may have wrapped to zero; the sizes do not show it. -/
theorem memMapSgLong_buffer (m : DataModel) (pages : Nat → Nat) {addrL3 sizeB : Nat}
    (hsize : sizeB < 2 ^ 31) (hend : addrL3 + sizeB ≤ 2 ^ 32)
    (hpages : ∀ i, i < memGetNumPages addrL3 sizeB ↔
      pageBase addrL3 + pageSize * i < addrL3 + sizeB) :
    ∃ s, memMapSgLong m pages (memGetNumPages addrL3 sizeB) addrL3 (u32 (addrL3 + sizeB)) =
        s.mapWords u32 m.ulong ∧
      Segmented (fun i => pageToPhys (m.unwrapped pages i)) (memGetNumPages addrL3 sizeB) addrL3
        (addrL3 + sizeB) s ∧
      ∀ k, k < s.n → sub32 (u32 (s.vec k).addrEnd) (s.vec k).addrStart =
        (s.vec k).addrEnd - (s.vec k).addrStart := by
  have hu32 : ∀ x, u32 (u32 x) = u32 x := fun x => Nat.mod_mod x _
  have hspec : Segmented (fun i => pageToPhys (m.unwrapped pages i)) (memGetNumPages addrL3 sizeB)
      addrL3 (addrL3 + sizeB) _ := memMapSg_spec (Nat.le_add_right addrL3 sizeB) hend hpages
  refine ⟨_, memMapSgLong_eq m pages _ addrL3 (addrL3 + sizeB) hu32, hspec, ?_⟩
  intro k hk
  have hlo := hspec.tiling.le_lo hk
  have hle := hspec.tiling.le k hk
  have hhi := hspec.tiling.hi_le hk
  apply sub32_u32 hle (hhi.trans hend)
  omega

/-- The calls that succeed, and what they have submitted. -/
theorem dmaXferAsync_eq_zero_iff {m : DataModel} {env : DmaEnv} {pages : Nat → Nat}
    {addrL3 addrPulp sizeB : Nat} {dmaCmd : Bool} {seg : Segments} {ts : List DmaTransfer}
    (hseg : memMapSgLong m pages (memGetNumPages addrL3 sizeB) addrL3 (u32 (addrL3 + sizeB)) = seg) :
    dmaXferAsync m env pages addrL3 addrPulp sizeB dmaCmd = some (0, ts) ↔
      (env.lock = true ∧ (∀ a, env.kmalloc a = true) ∧ env.descs = true ∧
        0 < memGetNumPages addrL3 sizeB ∧ ∀ k, k < seg.n → env.prep k = true) ∧
        ((List.range seg.n).foldl (dmaStep seg dmaCmd) ⟨addrPulp, 0, []⟩).submitted = ts := by
  simp only [dmaXferAsync, hseg, ← all_kmalloc_iff]
  constructor
  · intro h
    split_ifs at h with hlock hbad
    · simp at h
    · have hres := Option.some.inj h
      have hprep := prep_of_dmaSubmit (congrArg Prod.fst hres)
      rw [dmaSubmit_of_prep hprep] at hres
      simp only [not_or, not_not, Bool.not_eq_true', Bool.not_eq_false] at hbad hlock
      refine ⟨⟨hlock, hbad.2.1, hbad.2.2, Nat.pos_of_ne_zero hbad.1, ?_⟩, congrArg Prod.snd hres⟩
      intro k hk
      exact hprep k (List.mem_range.mpr hk)
  · intro h
    obtain ⟨⟨hlock, hkmalloc, hdescs, hn, hprep⟩, hts⟩ := h
    have hgood : ¬ (memGetNumPages addrL3 sizeB = 0 ∨
        ¬ [addrPhysVec, addrStartVec, addrEndVec, addrOffsetVec, pageStartIdxs, pageEndIdxs].all
          env.kmalloc = true ∨ (!env.descs) = true) := by
      simp only [not_or, not_not, Bool.not_eq_true', Bool.not_eq_false]
      exact ⟨hn.ne', hkmalloc, hdescs⟩
    rw [if_neg (by simp [hlock]), if_neg hgood, ← hts,
      dmaSubmit_of_prep (fun i hi => hprep i (List.mem_range.mp hi))]

/-- `pulp_dma_xfer_async` succeeds and copies the buffer exactly when the call is ready for it. -/
theorem dmaXferAsync_copies_iff (m : DataModel) (env : DmaEnv) (pages : Nat → Nat)
    {addrL3 addrPulp sizeB : Nat} (hpulp : addrPulp < 2 ^ 32) (hsize : sizeB < 2 ^ 31)
    (hend : addrL3 + sizeB ≤ 2 ^ 32) (dmaCmd : Bool) :
    (∃ ts, dmaXferAsync m env pages addrL3 addrPulp sizeB dmaCmd = some (0, ts) ∧
        CopiesBuffer dmaCmd pages addrL3 addrPulp sizeB ts) ↔
      DmaReady m env pages addrL3 addrPulp sizeB := by
  have hoff := pageOffset_lt addrL3
  rw [pageSize] at hoff
  have hfit : pageOffset addrL3 + sizeB < 2 ^ 32 := by omega
  have hpages := lt_memGetNumPages_iff_add hfit
  obtain ⟨s, hseg, hspec, hlen⟩ := memMapSgLong_buffer m pages hsize hend hpages
  have hcount := memCheckNumSg_eq m pages (memGetNumPages addrL3 sizeB) addrL3 (u32 (addrL3 + sizeB))
  rw [hseg] at hcount
  have htile : Tiling (s.mapWords u32 m.ulong).n addrL3 (addrL3 + sizeB)
      (fun k => ((s.mapWords u32 m.ulong).vec k).addrStart) (fun k => (s.vec k).addrEnd) :=
    hspec.tiling
  have hsubmitted : ((List.range (s.mapWords u32 m.ulong).n).foldl
      (dmaStep (s.mapWords u32 m.ulong) dmaCmd) ⟨addrPulp, 0, []⟩).submitted = _ :=
    dmaLoop_submitted htile hlen
  simp only [dmaXferAsync_eq_zero_iff hseg, hsubmitted]
  constructor
  · intro h
    obtain ⟨ts, ⟨⟨hlock, hkmalloc, hdescs, hn, hprep⟩, rfl⟩, hcopies⟩ := h
    refine ⟨hlock, hkmalloc, hdescs, hn, ?_, ?_⟩
    · rw [hcount]
      exact hprep
    · intro hpos
      apply runsBelow_of_exact hspec hpages hn (by omega) hpulp
      intro k hk
      have hlt := hspec.start_lt_end hpages (by omega) hk
      exact exact_of_copiesBuffer hpulp hend htile hlen hcopies hk hlt
  · intro h
    have hprep := h.prep
    rw [hcount] at hprep
    refine ⟨_, ⟨⟨h.lock, h.kmalloc, h.descs, h.page, hprep⟩, rfl⟩, ?_⟩
    apply copiesBuffer_of_exact htile hlen
    intro k hk
    rcases Nat.eq_zero_or_pos sizeB with hzero | hpos
    · -- an empty buffer has only empty segments
      have hlo := hspec.tiling.le_lo hk
      have hhi := hspec.tiling.hi_le hk
      have hle := hspec.tiling.le k hk
      refine ⟨?_, ?_⟩
      · rw [show ((s.mapWords u32 m.ulong).vec k).addrStart = (s.vec k).addrStart from rfl]
        omega
      · rw [show ((s.mapWords u32 m.ulong).vec k).addrStart = (s.vec k).addrStart from rfl]
        omega
    · exact (h.runs hpos).exact hspec hpages h.page hk (hspec.start_lt_end hpages (by omega) hk)

/-- Two pages apart, both below 2^32. -/
theorem dmaXferAsync_copies_iff_two :
    (∃ ts, dmaXferAsync .lp64 ⟨true, fun _ => true, true, fun _ => true⟩ (fun i => 9 - 3 * i) 4000
          256 200 false = some (0, ts) ∧
        CopiesBuffer false (fun i => 9 - 3 * i) 4000 256 200 ts) ↔
      DmaReady .lp64 ⟨true, fun _ => true, true, fun _ => true⟩ (fun i => 9 - 3 * i) 4000 256 200 :=
  dmaXferAsync_copies_iff .lp64 _ _ (by decide) (by decide) (by decide) false

/-- A page at 2^32: the DMA engine reads from address 0. -/
theorem dmaXferAsync_not_copies :
    dmaXferAsync .lp64 ⟨true, fun _ => true, true, fun _ => true⟩ (fun _ => 2 ^ 20) 0 256 16 false =
        some (0, [⟨256, 0, 16, true⟩]) ∧
      ¬ CopiesBuffer false (fun _ => 2 ^ 20) 0 256 16 [⟨256, 0, 16, true⟩] := by
  constructor
  · decide
  · intro h
    have hmem : (0, 256) ∈ (List.range 16).map fun i => (hostAddr (fun _ => 2 ^ 20) 0 i, 256 + i) :=
      h.bytes.mem_iff.mp (by decide)
    revert hmem
    decide

end Hero.Driver
