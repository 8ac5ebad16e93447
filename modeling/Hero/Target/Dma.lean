import Mathlib.Data.BitVec
import Mathlib.Data.List.Infix

/-!
# DMA transfers of the accelerator

The engine spreads transfers over streams and completes those of one stream in order.  What it does
between two accesses of a core, also for other cores, is up to the environment.
-/

namespace Hero.Target

/-- A transfer as the engine gets it. -/
structure Transfer where
  src : BitVec 64
  dst : BitVec 64
  numBytes : BitVec 32
  deriving DecidableEq, Repr

/-- The transfers issued to a stream, of which the first `done` ones are complete. -/
structure DmaStream where
  /-- The number of transfers before those in the list. -/
  offset : Nat
  transfers : List Transfer
  done : Nat
  done_le : done ≤ transfers.length

namespace DmaStream

/-- The id of the transfer that is number `k` in the list, counted from one. -/
def idOf (st : DmaStream) (k : Nat) : Nat := (st.offset + k) % 2 ^ 28

def issue (st : DmaStream) (t : Transfer) : DmaStream where
  offset := st.offset
  transfers := st.transfers ++ [t]
  done := st.done
  done_le := st.done_le.trans (by simp)

/-- What may become of a stream in the course of time. -/
structure Later (st st' : DmaStream) : Prop where
  offset : st'.offset = st.offset
  transfers : st.transfers <+: st'.transfers
  done : st.done ≤ st'.done

/-- The stream with at least `k` transfers of its list complete. -/
def runTo (st : DmaStream) (k : Nat) : DmaStream where
  offset := st.offset
  transfers := st.transfers ++ List.replicate k ⟨0#64, 0#64, 1#32⟩
  done := max st.done k
  done_le := by
    have hle := st.done_le
    rw [List.length_append, List.length_replicate]
    omega

end DmaStream

/-- The streams of the engine, `DMA_MAX_NUM_STREAMS` at most. -/
abbrev Dma := Nat → DmaStream

def Dma.Later (d d' : Dma) : Prop := ∀ i, (d i).Later (d' i)

/-- The stream to which the engine assigns a transfer, and what happens between two accesses. -/
structure DmaEnv where
  pick : Nat → Nat
  pick_lt : ∀ time, pick time < 8
  pass : Nat → Dma → Dma
  later : ∀ time d, Dma.Later d (pass time d)

/-- The engine, and the number of accesses of the core so far. -/
structure DmaState where
  dma : Dma
  time : Nat

def DmaState.pass (env : DmaEnv) (s : DmaState) : DmaState := ⟨env.pass s.time s.dma, s.time + 1⟩

/-- The registers of `_hero_dma_conf_t` that describe a transfer. -/
structure DmaConf where
  srcAddrLow : BitVec 32
  srcAddrHigh : BitVec 32
  dstAddrLow : BitVec 32
  dstAddrHigh : BitVec 32
  numBytes : BitVec 32

def DmaConf.transfer (conf : DmaConf) : Transfer :=
  ⟨conf.srcAddrHigh ++ conf.srcAddrLow, conf.dstAddrHigh ++ conf.dstAddrLow, conf.numBytes⟩

/-- A transfer that has been launched; `slot` is its stream and its place there, unless it is empty. -/
structure Launched where
  transfer : Transfer
  slot : Option (Nat × Nat)

/-- The number of the stream in front of the id of the transfer at place `pos`. -/
def jobId (st : DmaStream) (stream pos : Nat) : BitVec 32 :=
  BitVec.ofNat 32 (stream * 2 ^ 28 + st.idOf (pos + 1))

section

variable (env : DmaEnv) (s : DmaState)

/-- A read of `tf_id`, which launches the transfer; one of no bytes is not issued. -/
def readTfId (conf : DmaConf) : BitVec 32 × Launched × DmaState :=
  if conf.numBytes = 0#32 then (0#32, ⟨conf.transfer, none⟩, s.pass env)
  else
    let i := env.pick s.time
    let pos := (s.dma i).transfers.length
    (jobId (s.dma i) i pos, ⟨conf.transfer, some (i, pos)⟩,
      DmaState.pass env { s with dma := Function.update s.dma i ((s.dma i).issue conf.transfer) })

/-- The registers for `hero_memcpy_host2dev_async` -/
def host2devConf (dst : BitVec 32) (src : BitVec 64) (size : BitVec 32) : DmaConf :=
  ⟨src.setWidth 32, (src >>> 32).setWidth 32, dst, 0#32, size⟩

/-- The registers for `hero_memcpy_dev2host_async` -/
def dev2hostConf (dst : BitVec 64) (src : BitVec 32) (size : BitVec 32) : DmaConf :=
  ⟨src, 0#32, dst.setWidth 32, (dst >>> 32).setWidth 32, size⟩

/-- `_hero_read_completed_id` -/
def readCompletedId (streamId : BitVec 32) : BitVec 32 :=
  if streamId.toNat < 8 then
    BitVec.ofNat 32 ((s.dma streamId.toNat).idOf (s.dma streamId.toNat).done)
  else 0#32

/-- `_hero_wait_for_tf_completion`, for at most `n` reads -/
def waitForTfCompletion (streamId tfId : BitVec 32) : Nat → DmaState → Option DmaState
  | 0, _ => none
  | n + 1, s =>
    if tfId > readCompletedId s streamId then waitForTfCompletion streamId tfId n (s.pass env)
    else some s

/-- `hero_dma_wait` -/
def heroDmaWait (id : BitVec 32) (n : Nat) : Option DmaState :=
  let tfId := id &&& 0x0fffffff#32
  let stream := (id &&& 0xf0000000#32) >>> 28
  waitForTfCompletion env stream tfId n s

/-- The loop over the rows, which launches one transfer each and keeps the job of the last one. -/
def launchRows {w v : Nat} (conf : BitVec w → BitVec v → DmaConf) (strideDst : BitVec w)
    (strideSrc : BitVec v) :
    Nat → BitVec w → BitVec v → BitVec 32 → DmaState → BitVec 32 × List Launched × DmaState
  | 0, _, _, job, s => (job, [], s)
  | n + 1, dst, src, _, s =>
    let (job, row, s) := readTfId env s (conf dst src)
    let (job, rows, s) := launchRows conf strideDst strideSrc n (dst + strideDst) (src + strideSrc) job s
    (job, row :: rows, s)

variable (during after : DmaEnv) (n : Nat) (innerSize innerStrideDst innerStrideSrc outerNum : BitVec 32)

/-- The loop of `hero_memcpy2d_host2dev`; without rows the job is what the variable happens to hold. -/
def host2devRows (dst : BitVec 32) (src : BitVec 64) (garbage : BitVec 32) :
    BitVec 32 × List Launched × DmaState :=
  launchRows during (fun dst src => host2devConf dst src innerSize) innerStrideDst
    (innerStrideSrc.setWidth 64) outerNum.toNat dst src garbage s

/-- The loop of `hero_memcpy2d_dev2host` -/
def dev2hostRows (dst : BitVec 64) (src : BitVec 32) (garbage : BitVec 32) :
    BitVec 32 × List Launched × DmaState :=
  launchRows during (fun dst src => dev2hostConf dst src innerSize) (innerStrideDst.setWidth 64)
    innerStrideSrc outerNum.toNat dst src garbage s

/-- The end of either function: the wait for the job of the last row. -/
def waitForRows (rows : BitVec 32 × List Launched × DmaState) : Option DmaState :=
  heroDmaWait after rows.2.2 rows.1 n

/-- `hero_memcpy2d_host2dev` -/
def heroMemcpy2dHost2dev (dst : BitVec 32) (src : BitVec 64) (garbage : BitVec 32) : Option DmaState :=
  waitForRows after n
    (host2devRows s during innerSize innerStrideDst innerStrideSrc outerNum dst src garbage)

/-- `hero_memcpy2d_dev2host` -/
def heroMemcpy2dDev2host (dst : BitVec 64) (src : BitVec 32) (garbage : BitVec 32) : Option DmaState :=
  waitForRows after n
    (dev2hostRows s during innerSize innerStrideDst innerStrideSrc outerNum dst src garbage)

end

/-! ### What is to be copied -/

/-- The row `i` of a copy to the accelerator. -/
def host2devRow (innerSize innerStrideDst innerStrideSrc : BitVec 32) (dst : BitVec 32)
    (src : BitVec 64) (i : Nat) : Transfer :=
  ⟨src + BitVec.ofNat 64 i * innerStrideSrc.setWidth 64,
    (dst + BitVec.ofNat 32 i * innerStrideDst).setWidth 64, innerSize⟩

/-- The row `i` of a copy to the host. -/
def dev2hostRow (innerSize innerStrideDst innerStrideSrc : BitVec 32) (dst : BitVec 64)
    (src : BitVec 32) (i : Nat) : Transfer :=
  ⟨(src + BitVec.ofNat 32 i * innerStrideSrc).setWidth 64,
    dst + BitVec.ofNat 64 i * innerStrideDst.setWidth 64, innerSize⟩

/-- The transfer is one of no bytes, or the engine has completed it. -/
def Launched.Complete (d : Dma) (row : Launched) : Prop := match row.slot with
  | none => row.transfer.numBytes = 0#32
  | some (i, pos) => pos < (d i).done ∧ (d i).transfers[pos]? = some row.transfer

/-- Each of `n` rows has been launched, and is complete. -/
def RowsCopied (rows : List Launched) (d : Dma) (n : Nat) (transfer : Nat → Transfer) : Prop :=
  ∀ i < n, ∃ row, rows[i]? = some row ∧ row.transfer = transfer i ∧ row.Complete d

/-- A job: the place `pos` in a stream. -/
structure DmaJob where
  stream : Nat
  stream_lt : stream < 8
  pos : Nat

/-- Whenever the wait for a job returns, the job is complete. -/
def WaitsFor (s : DmaState) (job : DmaJob) : Prop :=
  ∀ env n s', heroDmaWait env s (jobId (s.dma job.stream) job.stream job.pos) n = some s' →
    job.pos < (s'.dma job.stream).done

/-- The job is complete, or the ids from the last completed one up to its own do not wrap around. -/
def NoWrap (d : Dma) (stream pos : Nat) : Prop :=
  pos < (d stream).done ∨
    ((d stream).offset + (d stream).done) / 2 ^ 28 = ((d stream).offset + pos + 1) / 2 ^ 28

/-- Waiting for the last row is enough: its id does not wrap around, and each row is in the stream of
the last one or complete. -/
def LastSuffices (rows : List Launched) (d : Dma) : Prop :=
  ∀ stream pos, rows.getLast?.bind Launched.slot = some (stream, pos) → NoWrap d stream pos ∧
    ∀ row ∈ rows, ∀ i pos', row.slot = some (i, pos') → i = stream ∨ pos' < (d i).done

section

variable {env : DmaEnv} {s s' : DmaState} {d d' d'' : Dma} {st st' st'' : DmaStream} {i pos n : Nat}

theorem DmaStream.Later.refl (st : DmaStream) : st.Later st :=
  ⟨rfl, List.prefix_rfl, le_refl st.done⟩

theorem DmaStream.Later.trans (h : st.Later st') (h' : st'.Later st'') : st.Later st'' :=
  ⟨h'.offset.trans h.offset, h.transfers.trans h'.transfers, h.done.trans h'.done⟩

theorem DmaStream.later_issue (t : Transfer) : st.Later (st.issue t) :=
  ⟨rfl, List.prefix_append st.transfers [t], le_refl st.done⟩

theorem DmaStream.later_runTo (k : Nat) : st.Later (st.runTo k) :=
  ⟨rfl, List.prefix_append st.transfers _, le_max_left st.done k⟩

theorem Dma.Later.refl (d : Dma) : d.Later d := fun i => DmaStream.Later.refl (d i)

theorem Dma.Later.trans (h : Dma.Later d d') (h' : Dma.Later d' d'') : Dma.Later d d'' :=
  fun i => (h i).trans (h' i)

theorem later_update (h : (d i).Later st) : Dma.Later d (Function.update d i st) := by
  intro j
  by_cases hj : j = i
  · rw [hj, Function.update_self]
    exact h
  · rw [Function.update_of_ne hj]
    exact DmaStream.Later.refl (d j)

/-- The fields of a job. -/
theorem jobId_fields (st : DmaStream) (hi : i < 8) (pos : Nat) :
    (jobId st i pos &&& 0x0fffffff#32).toNat = st.idOf (pos + 1) ∧
      ((jobId st i pos &&& 0xf0000000#32) >>> 28).toNat = i := by
  have hid : st.idOf (pos + 1) < 2 ^ 28 := Nat.mod_lt _ (Nat.two_pow_pos 28)
  have hjob : (jobId st i pos).toNat = i * 2 ^ 28 + st.idOf (pos + 1) := by
    rw [jobId, BitVec.toNat_ofNat, Nat.mod_eq_of_lt (by omega)]
  constructor
  · have hmask : (jobId st i pos &&& 0x0fffffff#32).toNat = (jobId st i pos).toNat % 2 ^ 28 := by
      rw [BitVec.toNat_and]
      exact Nat.and_two_pow_sub_one_eq_mod _ 28
    rw [hmask, hjob]
    omega
  · have hmask : ((jobId st i pos &&& 0xf0000000#32) >>> 28).toNat =
        (jobId st i pos).toNat / 2 ^ 28 % 2 ^ 4 := by
      rw [BitVec.ushiftRight_and_distrib, BitVec.toNat_and, BitVec.toNat_ushiftRight,
        Nat.shiftRight_eq_div_pow]
      exact Nat.and_two_pow_sub_one_eq_mod _ 4
    rw [hmask, hjob]
    omega

theorem readCompletedId_toNat {stream : BitVec 32} (hstream : stream.toNat < 8) :
    (readCompletedId s stream).toNat = (s.dma stream.toNat).idOf (s.dma stream.toNat).done := by
  have hid : (s.dma stream.toNat).idOf (s.dma stream.toNat).done < 2 ^ 28 :=
    Nat.mod_lt _ (Nat.two_pow_pos 28)
  rw [readCompletedId, if_pos hstream, BitVec.toNat_ofNat, Nat.mod_eq_of_lt (by omega)]

/-- The wait returns in a later state in which the id is not above the one read. -/
theorem waitForTfCompletion_some {stream tfId : BitVec 32} (n : Nat) (s : DmaState)
    (h : waitForTfCompletion env stream tfId n s = some s') :
    Dma.Later s.dma s'.dma ∧ ¬ tfId > readCompletedId s' stream := by
  induction n generalizing s with
  | zero => cases h
  | succ n ih =>
    rw [waitForTfCompletion] at h
    split_ifs at h with hgt
    · obtain ⟨hlater, hread⟩ := ih (s.pass env) h
      exact ⟨(env.later s.time s.dma).trans hlater, hread⟩
    · cases h
      exact ⟨Dma.Later.refl s'.dma, hgt⟩

theorem heroDmaWait_some (hi : i < 8) (h : heroDmaWait env s (jobId (s.dma i) i pos) n = some s') :
    Dma.Later s.dma s'.dma ∧ (s.dma i).idOf (pos + 1) ≤ (s.dma i).idOf (s'.dma i).done := by
  obtain ⟨htf, hstream⟩ := jobId_fields (s.dma i) hi pos
  obtain ⟨hlater, hread⟩ := waitForTfCompletion_some n s h
  refine ⟨hlater, ?_⟩
  rw [GT.gt, BitVec.lt_def, Nat.not_lt, htf, readCompletedId_toNat (by rw [hstream]; exact hi),
    hstream] at hread
  have hoffset := (hlater i).offset
  unfold DmaStream.idOf at hread ⊢
  rw [hoffset] at hread
  exact hread

/-- Where the ids do not wrap around, a wait returns only once the transfer is complete. -/
theorem NoWrap.complete (hi : i < 8) (hwrap : NoWrap s.dma i pos)
    (h : heroDmaWait env s (jobId (s.dma i) i pos) n = some s') : pos < (s'.dma i).done := by
  obtain ⟨hlater, hle⟩ := heroDmaWait_some hi h
  have hdone := (hlater i).done
  rcases hwrap with hcomplete | hblock
  · exact Nat.lt_of_lt_of_le hcomplete hdone
  · unfold DmaStream.idOf at hle
    omega

/-! ### Waits that return too early -/

/-- An environment in which only transfers of one stream are completed, up to number `k`. -/
def DmaEnv.only (stream k : Nat) : DmaEnv where
  pick := fun _ => 0
  pick_lt := fun _ => Nat.zero_lt_succ 7
  pass := fun _ d => Function.update d stream ((d stream).runTo k)
  later := fun _ _ => later_update (DmaStream.later_runTo k)

/-- A wait returns at once, or when its stream has got to a number that has an id as high. -/
theorem heroDmaWait_only (s : DmaState) (pos : Nat) {k : Nat} (hi : i < 8) (hk : (s.dma i).done ≤ k)
    (hid : (s.dma i).idOf (pos + 1) ≤ (s.dma i).idOf k) : ∃ s',
      heroDmaWait (DmaEnv.only i k) s (jobId (s.dma i) i pos) 2 = some s' ∧
        (s' = s ∨ s' = s.pass (DmaEnv.only i k)) := by
  obtain ⟨htf, hstream⟩ := jobId_fields (s.dma i) hi pos
  rw [heroDmaWait, waitForTfCompletion]
  split_ifs with hgt
  · refine ⟨s.pass (DmaEnv.only i k), ?_, Or.inr rfl⟩
    rw [waitForTfCompletion, if_neg]
    rw [GT.gt, BitVec.lt_def, Nat.not_lt, htf, readCompletedId_toNat (by rw [hstream]; exact hi),
      hstream]
    have hafter : (s.pass (DmaEnv.only i k)).dma i = (s.dma i).runTo k := Function.update_self i _ s.dma
    rw [hafter]
    change (s.dma i).idOf (pos + 1) ≤ (s.dma i).idOf (max (s.dma i).done k)
    rw [max_eq_right hk]
    exact hid
  · exact ⟨s, rfl, Or.inl rfl⟩

/-- Where the ids wrap around, a wait may return too early. -/
theorem noWrap_of_waits (hi : i < 8)
    (h : ∀ env n s', heroDmaWait env s (jobId (s.dma i) i pos) n = some s' → pos < (s'.dma i).done) :
    NoWrap s.dma i pos := by
  by_contra hwrap
  unfold NoWrap at hwrap
  rw [not_or] at hwrap
  obtain ⟨hopen, hblock⟩ := hwrap
  -- the last number before the ids start again from zero
  have hlast : ∃ k, (s.dma i).offset + k + 1 = ((s.dma i).offset + pos + 1) / 2 ^ 28 * 2 ^ 28 := by
    refine ⟨((s.dma i).offset + pos + 1) / 2 ^ 28 * 2 ^ 28 - 1 - (s.dma i).offset, ?_⟩
    omega
  obtain ⟨k, hk⟩ := hlast
  have hid : (s.dma i).idOf (pos + 1) ≤ (s.dma i).idOf k := by
    unfold DmaStream.idOf
    omega
  obtain ⟨s', hrun, hs'⟩ := heroDmaWait_only s pos hi (by omega) hid
  have hdone := h _ _ _ hrun
  rcases hs' with heq | heq
  · rw [heq] at hdone
    exact hopen hdone
  · have hafter : (s'.dma i).done = max (s.dma i).done k := by
      rw [heq]
      exact congrArg DmaStream.done (Function.update_self i _ s.dma)
    rw [hafter] at hdone
    omega

theorem waitsFor_iff (s : DmaState) (job : DmaJob) :
    WaitsFor s job ↔ NoWrap s.dma job.stream job.pos := by
  constructor
  · intro h
    exact noWrap_of_waits job.stream_lt h
  · intro hwrap env n s' hrun
    exact hwrap.complete job.stream_lt hrun

/-! ### The loop over the rows -/

/-- A launched transfer is empty; or it has been appended to a stream as it was in `d`, and is there
in `d'`. -/
def Launched.Placed (d d' : Dma) (row : Launched) : Prop := match row.slot with
  | none => row.transfer.numBytes = 0#32
  | some (i, pos) => row.transfer.numBytes ≠ 0#32 ∧ i < 8 ∧ (d i).transfers.length ≤ pos ∧
    (d' i).transfers[pos]? = some row.transfer

/-- The later of two transfers of one stream is behind the other. -/
def Launched.Before (row row' : Launched) : Prop :=
  ∀ i pos pos', row.slot = some (i, pos) → row'.slot = some (i, pos') → pos < pos'

/-- What the loop does from state `s` on. -/
structure Launches (s : DmaState) (out : BitVec 32 × List Launched × DmaState) : Prop where
  later : Dma.Later s.dma out.2.2.dma
  placed : ∀ row ∈ out.2.1, row.Placed s.dma out.2.2.dma
  ordered : out.2.1.Pairwise Launched.Before
  job : ∀ i pos, out.2.1.getLast?.bind Launched.slot = some (i, pos) →
    out.1 = jobId (out.2.2.dma i) i pos

variable {row row' : Launched}

private theorem getElem?_of_prefix {xs ys : List Transfer} (h : xs <+: ys) {t : Transfer}
    (ht : xs[pos]? = some t) : ys[pos]? = some t := by
  obtain ⟨zs, hzs⟩ := h
  have hlt : pos < xs.length := (List.getElem?_eq_some_iff.mp ht).1
  rw [← hzs, List.getElem?_append_left hlt]
  exact ht

private theorem Launched.Placed.later (h : row.Placed d d') (hlater : Dma.Later d' d'') :
    row.Placed d d'' := by
  unfold Launched.Placed at h ⊢
  cases hslot : row.slot with
  | none =>
    rw [hslot] at h
    exact h
  | some p =>
    obtain ⟨i, pos⟩ := p
    rw [hslot] at h
    obtain ⟨hsize, hi, hlow, hget⟩ := h
    exact ⟨hsize, hi, hlow, getElem?_of_prefix (hlater i).transfers hget⟩

private theorem Launched.Placed.earlier (h : row.Placed d' d'') (hlater : Dma.Later d d') :
    row.Placed d d'' := by
  unfold Launched.Placed at h ⊢
  cases hslot : row.slot with
  | none =>
    rw [hslot] at h
    exact h
  | some p =>
    obtain ⟨i, pos⟩ := p
    rw [hslot] at h
    obtain ⟨hsize, hi, hlow, hget⟩ := h
    exact ⟨hsize, hi, (hlater i).transfers.length_le.trans hlow, hget⟩

/-- A transfer that was there is in front of one that is launched later. -/
private theorem Launched.Placed.before (h : row.Placed d d') (h' : row'.Placed d' d'') :
    row.Before row' := by
  intro i pos pos' hslot hslot'
  unfold Launched.Placed at h h'
  rw [hslot] at h
  rw [hslot'] at h'
  obtain ⟨-, -, -, hget⟩ := h
  obtain ⟨-, -, hlow, -⟩ := h'
  exact Nat.lt_of_lt_of_le (List.getElem?_eq_some_iff.mp hget).1 hlow

private theorem jobId_later (h : st.Later st') : jobId st' i pos = jobId st i pos := by
  rw [jobId, jobId, DmaStream.idOf, DmaStream.idOf, h.offset]

/-- A read of `tf_id` appends a transfer of some bytes to a stream, and returns its job. -/
theorem readTfId_spec (env : DmaEnv) (s : DmaState) (conf : DmaConf) :
    (readTfId env s conf).2.1.transfer = conf.transfer ∧
      Launches s ((readTfId env s conf).1, [(readTfId env s conf).2.1], (readTfId env s conf).2.2) := by
  rw [readTfId]
  split_ifs with hsize
  · refine ⟨rfl, env.later s.time s.dma, ?_, List.pairwise_singleton _ _, ?_⟩
    · intro row hrow
      rw [List.mem_singleton.mp hrow]
      exact hsize
    · intro i pos hslot
      cases hslot
  · have hissue : Dma.Later s.dma (Function.update s.dma (env.pick s.time)
        ((s.dma (env.pick s.time)).issue conf.transfer)) := later_update (DmaStream.later_issue _)
    have hpass := env.later s.time (Function.update s.dma (env.pick s.time)
      ((s.dma (env.pick s.time)).issue conf.transfer))
    refine ⟨rfl, hissue.trans hpass, ?_, List.pairwise_singleton _ _, ?_⟩
    · intro row hrow
      rw [List.mem_singleton.mp hrow]
      refine ⟨hsize, env.pick_lt s.time, le_refl _, ?_⟩
      apply getElem?_of_prefix (hpass (env.pick s.time)).transfers
      rw [Function.update_self]
      exact List.getElem?_concat_length
    · intro i pos hslot
      cases hslot
      exact (jobId_later ((hissue.trans hpass) (env.pick s.time))).symm

private theorem launches_nil (job : BitVec 32) : Launches s (job, [], s) := by
  refine ⟨Dma.Later.refl s.dma, ?_, List.Pairwise.nil, ?_⟩
  · intro row hrow
    cases hrow
  · intro i pos hslot
    cases hslot

private theorem Launches.cons {job job' : BitVec 32} {rows : List Launched} {s₁ s₂ : DmaState}
    (h : Launches s (job, [row], s₁)) (hrest : Launches s₁ (job', rows, s₂))
    (hnil : rows = [] → job' = job) : Launches s (job', row :: rows, s₂) := by
  refine ⟨h.later.trans hrest.later, ?_, ?_, ?_⟩
  · intro r hr
    rcases List.mem_cons.mp hr with heq | hmem
    · rw [heq]
      exact (h.placed row List.mem_cons_self).later hrest.later
    · exact (hrest.placed r hmem).earlier h.later
  · apply List.Pairwise.cons ?_ hrest.ordered
    intro r hr
    exact (h.placed row List.mem_cons_self).before (hrest.placed r hr)
  · intro i pos hslot
    cases rows with
    | nil =>
      rw [hnil rfl]
      exact (h.job i pos hslot).trans (jobId_later (hrest.later i)).symm
    | cons r rs => exact hrest.job i pos hslot

theorem launchRows_spec {w v : Nat} (env : DmaEnv) (conf : BitVec w → BitVec v → DmaConf)
    (strideDst : BitVec w) (strideSrc : BitVec v) (n : Nat) (dst : BitVec w) (src : BitVec v)
    (job : BitVec 32) (s : DmaState) :
    Launches s (launchRows env conf strideDst strideSrc n dst src job s) ∧
      (launchRows env conf strideDst strideSrc n dst src job s).2.1.map Launched.transfer =
        (List.range n).map fun i =>
          (conf (dst + BitVec.ofNat w i * strideDst) (src + BitVec.ofNat v i * strideSrc)).transfer := by
  induction n generalizing dst src job s with
  | zero => exact ⟨launches_nil job, rfl⟩
  | succ n ih =>
    obtain ⟨htransfer, hrow⟩ := readTfId_spec env s (conf dst src)
    obtain ⟨hrest, htransfers⟩ := ih (dst + strideDst) (src + strideSrc) (readTfId env s (conf dst src)).1
      (readTfId env s (conf dst src)).2.2
    constructor
    · apply hrow.cons hrest
      intro hnil
      cases n with
      | zero => rfl
      | succ n => cases hnil
    · rw [launchRows, List.map_cons, htransfer, htransfers, List.range_succ_eq_map, List.map_cons,
        List.map_map]
      have hnext : ∀ (u : Nat) (x stride : BitVec u) (i : Nat),
          x + stride + BitVec.ofNat u i * stride = x + BitVec.ofNat u (i + 1) * stride := by
        intro u x stride i
        rw [BitVec.ofNat_add, BitVec.add_mul, BitVec.one_mul, BitVec.add_comm (_ * stride),
          BitVec.add_assoc]
      simp [hnext, Function.comp_def]

/-- A transfer in a stream is complete once the stream has got there. -/
theorem Launched.Placed.complete_iff (h : row.Placed d d') (hlater : Dma.Later d' d'') :
    row.Complete d'' ↔ ∀ i pos, row.slot = some (i, pos) → pos < (d'' i).done := by
  unfold Launched.Placed at h
  unfold Launched.Complete
  cases hslot : row.slot with
  | none =>
    rw [hslot] at h
    constructor
    · intro _ i pos hsome
      cases hsome
    · intro _
      exact h
  | some p =>
    obtain ⟨i, pos⟩ := p
    rw [hslot] at h
    obtain ⟨-, -, -, hget⟩ := h
    constructor
    · intro hcomplete j q hsome
      cases hsome
      exact hcomplete.1
    · intro hdone
      exact ⟨hdone i pos rfl, getElem?_of_prefix (hlater i).transfers hget⟩

/-- Behind the last transfer of its stream there is no other one. -/
private theorem Launches.le_last {out : BitVec 32 × List Launched × DmaState} (h : Launches s out)
    {stream pos' : Nat} (hlast : out.2.1.getLast?.bind Launched.slot = some (stream, pos))
    (hrow : row ∈ out.2.1) (hslot : row.slot = some (stream, pos')) : pos' ≤ pos := by
  obtain ⟨last, hget, hlastSlot⟩ := Option.bind_eq_some_iff.mp hlast
  obtain ⟨rows, hrows⟩ := List.getLast?_eq_some_iff.mp hget
  have hordered := h.ordered
  rw [hrows] at hrow hordered
  rcases List.mem_append.mp hrow with hmem | hmem
  · have hbefore := (List.pairwise_append.mp hordered).2.2 row hmem last (List.mem_singleton.mpr rfl)
    exact (hbefore stream pos' pos hslot hlastSlot).le
  · rw [List.mem_singleton.mp hmem, hlastSlot] at hslot
    cases hslot
    exact le_refl _

theorem Launches.stream_lt {out : BitVec 32 × List Launched × DmaState} (h : Launches s out)
    {stream : Nat} (hlast : out.2.1.getLast?.bind Launched.slot = some (stream, pos)) : stream < 8 := by
  obtain ⟨last, hget, hslot⟩ := Option.bind_eq_some_iff.mp hlast
  have hplaced := h.placed last (List.mem_of_getLast? hget)
  unfold Launched.Placed at hplaced
  rw [hslot] at hplaced
  exact hplaced.2.1

/-- Where waiting for the last row suffices, all rows are complete after the wait. -/
private theorem LastSuffices.complete {out : BitVec 32 × List Launched × DmaState} (h : Launches s out)
    {size : BitVec 32} (hsize : ∀ row ∈ out.2.1, row.transfer.numBytes = size)
    (hlast : LastSuffices out.2.1 out.2.2.dma) {after : DmaEnv}
    (hrun : waitForRows after n out = some s') (hrow : row ∈ out.2.1) : row.Complete s'.dma := by
  have hlater : Dma.Later out.2.2.dma s'.dma :=
    (waitForTfCompletion_some n out.2.2 hrun).1
  rw [(h.placed row hrow).complete_iff hlater]
  intro i pos' hslot
  have hrowPlaced := h.placed row hrow
  unfold Launched.Placed at hrowPlaced
  rw [hslot] at hrowPlaced
  obtain ⟨last, hget⟩ := Option.isSome_iff_exists.mp
    (List.getLast?_isSome.mpr (List.ne_nil_of_mem hrow))
  have hlastPlaced := h.placed last (List.mem_of_getLast? hget)
  unfold Launched.Placed at hlastPlaced
  cases hlastSlot : last.slot with
  | none =>
    rw [hlastSlot] at hlastPlaced
    have hzero := (hsize row hrow).trans (hsize last (List.mem_of_getLast? hget)).symm
    exact absurd (hzero.trans hlastPlaced) hrowPlaced.1
  | some p =>
    obtain ⟨stream, pos⟩ := p
    have hbind : out.2.1.getLast?.bind Launched.slot = some (stream, pos) := by
      rw [hget]
      exact hlastSlot
    obtain ⟨hwrap, hothers⟩ := hlast stream pos hbind
    rcases hothers row hrow i pos' hslot with hsame | hdone
    · rw [hsame] at hslot ⊢
      have hjob := h.job stream pos hbind
      rw [waitForRows, hjob] at hrun
      exact Nat.lt_of_le_of_lt (h.le_last hbind hrow hslot) (hwrap.complete (h.stream_lt hbind) hrun)
    · exact Nat.lt_of_lt_of_le hdone (hlater i).done

/-- What the loop launches is complete after the wait exactly if waiting for the last row suffices. -/
theorem rows_complete_iff {out : BitVec 32 × List Launched × DmaState} {size : BitVec 32}
    (h : Launches s out) (hsize : ∀ row ∈ out.2.1, row.transfer.numBytes = size) :
    (∀ after n s', waitForRows after n out = some s' → ∀ row ∈ out.2.1, row.Complete s'.dma) ↔
      LastSuffices out.2.1 out.2.2.dma := by
  constructor
  · intro hall stream pos hbind
    have hjob := h.job stream pos hbind
    have hstream := h.stream_lt hbind
    have hdone : ∀ env n s', heroDmaWait env out.2.2 (jobId (out.2.2.dma stream) stream pos) n = some s' →
        ∀ row ∈ out.2.1, ∀ i pos', row.slot = some (i, pos') → pos' < (s'.dma i).done := by
      intro env n s' hrun row hrow
      have hlater : Dma.Later out.2.2.dma s'.dma := (heroDmaWait_some hstream hrun).1
      rw [← (h.placed row hrow).complete_iff hlater]
      rw [← hjob] at hrun
      exact hall env n s' hrun row hrow
    constructor
    · apply noWrap_of_waits hstream
      intro env n s' hrun
      obtain ⟨last, hget, hslot⟩ := Option.bind_eq_some_iff.mp hbind
      exact hdone env n s' hrun last (List.mem_of_getLast? hget) stream pos hslot
    · intro row hrow i pos' hslot
      by_cases hi : i = stream
      · exact Or.inl hi
      · -- only the stream of the last row goes on, to a number with the id that is waited for
        obtain ⟨s', hrun, hs'⟩ := heroDmaWait_only out.2.2 pos
          (k := pos + 1 + 2 ^ 28 * (out.2.2.dma stream).done) hstream (by omega)
          (by unfold DmaStream.idOf; omega)
        have hcomplete := hdone _ _ _ hrun row hrow i pos' hslot
        have hother : s'.dma i = out.2.2.dma i := by
          rcases hs' with heq | heq
          · rw [heq]
          · rw [heq]
            exact Function.update_of_ne hi _ _
        rw [hother] at hcomplete
        exact Or.inr hcomplete
  · intro hlast after n s' hrun row hrow
    exact hlast.complete h hsize hrun hrow

/-- The rows as they are to be copied. -/
private theorem rowsCopied_iff {rows : List Launched} {transfer : Nat → Transfer}
    (h : rows.map Launched.transfer = (List.range n).map transfer) :
    RowsCopied rows d n transfer ↔ ∀ row ∈ rows, row.Complete d := by
  have hlength : rows.length = n := by
    have hlen := congrArg List.length h
    rw [List.length_map, List.length_map, List.length_range] at hlen
    exact hlen
  have hget : ∀ i row, rows[i]? = some row → row.transfer = transfer i := by
    intro i row hrow
    have hlt : i < n := by
      rw [← hlength]
      exact (List.getElem?_eq_some_iff.mp hrow).1
    have hmap := congrArg (fun ts => ts[i]?) h
    simp only [List.getElem?_map, hrow, List.getElem?_range hlt, Option.map_some,
      Option.some.injEq] at hmap
    exact hmap
  constructor
  · intro hcopied row hrow
    obtain ⟨i, hi⟩ := List.mem_iff_getElem?.mp hrow
    obtain ⟨row', hrow', -, hcomplete⟩ := hcopied i (by
      rw [← hlength]
      exact (List.getElem?_eq_some_iff.mp hi).1)
    rw [hi] at hrow'
    cases hrow'
    exact hcomplete
  · intro hcomplete i hi
    have hlt : i < rows.length := by
      rw [hlength]
      exact hi
    have hrow : rows[i]? = some rows[i] := List.getElem?_eq_getElem hlt
    exact ⟨rows[i], hrow, hget i rows[i] hrow, hcomplete rows[i] (List.getElem_mem hlt)⟩

private theorem append_toNat (high low : BitVec 32) :
    (high ++ low).toNat = high.toNat * 2 ^ 32 + low.toNat := by
  rw [BitVec.toNat_append, Nat.shiftLeft_eq, Nat.mul_comm high.toNat,
    Nat.two_pow_add_eq_or_of_lt low.isLt]

private theorem words_append (x : BitVec 64) : (x >>> 32).setWidth 32 ++ x.setWidth 32 = x := by
  have hx := x.isLt
  apply BitVec.eq_of_toNat_eq
  rw [append_toNat, BitVec.toNat_setWidth, BitVec.toNat_setWidth, BitVec.toNat_ushiftRight,
    Nat.shiftRight_eq_div_pow]
  omega

private theorem zero_append (x : BitVec 32) : 0#32 ++ x = x.setWidth 64 := by
  have hx := x.isLt
  have hzero : (0#32).toNat = 0 := rfl
  apply BitVec.eq_of_toNat_eq
  rw [append_toNat, hzero, BitVec.toNat_setWidth]
  omega

/-- The registers make up the addresses they have been written with. -/
theorem host2devConf_transfer (dst : BitVec 32) (src : BitVec 64) (size : BitVec 32) :
    (host2devConf dst src size).transfer = ⟨src, dst.setWidth 64, size⟩ := by
  rw [DmaConf.transfer, host2devConf, words_append, zero_append]

theorem dev2hostConf_transfer (dst : BitVec 64) (src : BitVec 32) (size : BitVec 32) :
    (dev2hostConf dst src size).transfer = ⟨src.setWidth 64, dst, size⟩ := by
  rw [DmaConf.transfer, dev2hostConf, words_append, zero_append]

/-- The rows as they are to be copied have been, whenever the wait returns, if waiting for the last one
suffices. -/
private theorem copies_iff {out : BitVec 32 × List Launched × DmaState} {transfer : Nat → Transfer}
    {size : BitVec 32} (h : Launches s out)
    (htransfers : out.2.1.map Launched.transfer = (List.range n).map transfer)
    (hsize : ∀ i, (transfer i).numBytes = size) :
    (∀ after k s', waitForRows after k out = some s' → RowsCopied out.2.1 s'.dma n transfer) ↔
      LastSuffices out.2.1 out.2.2.dma := by
  have hrows : ∀ row ∈ out.2.1, row.transfer.numBytes = size := by
    intro row hrow
    have hmem : row.transfer ∈ out.2.1.map Launched.transfer := List.mem_map_of_mem hrow
    rw [htransfers] at hmem
    obtain ⟨i, -, hi⟩ := List.mem_map.mp hmem
    rw [← hi]
    exact hsize i
  rw [← rows_complete_iff h hrows]
  simp only [rowsCopied_iff htransfers]

end

/-- A copy to the accelerator: whenever it returns, all rows have been copied. -/
def CopiesHost2dev (s : DmaState) (during : DmaEnv)
    (innerSize innerStrideDst innerStrideSrc outerNum dst : BitVec 32) (src : BitVec 64)
    (garbage : BitVec 32) : Prop :=
  ∀ after n s', heroMemcpy2dHost2dev s during after n innerSize innerStrideDst innerStrideSrc outerNum
    dst src garbage = some s' →
      RowsCopied (host2devRows s during innerSize innerStrideDst innerStrideSrc outerNum dst src
        garbage).2.1 s'.dma outerNum.toNat (host2devRow innerSize innerStrideDst innerStrideSrc dst src)

/-- A copy to the host: whenever it returns, all rows have been copied. -/
def CopiesDev2host (s : DmaState) (during : DmaEnv)
    (innerSize innerStrideDst innerStrideSrc outerNum : BitVec 32) (dst : BitVec 64)
    (src garbage : BitVec 32) : Prop :=
  ∀ after n s', heroMemcpy2dDev2host s during after n innerSize innerStrideDst innerStrideSrc outerNum
    dst src garbage = some s' →
      RowsCopied (dev2hostRows s during innerSize innerStrideDst innerStrideSrc outerNum dst src
        garbage).2.1 s'.dma outerNum.toNat (dev2hostRow innerSize innerStrideDst innerStrideSrc dst src)

theorem copiesHost2dev_iff (s : DmaState) (during : DmaEnv)
    (innerSize innerStrideDst innerStrideSrc outerNum dst : BitVec 32) (src : BitVec 64)
    (garbage : BitVec 32) :
    CopiesHost2dev s during innerSize innerStrideDst innerStrideSrc outerNum dst src garbage ↔
      LastSuffices
        (host2devRows s during innerSize innerStrideDst innerStrideSrc outerNum dst src garbage).2.1
        (host2devRows s during innerSize innerStrideDst innerStrideSrc outerNum dst src garbage).2.2.dma := by
  obtain ⟨hlaunches, htransfers⟩ := launchRows_spec during
    (fun dst src => host2devConf dst src innerSize) innerStrideDst (innerStrideSrc.setWidth 64)
    outerNum.toNat dst src garbage s
  simp only [host2devConf_transfer] at htransfers
  exact copies_iff hlaunches htransfers fun _ => rfl

theorem copiesDev2host_iff (s : DmaState) (during : DmaEnv)
    (innerSize innerStrideDst innerStrideSrc outerNum : BitVec 32) (dst : BitVec 64)
    (src garbage : BitVec 32) :
    CopiesDev2host s during innerSize innerStrideDst innerStrideSrc outerNum dst src garbage ↔
      LastSuffices
        (dev2hostRows s during innerSize innerStrideDst innerStrideSrc outerNum dst src garbage).2.1
        (dev2hostRows s during innerSize innerStrideDst innerStrideSrc outerNum dst src garbage).2.2.dma := by
  obtain ⟨hlaunches, htransfers⟩ := launchRows_spec during
    (fun dst src => dev2hostConf dst src innerSize) (innerStrideDst.setWidth 64) innerStrideSrc
    outerNum.toNat dst src garbage s
  simp only [dev2hostConf_transfer] at htransfers
  exact copies_iff hlaunches htransfers fun _ => rfl

/-- A wait is right where the ids do not wrap around, and a copy of rows where waiting for the last one
suffices. -/
theorem dma_copies_iff (s : DmaState) (job : DmaJob) (during : DmaEnv)
    (innerSize innerStrideDst innerStrideSrc outerNum garbage : BitVec 32) :
    (WaitsFor s job ↔ NoWrap s.dma job.stream job.pos) ∧
    (∀ dst src,
      CopiesHost2dev s during innerSize innerStrideDst innerStrideSrc outerNum dst src garbage ↔
        LastSuffices
          (host2devRows s during innerSize innerStrideDst innerStrideSrc outerNum dst src garbage).2.1
          (host2devRows s during innerSize innerStrideDst innerStrideSrc outerNum dst src
            garbage).2.2.dma) ∧
    ∀ dst src,
      CopiesDev2host s during innerSize innerStrideDst innerStrideSrc outerNum dst src garbage ↔
        LastSuffices
          (dev2hostRows s during innerSize innerStrideDst innerStrideSrc outerNum dst src garbage).2.1
          (dev2hostRows s during innerSize innerStrideDst innerStrideSrc outerNum dst src
            garbage).2.2.dma := by
  refine ⟨waitsFor_iff s job, ?_, ?_⟩
  · intro dst src
    exact copiesHost2dev_iff s during innerSize innerStrideDst innerStrideSrc outerNum dst src garbage
  · intro dst src
    exact copiesDev2host_iff s during innerSize innerStrideDst innerStrideSrc outerNum dst src garbage

/-- The engine after a reset. -/
def resetDma : DmaState := ⟨fun _ => ⟨1, [], 0, Nat.zero_le _⟩, 0⟩

/-- Transfers go to the streams in turn, and nothing is completed so far. -/
def inTurn : DmaEnv where
  pick := fun time => time % 8
  pick_lt := fun time => Nat.mod_lt time (by decide)
  pass := fun _ d => d
  later := fun _ d => Dma.Later.refl d

/-- A stream with four transfers to go, whose ids start again from zero. -/
def wrappingDma : DmaState :=
  ⟨fun _ => ⟨2 ^ 28 - 2, List.replicate 4 ⟨0#64, 0#64, 4#32⟩, 0, Nat.zero_le _⟩, 0⟩

/-- Two rows go to two streams, but only the second one is waited for; and a wait returns at once if the
ids have wrapped around in between. -/
theorem dma_returns_early :
    ¬ CopiesHost2dev resetDma inTurn 64#32 64#32 64#32 2#32 0#32 0#64 0#32 ∧
      ¬ WaitsFor wrappingDma ⟨0, by decide, 3⟩ := by
  constructor
  · rw [copiesHost2dev_iff]
    intro h
    obtain ⟨-, hothers⟩ := h 1 0 (by decide)
    have hfirst := hothers ⟨⟨0#64, 0#64, 64#32⟩, some (0, 0)⟩ (List.mem_cons_self) 0 0 rfl
    rcases hfirst with hsame | hdone
    · exact absurd hsame (by decide)
    · exact absurd hdone (by decide)
  · rw [waitsFor_iff]
    intro h
    rcases h with hdone | hblock
    · exact absurd hdone (by decide)
    · exact absurd hblock (by decide)

end Hero.Target
