import Hero.Framework.Checked
import Hero.Framework.Machine
import Hero.Framework.Progression
import Mathlib.Data.Set.Card

/-!
# Dynamic loop scheduling of libgomp

A team shares the loop fields of a work share.  The first thread that starts the loop sets them
up, and the threads take chunks under the lock of the work share until `next` has reached `end`.
-/

namespace Hero.Libgomp

open Hero.Checked Hero.Progression

/-- The loop fields of `gomp_work_share_t`; `stop` is the field `end`. -/
structure LoopShare where
  chunkSize : Int
  stop : Int
  incr : Int
  next : Int

def gompLoopInit (start stop incr chunkSize : Int) : LoopShare where
  chunkSize := chunkSize
  stop := if incr > 0 ∧ start > stop ∨ incr < 0 ∧ start < stop then start else stop
  incr := incr
  next := start

/-- The part `GOMP_loop_dynamic_start` and `gomp_iter_dynamic_next` share: from a `next` that has
not reached the end, the end of the chunk.  No result is a signed overflow. -/
def chunkEnd (ws : LoopShare) (incr chunkSize : Int) : Option Int := do
  let chunk ← mul 32 chunkSize incr
  let left ← sub 32 ws.stop ws.next
  let chunk :=
    if incr < 0 then if chunk < left then left else chunk
    else if chunk > left then left else chunk
  add 32 ws.next chunk

/-- What a call returns and what it stores through its pointers, if it does. -/
structure Fetched where
  ret : Bool
  stored : Option (Int × Int)

/-- `GOMP_loop_dynamic_start` from the lock to the unlock of the work share, which is `none` when
`gomp_work_share_start` has just created it. -/
def gompLoopDynamicStart (ws : Option LoopShare) (start stop incr chunkSize : Int) :
    Option (LoopShare × Fetched) :=
  let ws := ws.getD (gompLoopInit start stop incr chunkSize)
  if ws.next = ws.stop then some (ws, ⟨false, some (ws.next, stop)⟩)
  else do
    let stop ← chunkEnd ws incr chunkSize
    return ({ ws with next := stop }, ⟨true, some (ws.next, stop)⟩)

/-- `gomp_iter_dynamic_next`, all of it under the lock of the work share. -/
def gompIterDynamicNext (ws : LoopShare) : Option (LoopShare × Fetched) :=
  if ws.next = ws.stop then some (ws, ⟨false, none⟩)
  else do
    let stop ← chunkEnd ws ws.incr ws.chunkSize
    return ({ ws with next := stop }, ⟨true, some (ws.next, stop)⟩)

/-- The arguments of a loop: `int`s, a non-zero increment and a chunk of at least one. -/
structure DynamicLoop where
  start : Int
  stop : Int
  incr : Int
  chunkSize : Int
  start_fits : Fits 32 start
  stop_fits : Fits 32 stop
  incr_fits : Fits 32 incr
  chunkSize_fits : Fits 32 chunkSize
  incr_ne : incr ≠ 0
  one_le_chunkSize : 1 ≤ chunkSize

structure LoopTeam (Thread : Type*) where
  ws : Option LoopShare
  started : Thread → Bool

inductive LoopCall (Thread : Type*) where
  | start (t : Thread)
  | next (t : Thread)

inductive LoopEvent (Thread : Type*) where
  | handed (t : Thread) (istart iend : Int)
  | noMoreWork (t : Thread)
  | undefined (t : Thread)

variable {Thread : Type*} [DecidableEq Thread]

def LoopTeam.fresh : LoopTeam Thread := ⟨none, fun _ => false⟩

/-- The state and the event a call of thread `t` ends in. -/
def LoopTeam.finish (s : LoopTeam Thread) (t : Thread) :
    Option (LoopShare × Fetched) → LoopTeam Thread × List (LoopEvent Thread)
  | none => (s, [.undefined t])
  | some (ws, ⟨true, some (istart, iend)⟩) => ({ s with ws }, [.handed t istart iend])
  | some (ws, _) => ({ s with ws }, [.noMoreWork t])

/-- A team that runs the loop `l`: each thread starts it once and then asks for more. -/
def dynamicLoop (l : DynamicLoop) :
    Machine (LoopTeam Thread) (LoopCall Thread) (LoopEvent Thread) := fun s call =>
  match call with
  | .start t =>
    if s.started t then none
    else
      some ({ s with started := Function.update s.started t true }.finish t
        (gompLoopDynamicStart s.ws l.start l.stop l.incr l.chunkSize))
  | .next t =>
    match s.started t, s.ws with
    | true, some ws => some (s.finish t (gompIterDynamicNext ws))
    | _, _ => none

namespace DynamicLoop

/-- The iterations generated code makes from `istart` up to the exclusive end `iend`. -/
def runs (l : DynamicLoop) (chunk : Int × Int) : Set Int := before chunk.1 chunk.2 l.incr

def iterations (l : DynamicLoop) : Set Int := before l.start l.stop l.incr

end DynamicLoop

def LoopEvent.chunk? : LoopEvent Thread → Option (Int × Int)
  | .handed _ istart iend => some (istart, iend)
  | _ => none

def LoopEvent.IsNoMoreWork : LoopEvent Thread → Prop
  | .noMoreWork _ => True
  | _ => False

/-- The chunks handed out, in order. -/
def chunks (h : List (LoopEvent Thread)) : List (Int × Int) := h.filterMap LoopEvent.chunk?

/-- The loop is shared out as it should be.  `ends` bounds the calls after which it is exhausted. -/
structure SharedOut (l : DynamicLoop) (h : List (LoopEvent Thread)) : Prop where
  defined : ∀ t, .undefined t ∉ h
  disjoint : (chunks h).Pairwise fun p q => Disjoint (l.runs p) (l.runs q)
  within : ∀ p ∈ chunks h, l.runs p ⊆ l.iterations
  full : ∀ p ∈ (chunks h).dropLast, ((l.runs p).ncard : Int) = l.chunkSize
  last : ∀ p ∈ chunks h, 0 < (l.runs p).ncard ∧ ((l.runs p).ncard : Int) ≤ l.chunkSize
  complete : ∀ t, .noMoreWork t ∈ h → ⋃ p ∈ chunks h, l.runs p = l.iterations
  exhausted : h.Pairwise fun e e' => e.IsNoMoreWork → e'.IsNoMoreWork
  ends : l.iterations.ncard < h.length → ∃ t, .noMoreWork t ∈ h

/-- The loop has no iterations, or its chunks and its extent fit in an `int`. -/
def DynamicLoop.Representable (l : DynamicLoop) : Prop :=
  (l.start = l.stop ∨ l.incr > 0 ∧ l.start > l.stop ∨ l.incr < 0 ∧ l.start < l.stop) ∨
    Fits 32 (l.chunkSize * l.incr) ∧ Fits 32 (l.stop - l.start)

theorem ncard_terms {l d : Int} (hd : d ≠ 0) (n : Nat) : (terms l d n).ncard = n := by
  have himage : terms l d n = (fun j : Nat => l + j * d) '' (Finset.range n : Set Nat) := by
    ext x
    constructor
    · intro h
      obtain ⟨j, hj, rfl⟩ := h
      exact ⟨j, by simpa using hj, rfl⟩
    · intro h
      obtain ⟨j, hj, rfl⟩ := h
      exact ⟨j, by simpa using hj, rfl⟩
  rw [himage, Set.ncard_image_of_injective _ (fun i j h => step_injective hd h),
    Set.ncard_coe_finset, Finset.card_range]

namespace DynamicLoop

variable (l : DynamicLoop)

/-- The field `end` after the set-up. -/
def canonicalEnd : Int := (gompLoopInit l.start l.stop l.incr l.chunkSize).stop

def trips : Nat := tripCount l.start (l.canonicalEnd - l.incr.sign) l.incr

/-- The value of `next` after `a` iterations have been handed out. -/
def cut (a : Nat) : Int := if a < l.trips then l.start + a * l.incr else l.canonicalEnd

/-- The iterations in one chunk. -/
def chunkTrips : Nat := l.chunkSize.toNat

/-- The fields after `a` iterations have been handed out. -/
def share (a : Nat) : LoopShare := ⟨l.chunkSize, l.canonicalEnd, l.incr, l.cut a⟩

variable {l} {a : Nat}

theorem chunkTrips_cast : (l.chunkTrips : Int) = l.chunkSize := by
  have h := l.one_le_chunkSize
  exact Int.toNat_of_nonneg (by omega)

theorem chunkTrips_pos : 0 < l.chunkTrips := by
  have h := l.one_le_chunkSize
  have hcast := l.chunkTrips_cast
  omega

theorem canonicalEnd_cases :
    l.canonicalEnd = l.start ∧ (l.incr > 0 ∧ l.start > l.stop ∨ l.incr < 0 ∧ l.start < l.stop) ∨
      l.canonicalEnd = l.stop ∧
        ¬ (l.incr > 0 ∧ l.start > l.stop ∨ l.incr < 0 ∧ l.start < l.stop) := by
  unfold canonicalEnd gompLoopInit
  by_cases h : l.incr > 0 ∧ l.start > l.stop ∨ l.incr < 0 ∧ l.start < l.stop
  · simp [h]
  · simp [h]

/-- The end of the loop is past the start exactly when there is an iteration. -/
theorem trips_pos_iff : 0 < l.trips ↔ if 0 < l.incr then l.start < l.stop else l.stop < l.start := by
  have hne := l.incr_ne
  have hpos : 0 < l.trips ↔ Within l.incr l.start (l.canonicalEnd - l.incr.sign) := by
    unfold trips tripCount
    split
    · next h => simp [h]
    · next h => simp [h]
  rw [hpos]
  unfold Within
  by_cases h : 0 < l.incr
  · rw [if_pos h, if_pos h, Int.sign_eq_one_of_pos h]
    rcases l.canonicalEnd_cases with ⟨heq, hcond⟩ | ⟨heq, hcond⟩ <;> rw [heq] <;> omega
  · have hneg : l.incr < 0 := by omega
    rw [if_neg h, if_neg h, Int.sign_eq_neg_one_of_neg hneg]
    rcases l.canonicalEnd_cases with ⟨heq, hcond⟩ | ⟨heq, hcond⟩ <;> rw [heq] <;> omega

theorem canonicalEnd_eq (h : 0 < l.trips) : l.canonicalEnd = l.stop := by
  rw [trips_pos_iff] at h
  rcases l.canonicalEnd_cases with ⟨-, hcond⟩ | ⟨heq, -⟩
  · split at h <;> omega
  · exact heq

theorem iterations_eq : l.iterations = terms l.start l.incr l.trips := by
  have hcount : tripCount l.start (l.stop - l.incr.sign) l.incr = l.trips := by
    rcases Nat.eq_zero_or_pos l.trips with hzero | hpos
    · have hnone := trips_pos_iff.not.mp (by omega : ¬ 0 < l.trips)
      rw [hzero, tripCount, if_neg]
      unfold Within
      by_cases h : 0 < l.incr
      · rw [if_pos h] at hnone ⊢
        rw [Int.sign_eq_one_of_pos h]
        omega
      · have hne := l.incr_ne
        rw [if_neg h] at hnone ⊢
        rw [Int.sign_eq_neg_one_of_neg (by omega)]
        omega
    · rw [trips, canonicalEnd_eq hpos]
  rw [iterations, before, visited_eq_terms l.incr_ne, hcount]

/-- The first `trips` terms are the ones before the end. -/
theorem lt_trips_iff (h : 0 < l.trips) : a < l.trips ↔
    if 0 < l.incr then l.start + a * l.incr < l.stop else l.stop < l.start + a * l.incr := by
  have hin : Within l.incr l.start (l.canonicalEnd - l.incr.sign) := by
    by_contra hout
    rw [trips, tripCount, if_neg hout] at h
    exact absurd h (lt_irrefl 0)
  have hstep := within_step_iff l.incr_ne hin a
  rw [trips, ← hstep, canonicalEnd_eq h]
  unfold Within
  by_cases hd : 0 < l.incr
  · rw [if_pos hd, if_pos hd, Int.sign_eq_one_of_pos hd]
    omega
  · have hne := l.incr_ne
    rw [if_neg hd, if_neg hd, Int.sign_eq_neg_one_of_neg (by omega)]
    omega

theorem cut_eq_end_iff : l.cut a = l.canonicalEnd ↔ l.trips ≤ a := by
  constructor
  · intro h
    by_contra hlt
    have hlt : a < l.trips := by omega
    have hpos : 0 < l.trips := by omega
    have hside := (lt_trips_iff hpos).mp hlt
    rw [cut, if_pos hlt, canonicalEnd_eq hpos] at h
    split at hside <;> omega
  · intro h
    exact if_neg (by omega)

/-- The iterations between two cuts. -/
theorem runs_cut (ha : a < l.trips) (b : Nat) (hab : a ≤ b) (hb : b ≤ l.trips) :
    l.runs (l.cut a, l.cut b) = terms (l.start + a * l.incr) l.incr (b - a) := by
  have hpos : 0 < l.trips := by omega
  rw [runs]
  by_cases hbt : b < l.trips
  · have hstep : l.cut b = l.start + a * l.incr + (b - a : Nat) * l.incr := by
      rw [cut, if_pos hbt]
      push_cast [hab]
      ring
    rw [hstep, cut, if_pos ha]
    exact before_exact l.incr_ne _
  · have hbeq : b = l.trips := by omega
    subst hbeq
    rw [cut, if_pos ha, cut, if_neg (lt_irrefl _), before, visited_shift l.incr_ne]
    rfl

/-- The next chunk ends `chunkTrips` iterations later, or at the end. -/
theorem chunkEnd_share (hrep : l.Representable) (ha : a < l.trips) :
    chunkEnd (l.share a) l.incr l.chunkSize = some (l.cut (min (a + l.chunkTrips) l.trips)) := by
  have hpos : 0 < l.trips := by omega
  have hne := l.incr_ne
  have hside := trips_pos_iff.mp hpos
  have hcast := l.chunkTrips_cast
  have hnow := (lt_trips_iff hpos).mp ha
  have hlater := lt_trips_iff (a := a + l.chunkTrips) hpos
  have hend := canonicalEnd_eq hpos
  have hfits : Fits 32 (l.chunkSize * l.incr) ∧ Fits 32 (l.stop - l.start) := by
    rcases hrep with hempty | hfits
    · split at hside <;> omega
    · exact hfits
  obtain ⟨hchunk, hextent⟩ := hfits
  have hcut : l.cut a = l.start + a * l.incr := if_pos ha
  have hstep : l.start + ((a + l.chunkTrips : Nat) : Int) * l.incr
      = l.start + a * l.incr + l.chunkSize * l.incr := by
    push_cast [hcast]
    ring
  have hfirst := l.start_fits
  have hlast := l.stop_fits
  rw [hstep] at hlater
  have hsigns : 0 < l.incr ∧ 0 ≤ (a : Int) * l.incr ∧ 0 < l.chunkSize * l.incr ∨
      l.incr < 0 ∧ (a : Int) * l.incr ≤ 0 ∧ l.chunkSize * l.incr < 0 := by
    have hone := l.one_le_chunkSize
    rcases lt_or_gt_of_ne hne with hd | hd
    · exact Or.inr ⟨hd, mul_nonpos_of_nonneg_of_nonpos (by positivity) hd.le,
        mul_neg_of_pos_of_neg (by omega) hd⟩
    · exact Or.inl ⟨hd, by positivity, mul_pos (by omega) hd⟩
  have hnext : l.cut (min (a + l.chunkTrips) l.trips) =
      if a + l.chunkTrips < l.trips then l.start + a * l.incr + l.chunkSize * l.incr
      else l.stop := by
    by_cases hlt : a + l.chunkTrips < l.trips
    · rw [if_pos hlt, min_eq_left hlt.le, cut, if_pos hlt, hstep]
    · rw [if_neg hlt, min_eq_right (by omega), cut, if_neg (lt_irrefl _), hend]
  rw [hnext]
  have hmul := mul_eq_some.mpr ⟨hchunk, rfl⟩
  simp only [chunkEnd, share, hcut, hend, hmul, Option.bind_eq_bind, Option.bind_some]
  generalize (a : Int) * l.incr = x at *
  generalize l.chunkSize * l.incr = y at *
  have hzero := fits_zero 32
  have hleft : Fits 32 (l.stop - (l.start + x)) := by
    rcases hsigns with ⟨hd, hx, hy⟩ | ⟨hd, hx, hy⟩
    · rw [if_pos hd] at hnow
      exact hzero.between hextent (Or.inl ⟨by omega, by omega⟩)
    · rw [if_neg (by omega)] at hnow
      exact hzero.between hextent (Or.inr ⟨by omega, by omega⟩)
  rw [sub_eq_some.mpr ⟨hleft, rfl⟩]
  simp only [Option.bind_some, add_eq_some]
  rcases hsigns with ⟨hd, hx, hy⟩ | ⟨hd, hx, hy⟩
  · rw [if_pos hd] at hnow hlater
    rw [if_neg (by omega : ¬ l.incr < 0)]
    by_cases hlt : a + l.chunkTrips < l.trips
    · have hroom := hlater.mp hlt
      rw [if_pos hlt, if_neg (by omega)]
      exact ⟨hfirst.between hlast (Or.inl ⟨by omega, by omega⟩), rfl⟩
    · have hover := hlater.not.mp hlt
      rw [if_neg hlt]
      split
      · exact ⟨hfirst.between hlast (Or.inl ⟨by omega, by omega⟩), by omega⟩
      · exact ⟨hfirst.between hlast (Or.inl ⟨by omega, by omega⟩), by omega⟩
  · rw [if_neg (by omega : ¬ 0 < l.incr)] at hnow hlater
    rw [if_pos hd]
    by_cases hlt : a + l.chunkTrips < l.trips
    · have hroom := hlater.mp hlt
      rw [if_pos hlt, if_neg (by omega)]
      exact ⟨hfirst.between hlast (Or.inr ⟨by omega, by omega⟩), rfl⟩
    · have hover := hlater.not.mp hlt
      rw [if_neg hlt]
      split
      · exact ⟨hfirst.between hlast (Or.inr ⟨by omega, by omega⟩), by omega⟩
      · exact ⟨hfirst.between hlast (Or.inr ⟨by omega, by omega⟩), by omega⟩

theorem cut_zero : l.cut 0 = l.start := by
  unfold cut
  split
  · simp
  · next h =>
    have hnone := trips_pos_iff.not.mp h
    have hne := l.incr_ne
    rcases l.canonicalEnd_cases with ⟨heq, -⟩ | ⟨heq, hcond⟩
    · exact heq
    · rw [heq]
      split at hnone <;> omega

theorem share_zero : gompLoopInit l.start l.stop l.incr l.chunkSize = l.share 0 := by
  rw [share, cut_zero]
  rfl

/-- Where the chunk that starts after `a` iterations ends. -/
def after (l : DynamicLoop) (a : Nat) : Nat := min (a + l.chunkTrips) l.trips

theorem lt_after (ha : a < l.trips) : a < l.after a := by
  have hpos := l.chunkTrips_pos
  unfold after
  omega

theorem after_le : l.after a ≤ l.trips := min_le_right _ _

theorem share_next_eq_stop_iff : (l.share a).next = (l.share a).stop ↔ l.trips ≤ a :=
  cut_eq_end_iff

theorem gompIterDynamicNext_more (hrep : l.Representable) (ha : a < l.trips) :
    gompIterDynamicNext (l.share a) =
      some (l.share (l.after a), ⟨true, some (l.cut a, l.cut (l.after a))⟩) := by
  have hmore := share_next_eq_stop_iff.not.mpr (by omega : ¬ l.trips ≤ a)
  have hend : chunkEnd (l.share a) (l.share a).incr (l.share a).chunkSize = _ :=
    chunkEnd_share hrep ha
  rw [gompIterDynamicNext, if_neg hmore, hend]
  rfl

theorem gompIterDynamicNext_end (ha : l.trips ≤ a) :
    gompIterDynamicNext (l.share a) = some (l.share a, ⟨false, none⟩) :=
  if_pos (share_next_eq_stop_iff.mpr ha)

theorem gompLoopDynamicStart_more (hrep : l.Representable) (ha : a < l.trips)
    {ws : Option LoopShare} (hws : ws.getD (l.share 0) = l.share a) :
    gompLoopDynamicStart ws l.start l.stop l.incr l.chunkSize =
      some (l.share (l.after a), ⟨true, some (l.cut a, l.cut (l.after a))⟩) := by
  have hmore := share_next_eq_stop_iff.not.mpr (by omega : ¬ l.trips ≤ a)
  simp only [gompLoopDynamicStart, share_zero, hws]
  rw [if_neg hmore, chunkEnd_share hrep ha]
  rfl

theorem gompLoopDynamicStart_end (ha : l.trips ≤ a) {ws : Option LoopShare}
    (hws : ws.getD (l.share 0) = l.share a) :
    ∃ stored, gompLoopDynamicStart ws l.start l.stop l.incr l.chunkSize =
      some (l.share a, ⟨false, stored⟩) := by
  simp only [gompLoopDynamicStart, share_zero, hws]
  exact ⟨_, if_pos (share_next_eq_stop_iff.mpr ha)⟩

end DynamicLoop

/-- The first start of a loop that is not empty computes the chunk and what is left. -/
theorem gompLoopDynamicStart_undefined {l : DynamicLoop} (hrep : ¬ l.Representable) :
    gompLoopDynamicStart none l.start l.stop l.incr l.chunkSize = none := by
  unfold DynamicLoop.Representable at hrep
  obtain ⟨hmore, hover⟩ := not_or.mp hrep
  obtain ⟨hne, hside⟩ := not_or.mp hmore
  have hinit : gompLoopInit l.start l.stop l.incr l.chunkSize =
      ⟨l.chunkSize, l.stop, l.incr, l.start⟩ := by
    simp only [gompLoopInit, if_neg hside]
  have hend : chunkEnd ⟨l.chunkSize, l.stop, l.incr, l.start⟩ l.incr l.chunkSize = none := by
    unfold chunkEnd
    by_cases hchunk : Fits 32 (l.chunkSize * l.incr)
    · have hleft : ¬ Fits 32 (l.stop - l.start) := fun h => hover ⟨hchunk, h⟩
      simp [mul, sub, narrow, hchunk, hleft]
    · simp [mul, narrow, hchunk]
  simp only [gompLoopDynamicStart, Option.getD_none, hinit, if_neg hne, hend]
  rfl

section Chunks

variable (h : List (LoopEvent Thread)) (t : Thread) (istart iend : Int)

omit [DecidableEq Thread]

@[simp] theorem chunks_handed : chunks (h ++ [.handed t istart iend]) = chunks h ++ [(istart, iend)] := by
  simp [chunks, LoopEvent.chunk?]

@[simp] theorem chunks_noMoreWork : chunks (h ++ [.noMoreWork t]) = chunks h := by
  simp [chunks, LoopEvent.chunk?]

end Chunks

/-- After some calls, `a` iterations have been handed out in chunks. -/
structure LoopTeam.At (l : DynamicLoop) (a : Nat) (s : LoopTeam Thread)
    (h : List (LoopEvent Thread)) : Prop where
  count : a ≤ l.trips
  ws : s.ws.getD (l.share 0) = l.share a
  defined : ∀ t, .undefined t ∉ h
  disjoint : (chunks h).Pairwise fun p q => Disjoint (l.runs p) (l.runs q)
  covered : ⋃ p ∈ chunks h, l.runs p = terms l.start l.incr a
  full : ∀ p ∈ chunks h, (l.runs p).ncard = l.chunkTrips ∨ a = l.trips
  earlier : ∀ p ∈ (chunks h).dropLast, (l.runs p).ncard = l.chunkTrips
  last : ∀ p ∈ chunks h, 0 < (l.runs p).ncard ∧ (l.runs p).ncard ≤ l.chunkTrips
  told : ∀ t, .noMoreWork t ∈ h → a = l.trips
  exhausted : h.Pairwise fun e e' => e.IsNoMoreWork → e'.IsNoMoreWork
  progress : (∀ t, .noMoreWork t ∉ h) → h.length ≤ a

section Steps

variable {l : DynamicLoop} {a : Nat} {s s' : LoopTeam Thread} {h es : List (LoopEvent Thread)}
  {t : Thread} {call : LoopCall Thread}

omit [DecidableEq Thread]

theorem LoopTeam.At.sharedOut (hat : s.At l a h) : SharedOut l h := by
  have hcast := l.chunkTrips_cast
  constructor
  · exact hat.defined
  · exact hat.disjoint
  · intro p hp x hx
    have hcov : x ∈ ⋃ p ∈ chunks h, l.runs p := Set.mem_biUnion hp hx
    rw [hat.covered] at hcov
    obtain ⟨j, hj, rfl⟩ := hcov
    rw [DynamicLoop.iterations_eq]
    exact ⟨j, hj.trans_le hat.count, rfl⟩
  · intro p hp
    rw [hat.earlier p hp, hcast]
  · intro p hp
    obtain ⟨hpos, hle⟩ := hat.last p hp
    exact ⟨hpos, by omega⟩
  · intro t ht
    rw [hat.covered, hat.told t ht, DynamicLoop.iterations_eq]
  · exact hat.exhausted
  · intro hlong
    by_contra hnone
    have hle := hat.progress (fun t ht => hnone ⟨t, ht⟩)
    have hcount := hat.count
    rw [DynamicLoop.iterations_eq, ncard_terms l.incr_ne] at hlong
    omega

/-- A call that finds nothing left. -/
theorem LoopTeam.At.noMoreWork (hat : s.At l a h) (ha : l.trips ≤ a)
    (hws : s'.ws = some (l.share a)) : s'.At l a (h ++ [.noMoreWork t]) := by
  have hall : a = l.trips := le_antisymm hat.count ha
  constructor
  · exact hat.count
  · simp [hws]
  · intro k hk
    simp only [List.mem_append, List.mem_singleton, reduceCtorEq, or_false] at hk
    exact hat.defined k hk
  · simpa using hat.disjoint
  · simpa using hat.covered
  · simpa using hat.full
  · simpa using hat.earlier
  · simpa using hat.last
  · intro _ _
    exact hall
  · rw [List.pairwise_append]
    refine ⟨hat.exhausted, List.pairwise_singleton _ _, ?_⟩
    intro e _ e' he' _
    rw [List.mem_singleton.mp he']
    trivial
  · intro hnone
    exact absurd (List.mem_append_right _ (List.mem_singleton_self _)) (hnone t)

/-- A call that takes a chunk. -/
theorem LoopTeam.At.handed (hat : s.At l a h) (ha : a < l.trips)
    (hws : s'.ws = some (l.share (l.after a))) :
    s'.At l (l.after a) (h ++ [.handed t (l.cut a) (l.cut (l.after a))]) := by
  have hlt := DynamicLoop.lt_after ha
  have hruns := DynamicLoop.runs_cut ha (l.after a) hlt.le DynamicLoop.after_le
  have hsize : (l.runs (l.cut a, l.cut (l.after a))).ncard = l.after a - a := by
    rw [hruns, ncard_terms l.incr_ne]
  have hmore : ∀ t, .noMoreWork t ∉ h := by
    intro k hk
    have hall := hat.told k hk
    omega
  have hfull : ∀ p ∈ chunks h, (l.runs p).ncard = l.chunkTrips := by
    intro p hp
    rcases hat.full p hp with heq | hall
    · exact heq
    · omega
  constructor
  · exact DynamicLoop.after_le
  · simp [hws]
  · intro k hk
    simp only [List.mem_append, List.mem_singleton, reduceCtorEq, or_false] at hk
    exact hat.defined k hk
  · rw [chunks_handed, List.pairwise_append]
    refine ⟨hat.disjoint, List.pairwise_singleton _ _, ?_⟩
    intro p hp q hq
    rw [List.mem_singleton.mp hq, hruns, Set.disjoint_left]
    intro x hx hx'
    have hcov : x ∈ ⋃ p ∈ chunks h, l.runs p := Set.mem_biUnion hp hx
    rw [hat.covered] at hcov
    obtain ⟨i, hi, rfl⟩ := hcov
    obtain ⟨j, hj, -, heq⟩ := (mem_terms_shift a _).mp hx'
    have hij := step_injective l.incr_ne heq
    omega
  · have hunion : ⋃ p ∈ chunks h ++ [(l.cut a, l.cut (l.after a))], l.runs p =
        (⋃ p ∈ chunks h, l.runs p) ∪ l.runs (l.cut a, l.cut (l.after a)) := by
      ext x
      simp [or_and_right, exists_or]
    rw [chunks_handed, hunion, hat.covered, hruns, terms_union hlt.le]
  · intro p hp
    rw [chunks_handed, List.mem_append, List.mem_singleton] at hp
    rcases hp with hp | rfl
    · exact Or.inl (hfull p hp)
    · rw [hsize]
      unfold DynamicLoop.after
      omega
  · rw [chunks_handed, List.dropLast_concat]
    exact hfull
  · intro p hp
    rw [chunks_handed, List.mem_append, List.mem_singleton] at hp
    rcases hp with hp | rfl
    · exact hat.last p hp
    · rw [hsize]
      unfold DynamicLoop.after at hlt ⊢
      omega
  · intro k hk
    simp only [List.mem_append, List.mem_singleton, reduceCtorEq, or_false] at hk
    exact absurd hk (hmore k)
  · rw [List.pairwise_append]
    refine ⟨hat.exhausted, List.pairwise_singleton _ _, ?_⟩
    intro e he _ _ hno
    cases e with
    | noMoreWork k => exact absurd he (hmore k)
    | handed k istart iend => exact absurd hno id
    | undefined k => exact absurd hno id
  · intro _
    have hle := hat.progress hmore
    rw [List.length_append, List.length_singleton]
    omega

end Steps

section Runs

variable {l : DynamicLoop} {a : Nat} {s s' : LoopTeam Thread} {h es : List (LoopEvent Thread)}
  {call : LoopCall Thread}

omit [DecidableEq Thread] in
theorem LoopTeam.At.fresh : (LoopTeam.fresh : LoopTeam Thread).At l 0 [] where
  count := Nat.zero_le _
  ws := rfl
  defined := by simp
  disjoint := List.Pairwise.nil
  covered := by simp [chunks]
  full := by simp [chunks]
  earlier := by simp [chunks]
  last := by simp [chunks]
  told := by simp
  exhausted := List.Pairwise.nil
  progress := by simp

theorem LoopTeam.At.step (hrep : l.Representable) (hat : s.At l a h)
    (hstep : dynamicLoop l s call = some (s', es)) : ∃ b, s'.At l b (h ++ es) := by
  rcases Nat.lt_or_ge a l.trips with ha | ha
  · refine ⟨l.after a, ?_⟩
    cases call with
    | start t =>
      simp only [dynamicLoop, DynamicLoop.gompLoopDynamicStart_more hrep ha hat.ws] at hstep
      split at hstep
      · cases hstep
      · cases hstep
        exact hat.handed ha rfl
    | next t =>
      simp only [dynamicLoop] at hstep
      split at hstep
      · next ws hstarted hws =>
        have hshare := hat.ws
        rw [hws, Option.getD_some] at hshare
        rw [hshare, DynamicLoop.gompIterDynamicNext_more hrep ha] at hstep
        cases hstep
        exact hat.handed ha rfl
      · cases hstep
  · refine ⟨a, ?_⟩
    cases call with
    | start t =>
      obtain ⟨stored, hcall⟩ := DynamicLoop.gompLoopDynamicStart_end ha hat.ws
      simp only [dynamicLoop, hcall] at hstep
      split at hstep
      · cases hstep
      · cases hstep
        exact hat.noMoreWork ha rfl
    | next t =>
      simp only [dynamicLoop] at hstep
      split at hstep
      · next ws hstarted hws =>
        have hshare := hat.ws
        rw [hws, Option.getD_some] at hshare
        rw [hshare, DynamicLoop.gompIterDynamicNext_end ha] at hstep
        cases hstep
        exact hat.noMoreWork ha rfl
      · cases hstep

end Runs

/-- In every run of any threads the loop is shared out as it should be, if and only if it is empty
or its chunks and its extent fit in an `int`. -/
theorem gomp_loop_dynamic_iff [Nonempty Thread] (l : DynamicLoop) :
    (∀ (calls : List (LoopCall Thread)) (s : LoopTeam Thread) (h : List (LoopEvent Thread)),
      (dynamicLoop l).run LoopTeam.fresh calls = some (s, h) → SharedOut l h) ↔
    l.Representable := by
  constructor
  · intro hruns
    obtain ⟨t⟩ := ‹Nonempty Thread›
    by_contra hrep
    have hfirst := gompLoopDynamicStart_undefined hrep
    have hrun : (dynamicLoop l).run LoopTeam.fresh [.start t] =
        some (⟨none, Function.update (fun _ => false) t true⟩, [.undefined t]) := by
      simp [Machine.run, dynamicLoop, LoopTeam.fresh, hfirst, LoopTeam.finish]
    exact (hruns _ _ _ hrun).defined t (List.mem_singleton_self _)
  · intro hrep calls s h hrun
    have hinv := Machine.run_history (fun s h => ∃ a, LoopTeam.At l a s h) (fun _ _ => True)
      (fun s h call s' es hat _ hstep => hat.elim fun a hat => hat.step hrep hstep)
      (h := []) ⟨0, LoopTeam.At.fresh⟩ (Machine.along_of_forall fun _ _ _ => trivial) hrun
    obtain ⟨a, hat⟩ := hinv
    exact hat.sharedOut

/-- With an increment of four, chunks of 2^30 iterations do not fit in an `int`. -/
def hugeChunks : DynamicLoop where
  start := 0
  stop := 8
  incr := 4
  chunkSize := 2 ^ 30
  start_fits := by decide
  stop_fits := by decide
  incr_fits := by decide
  chunkSize_fits := by decide
  incr_ne := by decide
  one_le_chunkSize := by decide

theorem gomp_loop_dynamic_not_shared : ∃ (s : LoopTeam Unit) (h : List (LoopEvent Unit)),
    (dynamicLoop hugeChunks).run LoopTeam.fresh [.start ()] = some (s, h) ∧
      ¬ SharedOut hugeChunks h := by
  refine ⟨_, [.undefined ()], rfl, ?_⟩
  intro hshared
  exact hshared.defined () (List.mem_singleton_self _)

/-- A loop that ends next to the largest `int`. -/
def atTheLimit : DynamicLoop where
  start := 2 ^ 31 - 6
  stop := 2 ^ 31 - 1
  incr := 2
  chunkSize := 2
  start_fits := by decide
  stop_fits := by decide
  incr_fits := by decide
  chunkSize_fits := by decide
  incr_ne := by decide
  one_le_chunkSize := by decide

theorem gomp_loop_dynamic_at_the_limit : atTheLimit.Representable ∧
    ∀ (calls : List (LoopCall Bool)) (s : LoopTeam Bool) (h : List (LoopEvent Bool)),
      (dynamicLoop atTheLimit).run LoopTeam.fresh calls = some (s, h) →
        SharedOut atTheLimit h := by
  have hrep : atTheLimit.Representable := Or.inr ⟨by decide, by decide⟩
  exact ⟨hrep, (gomp_loop_dynamic_iff atTheLimit).mpr hrep⟩

end Hero.Libgomp
