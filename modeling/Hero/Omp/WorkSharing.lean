import Hero.Omp.ParallelRegion

/-!
# Sections and singles

The constructs that hand out pieces of work by epochs: a thread takes part in a construct as long as
its own epoch is the one of the team, and both advance by one with every construct.
-/

namespace Hero.Omp

open Hero.Checked

inductive Construct where
  | sections (count : BitVec 32)
  | single

/-- The mutex-protected section of `sectionInit`: whether to go on with `sectionGet`.  No result is a
signed overflow, here and below. -/
def sectionInit (team : Team) (epoch : Int) (count : BitVec 32) : Option (Team × Int × Bool) :=
  if team.loopEpoch - epoch = 0 then
    if team.loopIsSetup then some (team, epoch, true)
    else
      some ({ team with
        loopIsSetup := true, loopStart := 1, loopEnd := (count + 1#32).toInt }, epoch, true)
  else do
    let epoch ← add 32 epoch 1
    return (team, epoch, false)

/-- The mutex-protected section of `sectionGet` -/
def sectionGet (team : Team) (epoch : Int) : Option (Team × Int × Int) :=
  if team.loopEpoch - epoch = 0 then do
    let start := team.loopStart
    let loopStart ← add 32 team.loopStart 1
    if start ≥ team.loopEnd then
      let loopEpoch ← add 32 team.loopEpoch 1
      let epoch ← add 32 epoch 1
      return ({ team with loopStart, loopEpoch, loopIsSetup := false }, epoch, 0)
    else return ({ team with loopStart }, epoch, start)
  else do
    let epoch ← add 32 epoch 1
    return (team, epoch, 0)

/-- The mutex-protected section of `singleStart` -/
def singleStart (team : Team) (epoch : Int) : Option (Team × Int × Bool) := do
  let result := decide (team.loopEpoch - epoch = 0)
  let loopEpoch ← if result then add 32 team.loopEpoch 1 else some team.loopEpoch
  let epoch ← add 32 epoch 1
  return ({ team with loopEpoch }, epoch, result)

/-- Where a thread stands: before a construct or inside of it, about to call `sectionGet` -/
structure Place where
  construct : Nat
  inside : Bool

/-- A piece of work a thread got: the number of a section, or 0 for the body of a single. -/
structure Executed where
  core : Nat
  construct : Nat
  number : Int

/-- A parallel region that is being run -/
structure ActiveRegion where
  prog : List Construct
  numThreads : Int
  nbCores : Nat
  cores : List Nat
  place : Nat → Place
  log : List Executed

structure WorkState where
  omp : OmpData
  region : Option ActiveRegion

inductive WorkOp where
  | fork (numThreads : Int) (prog : List Construct)
  | step (core : Nat)
  | join

/-- `parallelRegion` up to the region and from there on -/
def OmpData.enter (omp : OmpData) (numThreads : Int) : OmpData :=
  if omp.plain numThreads then omp else omp.partialEnter numThreads

def OmpData.leave (omp : OmpData) (numThreads : Int) (nbCores : Nat) : OmpData :=
  if omp.plain numThreads then omp else omp.partialLeave nbCores

theorem parallelRegion_eq (omp : OmpData) (n : Int) : omp.parallelRegion n =
    ((omp.enter n).parallelRegionExec, (omp.enter n).leave n omp.nbThreads) := by
  have hplain : (omp.partialEnter n).plain n = omp.plain n := rfl
  cases hcase : omp.plain n with
  | true => simp [OmpData.parallelRegion, OmpData.enter, OmpData.leave, hcase]
  | false =>
    simp [OmpData.parallelRegion, OmpData.enter, OmpData.leave, hcase, hplain,
      OmpData.partialParallelRegion]

/-- What a thread does next in its program; the last component is the work it gets. -/
def threadStep (prog : List Construct) (team : Team) (epoch : Int) (place : Place) :
    Option (Team × Int × Place × Option Int) :=
  let next : Place := ⟨place.construct + 1, false⟩
  match prog[place.construct]? with
  | none => none
  | some .single => do
    let (team, epoch, result) ← singleStart team epoch
    return (team, epoch, next, if result then some 0 else none)
  | some (.sections count) =>
    if place.inside then do
      let (team, epoch, number) ← sectionGet team epoch
      return if number = 0 then (team, epoch, next, none) else (team, epoch, place, some number)
    else do
      let (team, epoch, go) ← sectionInit team epoch count
      return (team, epoch, if go then { place with inside := true } else next, none)

/-- All threads have run all constructs. -/
def ActiveRegion.Finished (a : ActiveRegion) : Prop :=
  ∀ c ∈ a.cores, (a.place c).construct = a.prog.length

instance (a : ActiveRegion) : Decidable a.Finished := inferInstanceAs (Decidable (∀ c ∈ a.cores, _))

def OmpData.put (omp : OmpData) (c : Nat) (team : Team) (epoch : Int) : OmpData :=
  { omp with team, coreEpoch := Function.update omp.coreEpoch c epoch }

def ActiveRegion.goto (a : ActiveRegion) (c : Nat) (place : Place) (work : Option Int) :
    ActiveRegion :=
  { a with
    place := Function.update a.place c place
    log := (work.map fun number => ⟨c, (a.place c).construct, number⟩).toList ++ a.log }

section

variable (omp : OmpData) (a : ActiveRegion) (c d : Nat) (team : Team) (epoch : Int) (place : Place)
  (work : Option Int)

@[simp] theorem put_team : (omp.put c team epoch).team = team := rfl

@[simp] theorem put_coreEpoch : (omp.put c team epoch).coreEpoch d =
    if d = c then epoch else omp.coreEpoch d := Function.update_apply ..

@[simp] theorem goto_prog : (a.goto c place work).prog = a.prog := rfl

@[simp] theorem goto_cores : (a.goto c place work).cores = a.cores := rfl

@[simp] theorem goto_place : (a.goto c place work).place d = if d = c then place else a.place d :=
  Function.update_apply ..

end

/-- The steps of the master that starts and ends regions and those of the threads in them -/
def workMachine : Machine WorkState WorkOp Empty := fun s op =>
  match op, s.region with
  | .fork n prog, none =>
    if 1 ≤ n ∧ n ≤ s.omp.nbThreads then
      let omp := s.omp.enter n
      some (⟨omp, some ⟨prog, n, s.omp.nbThreads, omp.parallelRegionExec.runs, fun _ => ⟨0, false⟩,
        []⟩⟩, [])
    else none
  | .step c, some a =>
    if c ∈ a.cores then do
      let (team, epoch, place, work) ← threadStep a.prog s.omp.team (s.omp.coreEpoch c) (a.place c)
      return (⟨s.omp.put c team epoch, some (a.goto c place work)⟩, [])
    else none
  | .join, some a =>
    if a.Finished then some (⟨s.omp.leave a.numThreads a.nbCores, none⟩, []) else none
  | _, _ => none

/-- The pieces of work of a program -/
def IsWork (prog : List Construct) (k : Nat) (j : Int) : Prop :=
  match prog[k]? with
  | some .single => j = 0
  | some (.sections count) => 1 ≤ j ∧ j ≤ count.toNat
  | none => False

instance (prog : List Construct) (k : Nat) (j : Int) : Decidable (IsWork prog k j) :=
  match h : prog[k]? with
  | some .single => decidable_of_iff (j = 0) (by rw [IsWork, h])
  | some (.sections count) => decidable_of_iff (1 ≤ j ∧ j ≤ count.toNat) (by rw [IsWork, h])
  | none => decidable_of_iff False (by rw [IsWork, h])

/-- How often a piece of work was done -/
def times (log : List Executed) (k : Nat) (j : Int) : Nat :=
  log.countP fun e => e.construct = k ∧ e.number = j

/-- Nothing else than the program's work is done, nothing is done twice, and all of it in the end. -/
structure ActiveRegion.Once (a : ActiveRegion) : Prop where
  le : ∀ k j, times a.log k j ≤ if IsWork a.prog k j then 1 else 0
  eq : a.Finished → ∀ k j, times a.log k j = if IsWork a.prog k j then 1 else 0

/-- The work is done once, and no thread gets stuck before its end. -/
def WorkOp.Good (s : WorkState) (op : WorkOp) : Prop :=
  ∀ a ∈ s.region, a.Once ∧ ∀ c ∈ a.cores, op = .step c →
    (a.place c).construct < a.prog.length → (workMachine s op).isSome

/-- The number of sections fits the loop fields. -/
def Construct.Fits : Construct → Prop
  | .sections count => count.toNat + 2 < 2 ^ 31
  | .single => True

instance : ∀ con : Construct, Decidable con.Fits
  | .sections _ => inferInstanceAs (Decidable (_ < _))
  | .single => isTrue trivial

/-- Each thread of a new region is in the epoch of the team, or so far ahead of it that the team does
not get there; and epochs do not overflow. -/
def WorkOp.Aligned (s : WorkState) : WorkOp → Prop
  | .fork n prog => (∀ con ∈ prog, con.Fits) ∧ s.omp.team.loopEpoch + prog.length < 2 ^ 31 ∧
    ∀ c ∈ (s.omp.enter n).parallelRegionExec.runs,
      (s.omp.coreEpoch c = s.omp.team.loopEpoch ∨
        s.omp.team.loopEpoch + prog.length < s.omp.coreEpoch c) ∧
      s.omp.coreEpoch c + prog.length < 2 ^ 31
  | _ => True

instance (s : WorkState) : ∀ op, Decidable (WorkOp.Aligned s op)
  | .fork _ _ => inferInstanceAs (Decidable (_ ∧ _))
  | .step _ => isTrue trivial
  | .join => isTrue trivial

@[simp] theorem times_nil (k : Nat) (j : Int) : times [] k j = 0 := rfl

theorem times_cons (e : Executed) (log : List Executed) (k : Nat) (j : Int) :
    times (e :: log) k j = times log k j + if e.construct = k ∧ e.number = j then 1 else 0 := by
  simp [times, List.countP_cons]

section

variable {team : Team} {epoch : Int}

/-- A thread that is not in the epoch of the team only advances its own. -/
theorem threadStep_skip {prog : List Construct} {place : Place}
    (hlt : place.construct < prog.length) (hne : epoch ≠ team.loopEpoch)
    (hfits : Fits 32 (epoch + 1)) :
    threadStep prog team epoch place = some (team, epoch + 1, ⟨place.construct + 1, false⟩, none) := by
  have hsub : ¬ team.loopEpoch - epoch = 0 := by omega
  have hadd : add 32 epoch 1 = some (epoch + 1) := add_eq_some.mpr ⟨hfits, rfl⟩
  rw [threadStep, List.getElem?_eq_getElem hlt]
  cases prog[place.construct] with
  | single => simp [singleStart, hsub, hadd]
  | sections count => cases hin : place.inside <;> simp [sectionInit, sectionGet, hsub, hadd]

theorem singleStart_own (h : epoch = team.loopEpoch) (hfits : Fits 32 (epoch + 1)) :
    singleStart team epoch = some ({ team with loopEpoch := team.loopEpoch + 1 }, epoch + 1, true) := by
  subst h
  have hadd : add 32 team.loopEpoch 1 = some (team.loopEpoch + 1) := add_eq_some.mpr ⟨hfits, rfl⟩
  simp [singleStart, hadd]

theorem sectionGet_last (h : epoch = team.loopEpoch) (hfits : Fits 32 (epoch + 1))
    (hstart : Fits 32 (team.loopStart + 1)) (hge : team.loopEnd ≤ team.loopStart) :
    sectionGet team epoch = some ({ team with
      loopStart := team.loopStart + 1, loopEpoch := team.loopEpoch + 1, loopIsSetup := false },
      epoch + 1, 0) := by
  subst h
  have hadd : add 32 team.loopEpoch 1 = some (team.loopEpoch + 1) := add_eq_some.mpr ⟨hfits, rfl⟩
  have hnext : add 32 team.loopStart 1 = some (team.loopStart + 1) := add_eq_some.mpr ⟨hstart, rfl⟩
  simp [sectionGet, hadd, hnext, hge]

theorem sectionGet_more (h : epoch = team.loopEpoch) (hstart : Fits 32 (team.loopStart + 1))
    (hlt : team.loopStart < team.loopEnd) : sectionGet team epoch =
      some ({ team with loopStart := team.loopStart + 1 }, epoch, team.loopStart) := by
  subst h
  have hnext : add 32 team.loopStart 1 = some (team.loopStart + 1) := add_eq_some.mpr ⟨hstart, rfl⟩
  simp [sectionGet, hnext, not_le.mpr hlt]

theorem loopEnd_eq {count : BitVec 32} (hcount : (Construct.sections count).Fits) :
    (count + 1#32).toInt = count.toNat + 1 := by
  have hlt : count.toNat + 2 < 2 ^ 31 := hcount
  rw [BitVec.toInt_eq_toNat_of_lt, BitVec.toNat_add]
  · change (((count.toNat + 1) % 2 ^ 32 : Nat) : Int) = _
    omega
  · rw [BitVec.toNat_add]
    change 2 * ((count.toNat + 1) % 2 ^ 32) < 2 ^ 32
    omega

end

/-- A region of which `done` constructs are over: the team is in the epoch of the next one, and no
thread is past it but for those that were ahead from the start. -/
structure Running (omp : OmpData) (a : ActiveRegion) (ahead : Nat → Int) (done : Nat) : Prop where
  le : done ≤ a.prog.length
  fits : ∀ con ∈ a.prog, con.Fits
  place : ∀ c ∈ a.cores, (a.place c).construct ≤ a.prog.length
  loopEpoch : 0 ≤ omp.team.loopEpoch ∧ omp.team.loopEpoch + a.prog.length < 2 ^ 31 + done
  coreEpoch : ∀ c ∈ a.cores, 0 ≤ omp.coreEpoch c ∧
    omp.coreEpoch c + a.prog.length < 2 ^ 31 + (a.place c).construct
  cores : ∀ c ∈ a.cores,
    omp.coreEpoch c + done = omp.team.loopEpoch + (a.place c).construct + ahead c ∧
      (ahead c = 0 ∧ (a.place c).construct ≤ done ∨ a.prog.length < ahead c)
  past : ∀ k < done, ∀ j, times a.log k j = if IsWork a.prog k j then 1 else 0
  future : ∀ k, done < k → ∀ j, times a.log k j = 0
  unset : omp.team.loopIsSetup = false → ∀ j, times a.log done j = 0
  set : omp.team.loopIsSetup = true → ∃ count, a.prog[done]? = some (.sections count) ∧
    omp.team.loopEnd = count.toNat + 1 ∧ 1 ≤ omp.team.loopStart ∧
    omp.team.loopStart ≤ omp.team.loopEnd ∧
    ∀ j, times a.log done j = if 1 ≤ j ∧ j < omp.team.loopStart then 1 else 0
  inside : ∀ c ∈ a.cores, (a.place c).inside = true → omp.coreEpoch c = omp.team.loopEpoch →
    omp.team.loopIsSetup = true

variable {omp : OmpData} {a : ActiveRegion} {ahead : Nat → Int} {done c : Nat} {team : Team} {log : List Executed}

/-- A thread in the epoch of the team is at the construct the team is at. -/
theorem Running.construct_eq (hrun : Running omp a ahead done) (hc : c ∈ a.cores)
    (hepoch : omp.coreEpoch c = omp.team.loopEpoch) : (a.place c).construct = done := by
  have hle := hrun.le
  have hcore := hrun.cores c hc
  omega

/-- A thread passes over a construct that is not the team's. -/
theorem Running.skip (hrun : Running omp a ahead done) (hlt : (a.place c).construct < a.prog.length)
    (hepoch : omp.coreEpoch c ≠ omp.team.loopEpoch) :
    Running (omp.put c omp.team (omp.coreEpoch c + 1))
      (a.goto c ⟨(a.place c).construct + 1, false⟩ none) ahead done := by
  refine ⟨hrun.le, hrun.fits, ?_, hrun.loopEpoch, ?_, ?_, hrun.past, hrun.future, hrun.unset,
    hrun.set, ?_⟩
  · intro d hd
    by_cases hdc : d = c
    · subst hdc
      simp
      omega
    · simp [hdc, hrun.place d hd]
  · intro d hd
    have hd' := hrun.coreEpoch d hd
    by_cases hdc : d = c
    · subst hdc
      simp
      omega
    · simpa [hdc] using hd'
  · intro d hd
    have hd' := hrun.cores d hd
    by_cases hdc : d = c
    · subst hdc
      simp
      omega
    · simpa [hdc] using hd'
  · intro d hd
    by_cases hdc : d = c
    · subst hdc
      simp
    · simpa [hdc] using hrun.inside d hd

/-- A thread in the team's construct, which is not over yet. -/
theorem Running.stay {b : Bool} {work : Option Int} (hrun : Running omp a ahead done)
    (hteam : team.loopEpoch = omp.team.loopEpoch) (hsetup : team.loopIsSetup = true)
    (hother : ∀ k, k ≠ done → ∀ j, times (a.goto c ⟨(a.place c).construct, b⟩ work).log k j =
      times a.log k j)
    (hset : ∃ count, a.prog[done]? = some (.sections count) ∧ team.loopEnd = count.toNat + 1 ∧
      1 ≤ team.loopStart ∧ team.loopStart ≤ team.loopEnd ∧
      ∀ j, times (a.goto c ⟨(a.place c).construct, b⟩ work).log done j =
        if 1 ≤ j ∧ j < team.loopStart then 1 else 0) :
    Running (omp.put c team (omp.coreEpoch c)) (a.goto c ⟨(a.place c).construct, b⟩ work) ahead
      done := by
  have hself : omp.put c team (omp.coreEpoch c) = { omp with team } := by
    rw [OmpData.put, Function.update_eq_self]
  have hplace : ∀ d, ((a.goto c ⟨(a.place c).construct, b⟩ work).place d).construct =
      (a.place d).construct := by
    intro d
    by_cases hdc : d = c
    · subst hdc
      simp
    · simp [hdc]
  rw [hself]
  refine ⟨hrun.le, hrun.fits, ?_, ?_, ?_, ?_, ?_, ?_, ?_, fun _ => hset, fun _ _ _ _ => hsetup⟩
  · simpa only [hplace, goto_prog, goto_cores] using hrun.place
  · simpa only [hteam, goto_prog] using hrun.loopEpoch
  · simpa only [hplace, goto_prog, goto_cores] using hrun.coreEpoch
  · simpa only [hplace, hteam, goto_prog, goto_cores] using hrun.cores
  · intro k hk j
    rw [goto_prog, ← hrun.past k hk j]
    exact hother k (by omega) j
  · intro k hk j
    rw [← hrun.future k hk j]
    exact hother k (by omega) j
  · intro hunset
    rw [hsetup] at hunset
    cases hunset

/-- A thread ends the team's construct, all of whose work is done. -/
theorem Running.advance {work : Option Int} (hrun : Running omp a ahead done) (hc : c ∈ a.cores)
    (hlt : done < a.prog.length) (hepoch : omp.coreEpoch c = omp.team.loopEpoch)
    (hteam : team.loopEpoch = omp.team.loopEpoch + 1) (hsetup : team.loopIsSetup = false)
    (hother : ∀ k, k ≠ done → ∀ j, times (a.goto c ⟨(a.place c).construct + 1, false⟩ work).log k j =
      times a.log k j)
    (hdone : ∀ j, times (a.goto c ⟨(a.place c).construct + 1, false⟩ work).log done j =
      if IsWork a.prog done j then 1 else 0) :
    Running (omp.put c team (omp.coreEpoch c + 1))
      (a.goto c ⟨(a.place c).construct + 1, false⟩ work) ahead (done + 1) := by
  have hat := hrun.construct_eq hc hepoch
  refine ⟨hlt, hrun.fits, ?_, ?_, ?_, ?_, ?_, ?_, ?_, ?_, ?_⟩
  · intro d hd
    by_cases hdc : d = c
    · subst hdc
      simp
      omega
    · simp [hdc, hrun.place d hd]
  · have hle := hrun.loopEpoch
    simp only [put_team, goto_prog, hteam]
    omega
  · intro d hd
    have hd' := hrun.coreEpoch d hd
    by_cases hdc : d = c
    · subst hdc
      simp
      omega
    · simpa [hdc] using hd'
  · intro d hd
    have hd' := hrun.cores d hd
    simp only [put_team, goto_prog, hteam]
    by_cases hdc : d = c
    · subst hdc
      simp
      omega
    · simp [hdc]
      omega
  · intro k hk j
    by_cases hkd : k = done
    · subst hkd
      exact hdone j
    · rw [goto_prog, ← hrun.past k (by omega) j]
      exact hother k hkd j
  · intro k hk j
    rw [← hrun.future k (by omega) j]
    exact hother k (by omega) j
  · intro _ j
    rw [← hrun.future (done + 1) (by omega) j]
    exact hother (done + 1) (by omega) j
  · intro hset
    exact absurd (hsetup.symm.trans hset) (by decide)
  · intro d hd hinside hd'
    exfalso
    have hcore := hrun.cores d hd
    simp only [put_team, put_coreEpoch, hteam] at hd'
    by_cases hdc : d = c
    · subst hdc
      simp at hinside
    · simp [hdc] at hd'
      omega

private theorem fits_of_lt {x : Int} (hpos : 0 ≤ x) (hlt : x < 2 ^ 31) : Fits 32 x := by
  constructor
  · have hneg : (-2 ^ (32 - 1) : Int) ≤ 0 := by decide
    omega
  · exact hlt

/-- The step of a thread has a result, after which the region runs on. -/
def RunsOn (omp : OmpData) (a : ActiveRegion) (ahead : Nat → Int) (c : Nat) : Prop :=
  ∃ team epoch place work, threadStep a.prog omp.team (omp.coreEpoch c) (a.place c) =
    some (team, epoch, place, work) ∧
    ∃ done, Running (omp.put c team epoch) (a.goto c place work) ahead done

/-- A thread that takes part in the team's single runs its body. -/
theorem Running.single (hrun : Running omp a ahead done) (hc : c ∈ a.cores)
    (hepoch : omp.coreEpoch c = omp.team.loopEpoch) (hcon : a.prog[done]? = some .single) :
    RunsOn omp a ahead c := by
  have hat := hrun.construct_eq hc hepoch
  have hlt : done < a.prog.length := (List.getElem?_eq_some_iff.mp hcon).1
  have hcore := hrun.coreEpoch c hc
  have hfits : Fits 32 (omp.coreEpoch c + 1) := fits_of_lt (by omega) (by omega)
  have hunset : omp.team.loopIsSetup = false := by
    cases hset : omp.team.loopIsSetup with
    | false => rfl
    | true =>
      obtain ⟨count, hcount, -⟩ := hrun.set hset
      rw [hcon] at hcount
      cases hcount
  have hstep : threadStep a.prog omp.team (omp.coreEpoch c) (a.place c) =
      some ({ omp.team with loopEpoch := omp.team.loopEpoch + 1 }, omp.coreEpoch c + 1,
        ⟨(a.place c).construct + 1, false⟩, some 0) := by
    simp [Hero.Omp.threadStep, hat, hcon, singleStart_own hepoch hfits]
  refine ⟨_, _, _, _, hstep, done + 1, hrun.advance hc hlt hepoch rfl hunset ?_ ?_⟩
  · intro k hk j
    simp [ActiveRegion.goto, times_cons, hat, Ne.symm hk]
  · intro j
    have hwork : IsWork a.prog done j ↔ j = 0 := by rw [IsWork, hcon]
    simp [ActiveRegion.goto, times_cons, hat, hrun.unset hunset j, hwork, eq_comm]

/-- A thread enters the team's sections. -/
theorem Running.sectionsEnter {count : BitVec 32} (hrun : Running omp a ahead done) (hc : c ∈ a.cores)
    (hepoch : omp.coreEpoch c = omp.team.loopEpoch) (hcon : a.prog[done]? = some (.sections count))
    (hin : (a.place c).inside = false) : RunsOn omp a ahead c := by
  have hat := hrun.construct_eq hc hepoch
  have hfit := hrun.fits _ (List.mem_of_getElem? hcon)
  cases hset : omp.team.loopIsSetup with
  | true =>
    have hstep : threadStep a.prog omp.team (omp.coreEpoch c) (a.place c) =
        some (omp.team, omp.coreEpoch c, ⟨(a.place c).construct, true⟩, none) := by
      simp [Hero.Omp.threadStep, hat, hcon, hin, sectionInit, hepoch, hset]
    exact ⟨_, _, _, _, hstep, done, hrun.stay rfl hset (fun _ _ _ => rfl) (hrun.set hset)⟩
  | false =>
    have hstep : threadStep a.prog omp.team (omp.coreEpoch c) (a.place c) =
        some ({ omp.team with loopIsSetup := true, loopStart := 1, loopEnd := count.toNat + 1 },
          omp.coreEpoch c, ⟨(a.place c).construct, true⟩, none) := by
      simp [Hero.Omp.threadStep, hat, hcon, hin, sectionInit, hepoch, hset, loopEnd_eq hfit]
    refine ⟨_, _, _, _, hstep, done, hrun.stay rfl rfl (fun _ _ _ => rfl) ?_⟩
    refine ⟨count, hcon, rfl, le_rfl, by simp, ?_⟩
    intro j
    have hnone : ¬ (1 ≤ j ∧ j < 1) := by omega
    simp [ActiveRegion.goto, hrun.unset hset j, hnone]

/-- A thread in the team's sections takes the next one or ends them. -/
theorem Running.sectionsGet {count : BitVec 32} (hrun : Running omp a ahead done) (hc : c ∈ a.cores)
    (hepoch : omp.coreEpoch c = omp.team.loopEpoch) (hcon : a.prog[done]? = some (.sections count))
    (hin : (a.place c).inside = true) : RunsOn omp a ahead c := by
  have hat := hrun.construct_eq hc hepoch
  have hlt : done < a.prog.length := (List.getElem?_eq_some_iff.mp hcon).1
  have hcore := hrun.coreEpoch c hc
  have hfits : Fits 32 (omp.coreEpoch c + 1) := fits_of_lt (by omega) (by omega)
  have hset := hrun.inside c hc hin hepoch
  obtain ⟨count', hcount, hend, hone, hle, htimes⟩ := hrun.set hset
  rw [hcon] at hcount
  cases hcount
  have hcount : count.toNat + 2 < 2 ^ 31 := hrun.fits _ (List.mem_of_getElem? hcon)
  have hstart : Fits 32 (omp.team.loopStart + 1) := fits_of_lt (by omega) (by omega)
  by_cases hmore : omp.team.loopStart < omp.team.loopEnd
  · have hnonzero : omp.team.loopStart ≠ 0 := by omega
    have hplace : a.place c = ⟨done, true⟩ := by rw [← hat, ← hin]
    have hstep : threadStep a.prog omp.team (omp.coreEpoch c) (a.place c) =
        some ({ omp.team with loopStart := omp.team.loopStart + 1 }, omp.coreEpoch c,
          ⟨(a.place c).construct, true⟩, some omp.team.loopStart) := by
      simp [Hero.Omp.threadStep, hplace, hcon, sectionGet_more hepoch hstart hmore, hnonzero]
    refine ⟨_, _, _, _, hstep, done, hrun.stay rfl hset ?_ ⟨count, hcon, hend, ?_, ?_, ?_⟩⟩
    · intro k hk j
      simp [ActiveRegion.goto, times_cons, hat, Ne.symm hk]
    · change 1 ≤ omp.team.loopStart + 1
      omega
    · change omp.team.loopStart + 1 ≤ omp.team.loopEnd
      omega
    · intro j
      simp only [ActiveRegion.goto, Option.map_some, Option.toList_some, List.cons_append,
        List.nil_append, times_cons, hat, htimes, true_and]
      split_ifs <;> omega
  · have hstep : threadStep a.prog omp.team (omp.coreEpoch c) (a.place c) =
        some ({ omp.team with
          loopStart := omp.team.loopStart + 1, loopEpoch := omp.team.loopEpoch + 1,
          loopIsSetup := false }, omp.coreEpoch c + 1, ⟨(a.place c).construct + 1, false⟩, none) := by
      simp [Hero.Omp.threadStep, hat, hcon, hin,
        sectionGet_last hepoch hfits hstart (Int.not_lt.mp hmore)]
    refine ⟨_, _, _, _, hstep, done + 1,
      hrun.advance hc hlt hepoch rfl rfl (fun _ _ _ => rfl) ?_⟩
    intro j
    have hwork : IsWork a.prog done j ↔ 1 ≤ j ∧ j < omp.team.loopStart := by
      rw [IsWork, hcon]
      dsimp only
      omega
    rw [if_congr hwork rfl rfl, ← htimes j]
    rfl

/-- A step of a thread that is not at its end -/
theorem Running.threadStep (hrun : Running omp a ahead done) (hc : c ∈ a.cores)
    (hlt : (a.place c).construct < a.prog.length) : RunsOn omp a ahead c := by
  have hcore := hrun.coreEpoch c hc
  have hfits : Fits 32 (omp.coreEpoch c + 1) := fits_of_lt (by omega) (by omega)
  by_cases hepoch : omp.coreEpoch c = omp.team.loopEpoch
  · have hat := hrun.construct_eq hc hepoch
    cases hcon : a.prog[done]? with
    | none =>
      rw [List.getElem?_eq_none_iff] at hcon
      omega
    | some con =>
      cases con with
      | single => exact hrun.single hc hepoch hcon
      | sections count =>
        cases hin : (a.place c).inside with
        | false => exact hrun.sectionsEnter hc hepoch hcon hin
        | true => exact hrun.sectionsGet hc hepoch hcon hin
  · exact ⟨_, _, _, _, threadStep_skip hlt hepoch hfits, done, hrun.skip hlt hepoch⟩

/-- The team is behind the last construct when all threads are. -/
theorem Running.finished (hrun : Running omp a ahead done) (hmaster : 0 ∈ a.cores)
    (hahead : ahead 0 = 0) (hfin : a.Finished) : done = a.prog.length ∧
      omp.coreEpoch 0 = omp.team.loopEpoch ∧ omp.team.loopIsSetup = false := by
  have hle := hrun.le
  have hcore := hrun.cores 0 hmaster
  have hend := hfin 0 hmaster
  have hdone : done = a.prog.length := by omega
  refine ⟨hdone, by omega, ?_⟩
  cases hset : omp.team.loopIsSetup with
  | false => rfl
  | true =>
    obtain ⟨count, hcount, -⟩ := hrun.set hset
    have hlt := (List.getElem?_eq_some_iff.mp hcount).1
    omega

theorem Running.once (hrun : Running omp a ahead done) (hmaster : 0 ∈ a.cores)
    (hahead : ahead 0 = 0) : a.Once := by
  constructor
  · intro k j
    rcases Nat.lt_trichotomy k done with hlt | heq | hgt
    · exact le_of_eq (hrun.past k hlt j)
    · subst heq
      cases hset : omp.team.loopIsSetup with
      | false =>
        rw [hrun.unset hset j]
        exact Nat.zero_le _
      | true =>
        obtain ⟨count, hcount, hend, hone, hle, htimes⟩ := hrun.set hset
        have hwork : IsWork a.prog k j ↔ 1 ≤ j ∧ j ≤ count.toNat := by rw [IsWork, hcount]
        rw [htimes j, if_congr hwork rfl rfl]
        split_ifs <;> omega
    · rw [hrun.future k hgt j]
      exact Nat.zero_le _
  · intro hfin k j
    obtain ⟨hdone, -, hunset⟩ := hrun.finished hmaster hahead hfin
    by_cases hlt : k < done
    · exact hrun.past k hlt j
    · have hnone : ¬ IsWork a.prog k j := by
        rw [IsWork, List.getElem?_eq_none (by omega)]
        exact not_false
      rw [if_neg hnone]
      by_cases heq : k = done
      · subst heq
        exact hrun.unset hunset j
      · exact hrun.future k (by omega) j

/-- What holds between and in regions: the master is never ahead of the team. -/
structure WorkInv (s : WorkState) : Prop where
  nonneg : ∀ c, 0 ≤ s.omp.coreEpoch c
  nbThreads : 1 ≤ s.omp.nbThreads ∧ s.omp.nbThreads ≤ 16
  idle : s.region = none →
    s.omp.coreEpoch 0 = s.omp.team.loopEpoch ∧ s.omp.team.loopIsSetup = false
  active : ∀ a ∈ s.region, 0 ∈ a.cores ∧ (1 ≤ a.nbCores ∧ a.nbCores ≤ 16) ∧
    ∃ ahead done, ahead 0 = 0 ∧ Running s.omp a ahead done

variable {s s' : WorkState} {op : WorkOp} {es : List Empty}

theorem workMachine_step {epoch : Int} {place : Place} {work : Option Int} (ha : s.region = some a)
    (hc : c ∈ a.cores) (hstep : threadStep a.prog s.omp.team (s.omp.coreEpoch c) (a.place c) =
      some (team, epoch, place, work)) : workMachine s (.step c) =
      some (⟨s.omp.put c team epoch, some (a.goto c place work)⟩, []) := by
  simp [workMachine, ha, hc, hstep]

theorem WorkInv.good (hinv : WorkInv s) : op.Good s := by
  intro a ha
  obtain ⟨hmaster, -, ahead, done, hahead, hrun⟩ := hinv.active a ha
  refine ⟨hrun.once hmaster hahead, ?_⟩
  intro c hc hop hlt
  obtain ⟨team, epoch, place, work, hstep, -⟩ := hrun.threadStep hc hlt
  rw [hop, workMachine_step ha hc hstep]
  rfl

theorem enter_eq (omp : OmpData) (n : Int) : (omp.enter n).team = omp.team ∧
    (omp.enter n).coreEpoch = omp.coreEpoch := by
  rw [OmpData.enter]
  split <;> exact ⟨rfl, rfl⟩

/-- A new region, whose threads are in the epoch of the team or far ahead -/
theorem WorkInv.fork {n : Int} {prog : List Construct} (hinv : WorkInv s) (hidle : s.region = none)
    (hn : 1 ≤ n ∧ n ≤ s.omp.nbThreads) (hok : (WorkOp.fork n prog).Aligned s) :
    WorkInv ⟨s.omp.enter n, some ⟨prog, n, s.omp.nbThreads, (s.omp.enter n).parallelRegionExec.runs,
      fun _ => ⟨0, false⟩, []⟩⟩ := by
  obtain ⟨hmaster, hunset⟩ := hinv.idle hidle
  obtain ⟨hfits, hlen, hcores⟩ := hok
  obtain ⟨hteam, hepoch⟩ := enter_eq s.omp n
  have hle := hinv.nbThreads
  have hzero := hinv.nonneg 0
  have hnb : 1 ≤ (s.omp.enter n).nbThreads ∧ (s.omp.enter n).nbThreads ≤ 16 := by
    rw [OmpData.enter]
    split
    · exact hle
    · change 1 ≤ (n % 256).toNat ∧ (n % 256).toNat ≤ 16
      omega
  refine ⟨by rw [hepoch]; exact hinv.nonneg, hnb, by simp, ?_⟩
  intro a ha
  cases ha
  refine ⟨List.mem_cons_self, hle, fun c => s.omp.coreEpoch c - s.omp.team.loopEpoch, 0,
    sub_eq_zero.mpr hmaster, Nat.zero_le _, hfits, fun _ _ => Nat.zero_le _, ?_, ?_, ?_, by simp,
    fun _ _ _ => rfl, fun _ _ => rfl, ?_, by simp⟩
  · rw [hteam]
    exact ⟨by omega, by simpa using hlen⟩
  · intro c hc
    rw [hepoch]
    exact ⟨hinv.nonneg c, by simpa using (hcores c hc).2⟩
  · intro c hc
    have hcore := (hcores c hc).1
    rw [hteam, hepoch]
    dsimp only
    omega
  · rw [hteam, hunset]
    intro hset
    cases hset

/-- After a region the master is in the epoch of the team, which may start anew. -/
theorem WorkInv.leave {n : Int} {nbCores : Nat} (hinv : WorkInv s) (hnb : 1 ≤ nbCores ∧ nbCores ≤ 16)
    (hepoch : s.omp.coreEpoch 0 = s.omp.team.loopEpoch) (hunset : s.omp.team.loopIsSetup = false) :
    WorkInv ⟨s.omp.leave n nbCores, none⟩ := by
  rw [OmpData.leave]
  split
  · exact ⟨hinv.nonneg, hinv.nbThreads, fun _ => ⟨hepoch, hunset⟩, by simp⟩
  · refine ⟨?_, hnb, fun _ => ⟨if_pos hinv.nbThreads.1, hunset⟩, by simp⟩
    intro c
    simp only [OmpData.partialLeave]
    split
    · exact le_rfl
    · exact hinv.nonneg c

theorem WorkInv.step (hinv : WorkInv s) (hok : op.Aligned s)
    (hstep : workMachine s op = some (s', es)) : WorkInv s' := by
  cases hregion : s.region with
  | none =>
    cases op with
    | fork n prog =>
      simp only [workMachine, hregion] at hstep
      split at hstep
      · next hn =>
        cases hstep
        exact hinv.fork hregion hn hok
      · cases hstep
    | step c => simp [workMachine, hregion] at hstep
    | join => simp [workMachine, hregion] at hstep
  | some a =>
    obtain ⟨hmaster, hnb, ahead, done, hahead, hrun⟩ := hinv.active a hregion
    cases op with
    | fork n prog => simp [workMachine, hregion] at hstep
    | step c =>
      by_cases hc : c ∈ a.cores
      · by_cases hlt : (a.place c).construct < a.prog.length
        · obtain ⟨team, epoch, place, work, hthread, done', hrun'⟩ := hrun.threadStep hc hlt
          rw [workMachine_step hregion hc hthread] at hstep
          cases hstep
          refine ⟨?_, hinv.nbThreads, by simp, ?_⟩
          · intro d
            by_cases hdc : d = c
            · subst hdc
              exact (hrun'.coreEpoch d hc).1
            · simp [hdc, hinv.nonneg d]
          · intro b hb
            cases hb
            exact ⟨hmaster, hnb, ahead, done', hahead, hrun'⟩
        · have hend : a.prog[(a.place c).construct]? = none := List.getElem?_eq_none (by omega)
          simp [workMachine, hregion, threadStep, hend] at hstep
      · simp [workMachine, hregion, hc] at hstep
    | join =>
      simp only [workMachine, hregion] at hstep
      split at hstep
      · next hfin =>
        cases hstep
        obtain ⟨-, hepoch, hunset⟩ := hrun.finished hmaster hahead hfin
        exact hinv.leave hnb hepoch hunset
      · cases hstep

theorem workInv_start {nbCores nbHandlers : Nat} {team : Team} (hcores : 1 ≤ nbCores ∧ nbCores ≤ 16) :
    WorkInv ⟨.start nbCores nbHandlers team, none⟩ :=
  ⟨fun _ => le_rfl, hcores, fun _ => ⟨rfl, rfl⟩, by simp⟩

/-- Along every run whose regions start aligned, every section and every body of a single is executed
by one thread. -/
theorem work_once (nbCores nbHandlers : Nat) (team : Team) (hcores : 1 ≤ nbCores ∧ nbCores ≤ 16)
    (ops : List WorkOp)
    (hok : workMachine.Along (fun s op => op.Aligned s) ⟨.start nbCores nbHandlers team, none⟩ ops) :
    workMachine.Along (fun s op => op.Good s) ⟨.start nbCores nbHandlers team, none⟩ ops :=
  Machine.along_of_inv
    (fun _ _ hinv halign => ⟨hinv.good, fun _ _ hstep => hinv.step halign hstep⟩)
    (workInv_start hcores) hok

private def threeThreads : List WorkOp :=
  [.fork 3 [.single, .sections 2#32], .step 1, .step 1, .step 0, .step 0, .step 1, .step 2, .step 0,
    .step 2, .step 1, .step 0, .step 2, .join, .fork 2 [.single], .step 0, .step 1, .join]

theorem work_once_threeThreads :
    workMachine.Along (fun s op => op.Good s) ⟨.start 3 0 ⟨0, 0, 0, 0, 0, false⟩, none⟩
      threeThreads :=
  work_once 3 0 _ (by decide) _ (by decide +kernel)

/-- A single on all cores, a region on one, and another single -/
private def desynchronized : List WorkOp :=
  [.fork 2 [.single], .step 0, .step 1, .join, .fork 1 [], .join, .fork 2 [.single], .step 0, .step 1]

private theorem run_desynchronized :
    (workMachine.run ⟨.start 2 0 ⟨0, 0, 0, 0, 0, false⟩, none⟩ desynchronized).isSome := by
  decide +kernel

private theorem region_desynchronized :
    ((Option.get _ run_desynchronized).1.region).isSome := by
  decide +kernel

/-- The core that was left out runs the body of the second single once more. -/
theorem single_twice : ¬ ∀ (nbCores nbHandlers : Nat) (team : Team), 1 ≤ nbCores ∧ nbCores ≤ 16 →
    ∀ ops : List WorkOp,
      workMachine.Along (fun s op => op.Good s) ⟨.start nbCores nbHandlers team, none⟩ ops := by
  intro h
  have hgood : WorkOp.join.Good _ := (h 2 0 ⟨0, 0, 0, 0, 0, false⟩ (by decide)
    (desynchronized ++ [.join])).at (Option.some_get run_desynchronized).symm
  have honce := (hgood _ (Option.some_get region_desynchronized).symm).1
  exact absurd (honce.le 0 0) (by decide +kernel)

end Hero.Omp
