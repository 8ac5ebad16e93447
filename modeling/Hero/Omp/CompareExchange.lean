import Hero.Framework.AtomicObject
import Mathlib.Data.BitVec

/-!
# Compare-and-swap helpers

`__sync_val_compare_and_swap_{1,2,4,8}` over `atomic_compare_exchange`, interleaved at single memory
steps.  Aligned words in L2 use load-reserved and store-conditional, everything else a mutex.
-/

namespace Hero.Omp

open AtomicObject

/-- The operand widths of the four helpers. -/
inductive Width where
  | w1 | w2 | w4 | w8
  deriving DecidableEq, Repr

abbrev Width.size : Width → Nat
  | .w1 => 1
  | .w2 => 2
  | .w4 => 4
  | .w8 => 8

abbrev Width.bits (w : Width) : Nat := 8 * w.size

/-- The width of the helper's variable `prev`: `char`, `short`, `int` and `long`. -/
def Width.prevBits : Width → Nat
  | .w1 => 8
  | .w2 => 16
  | .w4 => 32
  | .w8 => 32

structure Location where
  addr : BitVec 32
  width : Width

namespace Location

/-- 32-bit words in L2 that are 32-bit-aligned. -/
def usesReservation (loc : Location) : Bool :=
  loc.width.size = 4 && loc.addr &&& 0xFF000000#32 = 0x1C000000#32 && loc.addr &&& 0x3#32 = 0#32

abbrev Value (loc : Location) := BitVec loc.width.bits

/-- What the helper returns after `value` was copied to `prev`; the copy of eight bytes runs past
the four of `prev`, which keep the low word. -/
def prevOf (loc : Location) (value : loc.Value) : loc.Value :=
  (value.setWidth loc.width.prevBits).signExtend loc.width.bits

end Location

/-- The arguments of a call. -/
structure Swap (loc : Location) where
  expected : loc.Value
  desired : loc.Value
  deriving DecidableEq

/-- Where a core stands in a call: before, between and after the memory steps. -/
inductive CasPc (loc : Location) where
  | idle
  | entered (op : Swap loc)
  | reserved (op : Swap loc) (prev : loc.Value)
  | locked (op : Swap loc)
  | copied (op : Swap loc) (prev : loc.Value)
  | matched (op : Swap loc) (prev : loc.Value)
  | differed (op : Swap loc) (prev : loc.Value)
  | unlocking (op : Swap loc) (prev : loc.Value) (modified : Bool)
  | returning (op : Swap loc) (prev : loc.Value) (modified : Bool)

structure CasState (Core : Type*) (loc : Location) where
  value : loc.Value
  /-- Cores whose reservation of the location is still valid. -/
  reservation : Core → Bool
  /-- `__atomic_cex_mutex` -/
  mutex : Bool
  pc : Core → CasPc loc

inductive CasStep (Core : Type*) (loc : Location) where
  | call (c : Core) (op : Swap loc)
  | loadReserved (c : Core)
  | storeConditional (c : Core) (success : Bool)
  | mutexTrylock (c : Core)
  | copyPrev (c : Core)
  | compare (c : Core)
  | copyBack (c : Core)
  | mutexUnlock (c : Core)
  | ret (c : Core)

abbrev CasEvent (Core : Type*) (loc : Location) := Event Core (Swap loc) loc.Value

variable {Core : Type*} [DecidableEq Core] {loc : Location}

def CasState.goto (s : CasState Core loc) (c : Core) (pc : CasPc loc) : CasState Core loc :=
  { s with pc := Function.update s.pc c pc }

def CasState.init (v : loc.Value) : CasState Core loc := ⟨v, fun _ => false, false, fun _ => .idle⟩

/-- `atomic_compare_exchange` inside `__sync_val_compare_and_swap_N`, one memory step at a time. -/
def compareExchange (loc : Location) :
    Machine (CasState Core loc) (CasStep Core loc) (CasEvent Core loc) := fun s step =>
  match step with
  | .call c op =>
    match s.pc c with
    | .idle => some (s.goto c (.entered op), [.call c op])
    | _ => none
  | .loadReserved c =>
    match s.pc c with
    | .entered op =>
      if loc.usesReservation then
        let s := { s with reservation := Function.update s.reservation c true }
        if s.value = op.expected then some (s.goto c (.reserved op (loc.prevOf s.value)), [])
        else some (s.goto c (.returning op (loc.prevOf s.value) false), [])
      else none
    | _ => none
  | .storeConditional c success =>
    match s.pc c with
    | .reserved op prev =>
      if success then
        -- a store by any core ends every reservation of the word
        if s.reservation c then
          some ({ s with value := op.desired, reservation := fun _ => false }.goto c
            (.returning op prev true), [])
        else none
      else
        some ({ s with reservation := Function.update s.reservation c false }.goto c
          (.returning op prev false), [])
    | _ => none
  | .mutexTrylock c =>
    match s.pc c with
    | .entered op =>
      if loc.usesReservation then none
      else if s.mutex then some (s, [])
      else some ({ s with mutex := true }.goto c (.locked op), [])
    | _ => none
  | .copyPrev c =>
    match s.pc c with
    | .locked op => some (s.goto c (.copied op (loc.prevOf s.value)), [])
    | _ => none
  | .compare c =>
    match s.pc c with
    | .copied op prev =>
      if s.value = op.expected then some (s.goto c (.matched op prev), [])
      else some (s.goto c (.differed op prev), [])
    | _ => none
  | .copyBack c =>
    match s.pc c with
    | .matched op prev =>
      some ({ s with value := op.desired }.goto c (.unlocking op prev true), [])
    -- `expected` is the helper's own argument here, which it does not read again
    | .differed op prev => some (s.goto c (.unlocking op prev false), [])
    | _ => none
  | .mutexUnlock c =>
    match s.pc c with
    | .unlocking op prev modified =>
      some ({ s with mutex := false }.goto c (.returning op prev modified), [])
    | _ => none
  | .ret c =>
    match s.pc c with
    | .returning op prev _ => some (s.goto c .idle, [.ret c op prev])
    | _ => none

/-- Compare-and-swap as one atomic operation. -/
def swap (v : loc.Value) (op : Swap loc) : loc.Value × loc.Value :=
  (if v = op.expected then op.desired else v, v)

/-- `h` is a history of atomic compare-and-swaps that takes the location from `v` to `w`. -/
def SwapsTo (loc : Location) (v : loc.Value) (h : List (CasEvent Core loc)) (w : loc.Value) :
    Prop :=
  ∃ o, Linearizes swap v h o ∧ o.value = w

section Simulation

/-- The status of a call in the atomic object. -/
def CasPc.phase : CasPc loc → Phase (Swap loc) loc.Value
  | .idle => .idle
  | .entered op | .reserved op _ | .locked op | .copied op _ | .matched op _ => .pending op
  | .differed op prev | .unlocking op prev _ | .returning op prev _ => .done op prev

def CasPc.InSection : CasPc loc → Prop
  | .locked _ | .copied .. | .matched .. | .differed .. | .unlocking .. => True
  | _ => False

def CasState.object (s : CasState Core loc) : AtomicObject.State Core loc.Value (Swap loc) loc.Value :=
  ⟨s.value, fun c => (s.pc c).phase⟩

/-- What a core knows of the location and the mutex between two of its steps. -/
def CasState.Knows (s : CasState Core loc) (c : Core) : CasPc loc → Prop
  | .idle | .entered _ | .returning .. => True
  | .reserved op prev => loc.usesReservation = true ∧ prev = op.expected ∧
      (s.reservation c = true → s.value = op.expected)
  | .locked _ | .differed .. | .unlocking .. => s.mutex = true ∧ loc.usesReservation = false
  | .copied _ prev => s.mutex = true ∧ loc.usesReservation = false ∧ prev = s.value
  | .matched op prev => s.mutex = true ∧ loc.usesReservation = false ∧ prev = s.value ∧
      s.value = op.expected

structure CasState.Consistent (s : CasState Core loc) : Prop where
  knows : ∀ c, s.Knows c (s.pc c)
  alone : ∀ c k, (s.pc c).InSection → (s.pc k).InSection → c = k

theorem prevOf_eq (hw : loc.width ≠ .w8) (v : loc.Value) : loc.prevOf v = v := by
  have hbits : loc.width.prevBits = loc.width.bits := by
    cases hwidth : loc.width with
    | w8 => exact absurd hwidth hw
    | w1 | w2 | w4 => rfl
  rw [Location.prevOf, hbits, BitVec.setWidth_eq, BitVec.signExtend_eq]

theorem object_goto (s : CasState Core loc) (c : Core) (pc : CasPc loc) :
    (s.goto c pc).object = s.object.goto c pc.phase := by
  have hphase : (fun k => (Function.update s.pc c pc k).phase)
      = Function.update (fun k => (s.pc k).phase) c pc.phase := by
    funext k
    by_cases hk : k = c
    · simp [hk]
    · simp [Function.update_of_ne hk]
  simp [CasState.object, CasState.goto, AtomicObject.State.goto, hphase]

private theorem pc_goto (s : CasState Core loc) (c k : Core) (pc : CasPc loc) :
    (s.goto c pc).pc k = if k = c then pc else s.pc k := by
  simp [CasState.goto, Function.update_apply]

omit [DecidableEq Core] in
private theorem knows_frame {s t : CasState Core loc} {k : Core} {pc : CasPc loc}
    (hk : s.Knows k pc) (hsection : pc.InSection → t.mutex = s.mutex ∧ t.value = s.value)
    (hreserved : loc.usesReservation = true → t.reservation k = true →
      s.reservation k = true ∧ t.value = s.value) : t.Knows k pc := by
  cases pc with
  | idle | entered op | returning op prev modified => trivial
  | reserved op prev =>
    obtain ⟨huses, hprev, hval⟩ := hk
    refine ⟨huses, hprev, ?_⟩
    intro hr
    obtain ⟨hr', heq⟩ := hreserved huses hr
    rw [heq]
    exact hval hr'
  | locked op | differed op prev | unlocking op prev modified =>
    obtain ⟨hm, -⟩ := hsection trivial
    exact ⟨hm.trans hk.1, hk.2⟩
  | copied op prev =>
    obtain ⟨hm, hv⟩ := hsection trivial
    exact ⟨hm.trans hk.1, hk.2.1, hk.2.2.trans hv.symm⟩
  | matched op prev =>
    obtain ⟨hm, hv⟩ := hsection trivial
    exact ⟨hm.trans hk.1, hk.2.1, hk.2.2.1.trans hv.symm, hv.trans hk.2.2.2⟩

/-- One core moves from `s` to `t`: what it then knows, and what the others may go on relying on. -/
private theorem CasState.Consistent.move {s t : CasState Core loc} (hs : s.Consistent) {c : Core}
    {pc : CasPc loc} (hpc : t.pc = s.pc) (hknows : t.Knows c pc)
    (hsection : pc.InSection → ∀ k ≠ c, ¬ (s.pc k).InSection)
    (hothers : ∀ k ≠ c, (s.pc k).InSection → t.mutex = s.mutex ∧ t.value = s.value)
    (hreserved : loc.usesReservation = true → ∀ k ≠ c, t.reservation k = true →
      s.reservation k = true ∧ t.value = s.value) : (t.goto c pc).Consistent := by
  refine ⟨?_, ?_⟩
  · intro k
    rw [pc_goto, hpc]
    split
    · next heq =>
      subst heq
      exact hknows
    · next hne =>
      exact knows_frame (hs.knows k) (hothers k hne) (fun huses => hreserved huses k hne)
  · intro k j hk hj
    rw [pc_goto, hpc] at hk hj
    split at hk
    · next heq =>
      subst heq
      split at hj
      · next heq' => exact heq'.symm
      · next hne => exact absurd hj (hsection hk j hne)
    · next hne =>
      split at hj
      · next heq =>
        subst heq
        exact absurd hk (hsection hj k hne)
      · exact hs.alone k j hk hj

/-- A step that changes nothing but its core's place in the code. -/
private theorem CasState.Consistent.advance {s : CasState Core loc} (hs : s.Consistent) {c : Core}
    {pc : CasPc loc} (hknows : s.Knows c pc) (hsection : pc.InSection → (s.pc c).InSection) :
    (s.goto c pc).Consistent := by
  apply hs.move rfl hknows
  · intro hin k hne hk
    exact hne (hs.alone k c hk (hsection hin))
  · intro k _ _
    exact ⟨rfl, rfl⟩
  · intro _ k _ hr
    exact ⟨hr, rfl⟩

omit [DecidableEq Core] in
private theorem CasState.Consistent.inSection {s : CasState Core loc} (hs : s.Consistent) {c : Core}
    (hc : (s.pc c).InSection) : s.mutex = true ∧ loc.usesReservation = false := by
  have hknow := hs.knows c
  cases hpc : s.pc c with
  | idle | entered _ | reserved _ _ | returning _ _ _ => simp [hpc, CasPc.InSection] at hc
  | locked _ | differed _ _ | unlocking _ _ _ =>
    rw [hpc] at hknow
    exact hknow
  | copied _ _ | matched _ _ =>
    rw [hpc] at hknow
    exact ⟨hknow.1, hknow.2.1⟩

/-- The implementation stays consistent and its history is one of the atomic object. -/
structure CasState.Simulates (v : loc.Value) (s : CasState Core loc) (h : List (CasEvent Core loc)) :
    Prop where
  consistent : s.Consistent
  linearizes : Linearizes swap v h s.object

variable {v : loc.Value} {s s' : CasState Core loc} {h es : List (CasEvent Core loc)} {c : Core}

/-- A step inside a call that the atomic object does not see. -/
private theorem linearizes_silent (hs : Linearizes swap v h s.object) (hval : s'.value = s.value)
    (hpc : s'.pc = s.pc) {pc : CasPc loc} (hphase : pc.phase = (s.pc c).phase) :
    Linearizes swap v (h ++ []) (s'.goto c pc).object := by
  have hsame : (s'.goto c pc).object = s.object := by
    rw [object_goto, hphase]
    simp [CasState.object, AtomicObject.State.goto, hval, hpc]
  rw [hsame, List.append_nil]
  exact hs

/-- The step at which a call takes effect. -/
private theorem linearizes_commit (hs : Linearizes swap v h s.object) (op : Swap loc)
    (hpc : s'.pc = s.pc) {pc : CasPc loc} (hold : (s.pc c).phase = .pending op)
    (hval : s'.value = (swap s.value op).1) (hnew : pc.phase = .done op s.value) :
    Linearizes swap v (h ++ []) (s'.goto c pc).object := by
  have hcommit := hs.commit (c := c) (show s.object.phase c = .pending op from hold)
  rw [List.append_nil]
  have hsame : (s'.goto c pc).object
      = ({ s.object with value := (swap s.object.value op).1 } : AtomicObject.State _ _ _ _).goto c
        (.done op (swap s.object.value op).2) := by
    rw [object_goto, hnew]
    simp only [CasState.object, AtomicObject.State.goto, hval, hpc]
    rfl
  rw [hsame]
  exact hcommit

private theorem simulates_call {op : Swap loc} (hs : s.Simulates v h)
    (hstep : compareExchange loc s (.call c op) = some (s', es)) : s'.Simulates v (h ++ es) := by
  simp only [compareExchange] at hstep
  split at hstep
  · next hpc =>
    cases hstep
    refine ⟨hs.consistent.advance trivial False.elim, ?_⟩
    rw [object_goto]
    exact hs.linearizes.call (by simp [CasState.object, hpc, CasPc.phase]) op
  · cases hstep

private theorem simulates_loadReserved (hw : loc.width ≠ .w8) (hs : s.Simulates v h)
    (hstep : compareExchange loc s (.loadReserved c) = some (s', es)) :
    s'.Simulates v (h ++ es) := by
  simp only [compareExchange, prevOf_eq hw] at hstep
  split at hstep
  · next op hpc =>
    split at hstep
    · next huses =>
      have hres : ∀ k ≠ c, Function.update s.reservation c true k = true →
          s.reservation k = true ∧ s.value = s.value := by
        intro k hne hr
        rw [Function.update_of_ne hne] at hr
        exact ⟨hr, rfl⟩
      split at hstep
      · next heq =>
        cases hstep
        refine ⟨?_, linearizes_silent hs.linearizes (by rfl) (by rfl) (by simp [hpc, CasPc.phase])⟩
        refine hs.consistent.move ?_ ?_ ?_ ?_ ?_
        · rfl
        · exact ⟨huses, heq, fun _ => heq⟩
        · exact False.elim
        · exact fun _ _ _ => ⟨rfl, rfl⟩
        · exact fun _ => hres
      · next hne =>
        cases hstep
        refine ⟨?_, linearizes_commit hs.linearizes op (by rfl) (by simp [hpc, CasPc.phase])
          (by simp [swap, hne]) rfl⟩
        refine hs.consistent.move ?_ ?_ ?_ ?_ ?_
        · rfl
        · trivial
        · exact False.elim
        · exact fun _ _ _ => ⟨rfl, rfl⟩
        · exact fun _ => hres
    · cases hstep
  · cases hstep

private theorem simulates_storeConditional (hs : s.Simulates v h)
    (hstep : compareExchange loc s (.storeConditional c true) = some (s', es)) :
    s'.Simulates v (h ++ es) := by
  simp only [compareExchange, if_true] at hstep
  split at hstep
  · next op prev hpc =>
    have hknow := hs.consistent.knows c
    rw [hpc] at hknow
    obtain ⟨huses, hprev, hvalid⟩ := hknow
    split at hstep
    · next hr =>
      have hval := hvalid hr
      cases hstep
      refine ⟨?_, linearizes_commit hs.linearizes op (by rfl) (by simp [hpc, CasPc.phase])
        (by simp [swap, hval]) (by rw [hprev, hval, CasPc.phase])⟩
      refine hs.consistent.move ?_ ?_ ?_ ?_ ?_
      · rfl
      · trivial
      · exact False.elim
      · intro k _ hk
        exact absurd huses (by simp [(hs.consistent.inSection hk).2])
      · intro _ k _ hk
        cases hk
    · cases hstep
  · cases hstep

private theorem simulates_mutexTrylock (hs : s.Simulates v h)
    (hstep : compareExchange loc s (.mutexTrylock c) = some (s', es)) :
    s'.Simulates v (h ++ es) := by
  simp only [compareExchange] at hstep
  split at hstep
  · next op hpc =>
    split at hstep
    · cases hstep
    · next huses =>
      split at hstep
      · cases hstep
        rwa [List.append_nil]
      · next hfree =>
        have hnone : ∀ k, ¬ (s.pc k).InSection := by
          intro k hk
          exact hfree (hs.consistent.inSection hk).1
        cases hstep
        refine ⟨?_, linearizes_silent hs.linearizes (by rfl) (by rfl) (by simp [hpc, CasPc.phase])⟩
        refine hs.consistent.move ?_ ?_ ?_ ?_ ?_
        · rfl
        · exact ⟨rfl, by simpa using huses⟩
        · exact fun _ k _ => hnone k
        · exact fun k _ hk => absurd hk (hnone k)
        · exact fun hyes => absurd hyes huses
  · cases hstep

private theorem simulates_copyPrev (hw : loc.width ≠ .w8) (hs : s.Simulates v h)
    (hstep : compareExchange loc s (.copyPrev c) = some (s', es)) : s'.Simulates v (h ++ es) := by
  simp only [compareExchange, prevOf_eq hw] at hstep
  split at hstep
  · next op hpc =>
    have hknow := hs.consistent.knows c
    rw [hpc] at hknow
    cases hstep
    refine ⟨hs.consistent.advance ⟨hknow.1, hknow.2, rfl⟩ (by simp [hpc, CasPc.InSection]), ?_⟩
    exact linearizes_silent hs.linearizes (by rfl) (by rfl) (by simp [hpc, CasPc.phase])
  · cases hstep

private theorem simulates_compare (hs : s.Simulates v h)
    (hstep : compareExchange loc s (.compare c) = some (s', es)) : s'.Simulates v (h ++ es) := by
  simp only [compareExchange] at hstep
  split at hstep
  · next op prev hpc =>
    have hknow := hs.consistent.knows c
    rw [hpc] at hknow
    obtain ⟨hm, huses, hprev⟩ := hknow
    split at hstep
    · next heq =>
      cases hstep
      refine ⟨hs.consistent.advance ⟨hm, huses, hprev, heq⟩ (by simp [hpc, CasPc.InSection]), ?_⟩
      exact linearizes_silent hs.linearizes (by rfl) (by rfl) (by simp [hpc, CasPc.phase])
    · next hne =>
      cases hstep
      refine ⟨hs.consistent.advance ⟨hm, huses⟩ (by simp [hpc, CasPc.InSection]), ?_⟩
      exact linearizes_commit hs.linearizes op (by rfl) (by simp [hpc, CasPc.phase])
        (by simp [swap, hne]) (by rw [hprev, CasPc.phase])
  · cases hstep

private theorem simulates_copyBack (hs : s.Simulates v h)
    (hstep : compareExchange loc s (.copyBack c) = some (s', es)) : s'.Simulates v (h ++ es) := by
  simp only [compareExchange] at hstep
  split at hstep
  · next op prev hpc =>
    have hknow := hs.consistent.knows c
    rw [hpc] at hknow
    obtain ⟨hm, huses, hprev, hval⟩ := hknow
    have hin : (s.pc c).InSection := by simp [hpc, CasPc.InSection]
    cases hstep
    refine ⟨?_, linearizes_commit hs.linearizes op (by rfl) (by simp [hpc, CasPc.phase])
      (by simp [swap, hval]) (by rw [hprev, CasPc.phase])⟩
    refine hs.consistent.move ?_ ?_ ?_ ?_ ?_
    · rfl
    · exact ⟨hm, huses⟩
    · exact fun _ k hne hk => hne (hs.consistent.alone k c hk hin)
    · exact fun k hne hk => absurd (hs.consistent.alone k c hk hin) hne
    · exact fun hyes => absurd hyes (by simp [huses])
  · next op prev hpc =>
    have hknow := hs.consistent.knows c
    rw [hpc] at hknow
    cases hstep
    refine ⟨hs.consistent.advance hknow (by simp [hpc, CasPc.InSection]), ?_⟩
    exact linearizes_silent hs.linearizes (by rfl) (by rfl) (by simp [hpc, CasPc.phase])
  · cases hstep

private theorem simulates_mutexUnlock (hs : s.Simulates v h)
    (hstep : compareExchange loc s (.mutexUnlock c) = some (s', es)) :
    s'.Simulates v (h ++ es) := by
  simp only [compareExchange] at hstep
  split at hstep
  · next op prev modified hpc =>
    have hin : (s.pc c).InSection := by simp [hpc, CasPc.InSection]
    cases hstep
    refine ⟨?_, linearizes_silent hs.linearizes (by rfl) (by rfl) (by simp [hpc, CasPc.phase])⟩
    refine hs.consistent.move ?_ ?_ ?_ ?_ ?_
    · rfl
    · trivial
    · exact False.elim
    · exact fun k hne hk => absurd (hs.consistent.alone k c hk hin) hne
    · exact fun _ _ _ hr => ⟨hr, rfl⟩
  · cases hstep

private theorem simulates_ret (hs : s.Simulates v h)
    (hstep : compareExchange loc s (.ret c) = some (s', es)) : s'.Simulates v (h ++ es) := by
  simp only [compareExchange] at hstep
  split at hstep
  · next op prev modified hpc =>
    cases hstep
    refine ⟨hs.consistent.advance trivial False.elim, ?_⟩
    rw [object_goto]
    exact hs.linearizes.ret (by simp [CasState.object, hpc, CasPc.phase])
  · cases hstep

/-- The steps under which a call can be told apart from its failure: no store-conditional fails. -/
def CasStep.Stores : CasStep Core loc → Prop
  | .storeConditional _ success => success = true
  | _ => True

private theorem simulates_step (hw : loc.width ≠ .w8) {step : CasStep Core loc}
    (hok : step.Stores) (hs : s.Simulates v h)
    (hstep : compareExchange loc s step = some (s', es)) : s'.Simulates v (h ++ es) := by
  cases step with
  | call c op => exact simulates_call hs hstep
  | loadReserved c => exact simulates_loadReserved hw hs hstep
  | storeConditional c success =>
    have hsuccess : success = true := hok
    subst hsuccess
    exact simulates_storeConditional hs hstep
  | mutexTrylock c => exact simulates_mutexTrylock hs hstep
  | copyPrev c => exact simulates_copyPrev hw hs hstep
  | compare c => exact simulates_compare hs hstep
  | copyBack c => exact simulates_copyBack hs hstep
  | mutexUnlock c => exact simulates_mutexUnlock hs hstep
  | ret c => exact simulates_ret hs hstep

private theorem simulates_init (v : loc.Value) :
    (CasState.init v : CasState Core loc).Simulates v [] where
  consistent := ⟨fun _ => trivial, fun _ _ hk => hk.elim⟩
  linearizes := linearizes_init

theorem simulates_run (hw : loc.width ≠ .w8) {steps : List (CasStep Core loc)}
    (hok : ∀ step ∈ steps, step.Stores)
    (hrun : (compareExchange loc).run (CasState.init v) steps = some (s, h)) :
    s.Simulates v h :=
  Machine.run_history (fun s h => s.Simulates v h) (fun _ step => step.Stores)
    (fun _ _ _ _ _ hs hok hstep => simulates_step hw hok hs hstep) (h := []) (simulates_init v)
    (Machine.along_of_forall fun step hin _ => hok step hin) hrun

end Simulation

/-- What a call adds to the location if a caller that gets back its expected value is right to
believe that it stored. -/
def claimed (op : Swap loc) (prev : loc.Value) : loc.Value :=
  if prev = op.expected then op.desired - op.expected else 0

theorem swap_claimed (v : loc.Value) (op : Swap loc) :
    (swap v op).1 = v + claimed op (swap v op).2 := by
  unfold claimed swap
  split
  · next heq => simp [heq]
  · simp

/-- Every run without a failing store-conditional, on a location no wider than `prev`, has a history
of atomic compare-and-swaps, and once all calls have returned the location has changed by exactly
what the callers believe they stored. -/
theorem sync_val_compare_and_swap_linearizes [Fintype Core] (loc : Location) (v : loc.Value)
    (steps : List (CasStep Core loc)) (s : CasState Core loc) (h : List (CasEvent Core loc))
    (hw : loc.width ≠ .w8) (hok : ∀ step ∈ steps, step.Stores)
    (hrun : (compareExchange loc).run (CasState.init v) steps = some (s, h)) :
    SwapsTo loc v h s.value ∧
    ((∀ c, openOp c h = none) → s.value = v + returned claimed h) := by
  have hsim := simulates_run hw hok hrun
  refine ⟨⟨s.object, hsim.linearizes, rfl⟩, ?_⟩
  intro hclosed
  exact hsim.linearizes.measure_closed id claimed swap_claimed hclosed

/-- A word in L2, where the helpers use reservations. -/
abbrev l2Word : Location := ⟨0x1C000000#32, .w4⟩

local instance neZeroCores : NeZero 2 := ⟨two_ne_zero⟩

/-- Two cores race to replace zero: the second one reads the value the first one stored. -/
def race : List (CasStep (Fin 2) l2Word) :=
  [.call 0 ⟨0#32, 1#32⟩, .call 1 ⟨0#32, 2#32⟩, .loadReserved 0, .storeConditional 0 true,
    .loadReserved 1, .ret 1, .ret 0]

theorem sync_val_compare_and_swap_linearizes_race :
    ∃ s h, (compareExchange l2Word).run (CasState.init 0#32) race = some (s, h) ∧
      s.value = 1#32 ∧ SwapsTo l2Word 0#32 h s.value := by
  have hsome : ((compareExchange l2Word).run (CasState.init 0#32) race).isSome := by decide
  obtain ⟨⟨s, h⟩, hrun⟩ := Option.isSome_iff_exists.mp hsome
  have hval : ((compareExchange l2Word).run (CasState.init 0#32) race).map (fun r => r.1.value)
      = some 1#32 := by decide
  rw [hrun] at hval
  refine ⟨s, h, hrun, Option.some.inj hval, ?_⟩
  exact (sync_val_compare_and_swap_linearizes l2Word 0#32 race s h (by decide)
    (by simp [race, CasStep.Stores]) hrun).1

/-- A history whose callers believe more than the location shows is not one of atomic calls. -/
private theorem not_swapsTo {loc : Location} {v w : loc.Value} {h : List (CasEvent (Fin 1) loc)}
    (hclosed : ∀ c, openOp c h = none) (hw : w ≠ v + returned claimed h) :
    ¬ SwapsTo loc v h w := by
  intro hlin
  obtain ⟨o, ho, hval⟩ := hlin
  have hmeasure := ho.measure_closed id claimed swap_claimed hclosed
  exact hw (hval.symm.trans hmeasure)

/-- When the store-conditional fails the call still returns its expected value. -/
def failedStore : List (CasStep (Fin 1) l2Word) :=
  [.call 0 ⟨0#32, 1#32⟩, .loadReserved 0, .storeConditional 0 false, .ret 0]

def failedStoreHistory : List (CasEvent (Fin 1) l2Word) :=
  [.call 0 ⟨0#32, 1#32⟩, .ret 0 ⟨0#32, 1#32⟩ 0#32]

abbrev doubleWord : Location := ⟨0x1C000000#32, .w8⟩

/-- The eight-byte helper returns the low word of a value it did not expect. -/
def truncated : List (CasStep (Fin 1) doubleWord) :=
  [.call 0 ⟨0#64, 1#64⟩, .mutexTrylock 0, .copyPrev 0, .compare 0, .copyBack 0, .mutexUnlock 0,
    .ret 0]

def truncatedHistory : List (CasEvent (Fin 1) doubleWord) :=
  [.call 0 ⟨0#64, 1#64⟩, .ret 0 ⟨0#64, 1#64⟩ 0#64]

theorem sync_val_compare_and_swap_not_linearizes :
    ((compareExchange l2Word).run (CasState.init 0#32) failedStore).map
        (fun r => (r.1.value, r.2)) = some (0#32, failedStoreHistory) ∧
    ¬ SwapsTo l2Word 0#32 failedStoreHistory 0#32 ∧
    ((compareExchange doubleWord).run (CasState.init 0x100000000#64) truncated).map
        (fun r => (r.1.value, r.2)) = some (0x100000000#64, truncatedHistory) ∧
    ¬ SwapsTo doubleWord 0x100000000#64 truncatedHistory 0x100000000#64 := by
  refine ⟨by decide, ?_, by decide, ?_⟩
  · exact not_swapsTo (by decide) (by decide)
  · exact not_swapsTo (by decide) (by decide)

end Hero.Omp
