import Hero.Driver.Rab.Offload
import Hero.Driver.Rab.StripedRequest
import Hero.Framework.Machine

/-!
# Dates of tasks

A ghost records which task holds each slice of Port 1.  The slices of outstanding tasks are kept as
long as the dates of the tasks are far enough apart.
-/

namespace Hero.Rab

open Driver Flags Interp

/-- What a slice is held for. -/
@[ext]
structure Holder where
  task : Nat
  striped : Bool
  deriving DecidableEq, Repr

/-- The date with which the slice expires. -/
def Holder.dateExp (u : Holder) : Nat := if u.striped then maxDate else taskDateExp u.task

structure Held where
  rab : RabState
  holder : Nat → Nat → Option Holder

namespace Held

variable (plat : Platform) (g : Held)

def setHolder (m k : Nat) (u : Option Holder) : Nat → Nat → Option Holder :=
  Function.update g.holder m (Function.update (g.holder m) k u)

/-- A call on behalf of `u`. -/
def step (u : Holder) (c : Call) : Held :=
  ⟨g.rab.step plat c, match c with
    | .sliceFree req =>
      if req.rabPort = .port1 ∧ g.rab.sliceIsManagedByHost req then
        g.setHolder req.rabMapping req.rabSlice none else g.holder
    | .sliceSetup req _ =>
      if req.rabPort = .port1 then g.setHolder req.rabMapping req.rabSlice (some u) else g.holder
    | _ => g.holder⟩

/-- No slice that is held is considered expired at a date. -/
def NoneExpired (date : Nat) : Prop :=
  ∀ req : SliceReq, req.rabPort = .port1 → req.dateCur = date →
    g.holder req.rabMapping req.rabSlice ≠ none → g.rab.sliceCheck req = false

/-- If the call frees or configures a slice of Port 1, it may be held for `p` only. -/
def Touches (p : Holder → Prop) : Call → Prop
  | .sliceFree req | .sliceSetup req _ =>
    req.rabPort = .port1 → ∀ u ∈ g.holder req.rabMapping req.rabSlice, p u
  | _ => True

instance (p : Holder → Prop) [DecidablePred p] : ∀ c : Call, Decidable (g.Touches p c)
  | .sliceFree _ | .sliceSetup _ _ => inferInstanceAs (Decidable (_ → _))
  | .getUserPages _ _ | .mappingSwitch _ | .setStripeReq _ _ | .setSocMh _ _ | .setMh _ _ _
  | .report _ => isTrue trivial

/-- A call of a request at a date spares the slices that are held. -/
def SparesHeld (date : Nat) (c : Call) : Prop := g.NoneExpired date ∧ g.Touches (fun _ => False) c

end Held

def holding (plat : Platform) (u : Holder) : Interp RabState Call Held :=
  ⟨Held.rab, fun g c => g.step plat u c⟩

/-- The driver with the tasks that are outstanding and the ID of the next one. -/
structure World where
  held : Held
  outstanding : List TaskDesc
  nextId : Nat

namespace World

variable (plat : Platform) (w : World)

/-- The state after the regular slices of a task are set up. -/
def afterStatic (task : TaskDesc) : Held :=
  ((holding plat ⟨task.id, false⟩).exec (task.setupStatic plat) w.held).2

def setupResult (task : TaskDesc) : Except Err Unit × Held :=
  (holding plat ⟨task.id, true⟩).exec (task.setupStriped plat) (w.afterStatic plat task)

def find (id : Nat) : Option TaskDesc := w.outstanding.find? fun task => task.id = id

def afterFree (task : TaskDesc) (stack : SliceReq) : Held :=
  ((holding plat ⟨task.id, false⟩).exec (task.rabFree plat stack) w.held).2

end World

inductive Offload where
  | setup (task : TaskDesc)
  | free (id : Nat) (stack : SliceReq)

/-- Tasks are offloaded with consecutive IDs, and freed in any order. -/
def offload (plat : Platform) : Machine World Offload Empty := fun w => fun
  | .setup task =>
    if task.id = w.nextId then
      let (result, held) := w.setupResult plat task
      let outstanding := match result with
        | .ok _ => task :: w.outstanding
        | .error _ => w.outstanding
      some (⟨held, outstanding, w.nextId + 1⟩, [])
    else none
  | .free id stack => match w.find id with
    | some task =>
      let outstanding := w.outstanding.filter fun t => t.id ≠ id
      some (⟨w.afterFree plat task stack, outstanding, w.nextId⟩, [])
    | none => none

/-- Setting up a task spares all slices that are held; freeing a task frees its slices only, and
after that it holds none. -/
def Offload.KeepsHeld (plat : Platform) (w : World) : Offload → Prop
  | .setup task => task.id = w.nextId →
    (holding plat ⟨task.id, false⟩).Along (fun g c => g.SparesHeld (setupDate task.id) c)
        (task.setupStatic plat) w.held ∧
      (holding plat ⟨task.id, true⟩).Along (fun g c => g.SparesHeld 1 c)
        (task.setupStriped plat) (w.afterStatic plat task)
  | .free id stack => ∀ task ∈ w.find id,
    (holding plat ⟨id, false⟩).Along (fun g c => g.Touches (fun u => u.task = id) c)
        (task.rabFree plat stack) w.held ∧
      ∀ m k, ∀ u ∈ (w.afterFree plat task stack).holder m k, u.task ≠ id

/-- The dates of all tasks with regular slices are apart from a date. -/
def Apart (date : Nat) (tasks : List TaskDesc) : Prop :=
  ∀ t ∈ tasks, t.nStatic ≠ 0 → ¬ Expired date (taskDateExp t.id)

instance (date : Nat) (tasks : List TaskDesc) : Decidable (Apart date tasks) :=
  inferInstanceAs (Decidable (∀ t ∈ tasks, _))

/-- The kernel stack holds no mark for fixed slices where the driver reads it without writing it. -/
def TaskDesc.Unfixed (task : TaskDesc) : Prop :=
  ∀ i < (intervals task.data).length, (task.reqStack i).flagsDrv.has drvFixed = false

instance (task : TaskDesc) : Decidable task.Unfixed := inferInstanceAs (Decidable (∀ i < _, _))

/-- The dates are apart; and there is one outstanding task with striped elements at most, whose
request was successful. -/
def Offload.Distinct (plat : Platform) (w : World) : Offload → Prop
  | .setup task => task.Unfixed ∧
    (task.nStatic ≠ 0 → Apart (setupDate task.id) (task :: w.outstanding)) ∧
    (task.nStripe ≠ 0 → Apart 1 (task :: w.outstanding) ∧ (∀ t ∈ w.outstanding, t.nStripe = 0) ∧
      (w.setupResult plat task).1 = .ok ())
  | .free id _ => ∀ task ∈ w.find id, task.nStatic ≠ 0 →
    Expired (freeDate id) (taskDateExp id) ∧
      Apart (freeDate id) (w.outstanding.filter fun t => t.id ≠ id)

instance (plat : Platform) (w : World) : ∀ step : Offload, Decidable (step.Distinct plat w)
  | .setup task => inferInstanceAs (Decidable (_ ∧ _))
  | .free id _ => inferInstanceAs (Decidable (∀ _ ∈ w.find id, _))

/-- The driver after its initialisation, before the first task. -/
def World.start (plat : Platform) (stack : SliceReq) (id : Nat) : World :=
  ⟨⟨((driver plat).exec (rabSetup plat stack) (RabState.reset plat)).2, fun _ _ => none⟩, [], id⟩

/-- What holds of the slices that are held for `p`, of which those in `striped` are striped. -/
structure Held.Inv (plat : Platform) (p : Holder → Prop) (c : Control) (striped : List Nat)
    (g : Held) : Prop where
  ctrl : g.rab.ctrl = c
  place : ∀ m k u, g.holder m k = some u → m < nMappingsPort1 ∧ k < plat.nSlicesPort1
  entry : ∀ m k u, g.holder m k = some u →
    (g.rab.slice m k).fixed = false ∧ (g.rab.slice m k).dateExp = u.dateExp
  allowed : ∀ m k u, g.holder m k = some u → p u
  listed : ∀ m k u, g.holder m k = some u → u.striped = true → m = 0 ∧ k ∈ striped
  striped : ∀ k ∈ striped, ∃ u, g.holder 0 k = some u ∧ u.striped = true

section

variable {plat : Platform} {p : Holder → Prop} {P : List Nat} {g : Held} {u : Holder} {req : SliceReq}
  {pages : Option PageArray} {c : Control}

theorem setHolder_apply (m k m' k' : Nat) (o : Option Holder) : g.setHolder m k o m' k' =
    if m' = m ∧ k' = k then o else g.holder m' k' := by
  by_cases hm : m' = m
  · subst hm
    by_cases hk : k' = k <;> simp [Held.setHolder, hk]
  · simp [Held.setHolder, hm]

namespace Held.Inv

theorem noneExpired (h : g.Inv plat p c P) {date : Nat} (hp : ∀ u, p u → ¬ Expired date u.dateExp) :
    g.NoneExpired date := by
  intro req hport hdate hheld
  cases hu : g.holder req.rabMapping req.rabSlice with
  | none => exact absurd hu hheld
  | some u =>
    apply sliceCheck_of_not_expired hport
    rw [hdate, (h.entry _ _ u hu).2]
    exact hp u (h.allowed _ _ u hu)

/-- Only slices that are held matter. -/
theorem of_held (h : g.Inv plat p c P) {g' : Held} (hctrl : g'.rab.ctrl = g.rab.ctrl)
    (hholder : g'.holder = g.holder)
    (hslice : ∀ m k u, g.holder m k = some u → g'.rab.slice m k = g.rab.slice m k) :
    g'.Inv plat p c P := by
  refine ⟨?_, ?_, ?_, ?_, ?_, ?_⟩
  · rw [hctrl]
    exact h.ctrl
  · rw [hholder]
    exact h.place
  · rw [hholder]
    intro m k u hu
    rw [hslice m k u hu]
    exact h.entry m k u hu
  · rw [hholder]
    exact h.allowed
  · rw [hholder]
    exact h.listed
  · rw [hholder]
    exact h.striped

theorem allow (h : g.Inv plat p c P) {q : Holder → Prop}
    (hq : ∀ m k u, g.holder m k = some u → q u) : g.Inv plat q c P :=
  ⟨h.ctrl, h.place, h.entry, hq, h.listed, h.striped⟩

end Held.Inv

private theorem step_free_holder (v : Holder) (m k : Nat) :
    (g.step plat v (.sliceFree req)).holder m k =
      if (req.rabPort = .port1 ∧ g.rab.sliceIsManagedByHost req) ∧
        m = req.rabMapping ∧ k = req.rabSlice then none else g.holder m k := by
  change (if req.rabPort = .port1 ∧ g.rab.sliceIsManagedByHost req then
    g.setHolder req.rabMapping req.rabSlice none else g.holder) m k = _
  by_cases hcall : req.rabPort = .port1 ∧ g.rab.sliceIsManagedByHost req
  · rw [if_pos hcall, setHolder_apply]
    by_cases hslot : m = req.rabMapping ∧ k = req.rabSlice
    · rw [if_pos hslot, if_pos ⟨hcall, hslot⟩]
    · rw [if_neg hslot, if_neg fun h => hslot h.2]
  · rw [if_neg hcall, if_neg fun h => hcall h.1]

private theorem step_setup_holder (v : Holder) (hport : req.rabPort = .port1) (m k : Nat) :
    (g.step plat v (.sliceSetup req pages)).holder m k =
      if m = req.rabMapping ∧ k = req.rabSlice then some v else g.holder m k := by
  change (if req.rabPort = .port1 then
    g.setHolder req.rabMapping req.rabSlice (some v) else g.holder) m k = _
  rw [if_pos hport, setHolder_apply]

private theorem step_free_slice (v : Holder) {m k : Nat} (h : ¬ ((req.rabPort = .port1 ∧
    g.rab.sliceIsManagedByHost req) ∧ m = req.rabMapping ∧ k = req.rabSlice)) :
    (g.step plat v (.sliceFree req)).rab.slice m k = g.rab.slice m k := by
  change (g.rab.sliceFree req).slice m k = _
  rw [RabState.sliceFree_slice, if_neg]
  rintro ⟨hm, hport, hslot⟩
  exact h ⟨⟨hport, hm⟩, hslot⟩

namespace Held.Inv

/-- Freeing a slice that is not a striped one. -/
theorem free (h : g.Inv plat p c P) (v : Holder)
    (hslot : req.rabPort = .port1 → ∀ u ∈ g.holder req.rabMapping req.rabSlice, u.striped = false) :
    (g.step plat v (.sliceFree req)).Inv plat p c P := by
  have hold : ∀ m k u, (g.step plat v (.sliceFree req)).holder m k = some u →
      g.holder m k = some u ∧
        (g.step plat v (.sliceFree req)).rab.slice m k = g.rab.slice m k := by
    intro m k u hu
    rw [step_free_holder] at hu
    split_ifs at hu with hfreed
    exact ⟨hu, step_free_slice v hfreed⟩
  refine ⟨?_, ?_, ?_, ?_, ?_, ?_⟩
  · exact (g.rab.sliceFree_frame req).2.1.trans h.ctrl
  · intro m k u hu
    exact h.place m k u (hold m k u hu).1
  · intro m k u hu
    rw [(hold m k u hu).2]
    exact h.entry m k u (hold m k u hu).1
  · intro m k u hu
    exact h.allowed m k u (hold m k u hu).1
  · intro m k u hu
    exact h.listed m k u (hold m k u hu).1
  · intro k hk
    obtain ⟨u, hu, hstriped⟩ := h.striped k hk
    refine ⟨u, ?_, hstriped⟩
    rw [step_free_holder, if_neg, hu]
    rintro ⟨⟨hport, -⟩, hm, rfl⟩
    have hno := hslot hport u (hm ▸ hu)
    rw [hstriped] at hno
    cases hno

/-- Setting up a slice that is not held. -/
theorem setup (h : g.Inv plat p c P) {v : Holder} (hport : req.rabPort = .port1)
    (hm : req.rabMapping < nMappingsPort1) (hk : req.rabSlice < plat.nSlicesPort1)
    (hfixed : req.flagsDrv.has drvFixed = false) (hexp : req.dateExp = v.dateExp) (hv : p v)
    (hstriped : v.striped = true → req.rabMapping = 0)
    (hfree : g.holder req.rabMapping req.rabSlice = none) :
    (g.step plat v (.sliceSetup req pages)).Inv plat p c
      (if v.striped then P ++ [req.rabSlice] else P) := by
  have hslice : ∀ m k, (g.step plat v (.sliceSetup req pages)).rab.slice m k =
      if m = req.rabMapping ∧ k = req.rabSlice then req.entry else g.rab.slice m k := by
    intro m k
    change (g.rab.sliceSetup req pages).slice m k = _
    rw [RabState.sliceSetup_slice]
    simp only [hport, true_and]
  refine ⟨?_, ?_, ?_, ?_, ?_, ?_⟩
  · exact (g.rab.sliceSetup_frame req pages).2.1.trans h.ctrl
  · intro m k u hu
    rw [step_setup_holder v hport] at hu
    split_ifs at hu with hslot
    · rw [hslot.1, hslot.2]
      exact ⟨hm, hk⟩
    · exact h.place m k u hu
  · intro m k u hu
    rw [step_setup_holder v hport] at hu
    rw [hslice]
    split_ifs at hu ⊢ with hslot
    · cases hu
      exact ⟨hfixed, hexp⟩
    · exact h.entry m k u hu
  · intro m k u hu
    rw [step_setup_holder v hport] at hu
    split_ifs at hu with hslot
    · cases hu
      exact hv
    · exact h.allowed m k u hu
  · intro m k u hu hu'
    rw [step_setup_holder v hport] at hu
    split_ifs at hu with hslot
    · cases hu
      rw [if_pos hu', hslot.1, hslot.2]
      exact ⟨hstriped hu', List.mem_append_right P (List.mem_singleton_self _)⟩
    · obtain ⟨hzero, hmem⟩ := h.listed m k u hu hu'
      refine ⟨hzero, ?_⟩
      split
      · exact List.mem_append_left _ hmem
      · exact hmem
  · intro k hk'
    rw [step_setup_holder v hport]
    split_ifs with hslot
    · refine ⟨v, rfl, ?_⟩
      by_contra hno
      rw [if_neg hno] at hk'
      obtain ⟨u, hu, -⟩ := h.striped k hk'
      rw [hslot.1, hslot.2] at hu
      rw [hfree] at hu
      cases hu
    · apply h.striped k
      by_cases hv' : v.striped = true
      · rw [if_pos hv', List.mem_append, List.mem_singleton] at hk'
        rcases hk' with hk' | rfl
        · exact hk'
        · exact absurd ⟨(hstriped hv').symm, rfl⟩ hslot
      · rwa [if_neg hv'] at hk'

end Held.Inv

end

/-- A request for slices of Port 1 that `v` then holds. -/
structure SliceReq.For (v : Holder) (date : Nat) (req : SliceReq) : Prop where
  port : req.rabPort = .port1
  dateCur : req.dateCur = date
  dateExp : req.dateExp = v.dateExp
  unfixed : req.flagsDrv.has drvFixed = false

section

variable {plat : Platform} {p : Holder → Prop} {P : List Nat} {g : Held} {v : Holder} {date : Nat}
  {req : SliceReq} {pages : Option PageArray} {c : Control}

/-- The striped slices after `v` has taken one more. -/
def Holder.taken (v : Holder) (P : List Nat) (k : Nat) : List Nat := if v.striped then P ++ [k] else P

private theorem sliceGet_unheld (h : g.Inv plat p c P) (hp : ∀ u, p u → ¬ Expired date u.dateExp)
    (hreq : req.For v date) {k : Nat}
    (hk : g.rab.sliceGet req (req.rabPort.nSlices plat) = some k) :
    k < plat.nSlicesPort1 ∧ g.holder req.rabMapping k = none := by
  obtain ⟨hlt, hcheck, -⟩ := RabState.sliceGet_spec hk
  rw [hreq.port] at hlt
  refine ⟨hlt, ?_⟩
  by_contra hheld
  have hno := h.noneExpired hp { req with rabSlice := k } hreq.port hreq.dateCur hheld
  rw [hcheck] at hno
  cases hno

private theorem held_replaceUnheld (hp : ∀ u, p u → ¬ Expired date u.dateExp) (hv : p v)
    (hreq : req.For v date) (hm : req.rabMapping < nMappingsPort1)
    (hstriped : v.striped = true → req.rabMapping = 0) (hk : req.rabSlice < plat.nSlicesPort1) :
    (holding plat v).Triple always (fun g call => g.SparesHeld date call)
      (fun g => g.Inv plat p c P ∧ g.holder req.rabMapping req.rabSlice = none)
      (sliceReplace req pages) fun r g => match r with
        | .ok _ => g.Inv plat p c (v.taken P req.rabSlice)
        | .error _ => v.striped = false → g.Inv plat p c P := by
  apply triple_sliceReplace
    (R := fun g => g.Inv plat p c P ∧ g.holder req.rabMapping req.rabSlice = none)
  · intro g hg _
    obtain ⟨hinv, hfree⟩ := hg
    have hnot : ∀ u ∈ g.holder req.rabMapping req.rabSlice, u.striped = false := by
      intro u hu
      rw [hfree] at hu
      cases hu
    refine ⟨⟨hinv.noneExpired hp, ?_⟩, hinv.free v fun _ => hnot, ?_⟩
    · intro _ u hu
      rw [hfree] at hu
      cases hu
    · change (g.step plat v (.sliceFree req)).holder _ _ = none
      rw [step_free_holder, hfree, ite_self]
  · have hset : ∀ g : Held, g.Inv plat p c P ∧ g.holder req.rabMapping req.rabSlice = none →
        (g.step plat v (.sliceSetup req pages)).Inv plat p c (v.taken P req.rabSlice) := by
      intro g hg
      exact hg.1.setup hreq.port hm hk hreq.unfixed hreq.dateExp hv hstriped hg.2
    apply triple_sliceSetup
    · intro g hg _
      refine ⟨hg.1.noneExpired hp, ?_⟩
      intro _ u hu
      rw [hg.2] at hu
      cases hu
    · intro g hg _
      have hinv := hset g hg
      split
      · next heq => exact hinv
      · next heq =>
        intro hno
        rw [Holder.taken, if_neg (by rw [hno]; exact Bool.false_ne_true)] at hinv
        exact hinv

/-- What a regular request has when it goes on, and when it fails. -/
private def Regular (plat : Platform) (p : Holder → Prop) (c : Control) (P : List Nat) (v : Holder)
    (date : Nat) (r : Except Err SliceReq) (g : Held) : Prop :=
  g.Inv plat p c P ∧ match r with
    | .ok req => req.For v date
    | .error _ => True

private theorem Holder.taken_regular (hv : v.striped = false) (k : Nat) : v.taken P k = P := by
  rw [Holder.taken, if_neg (by rw [hv]; exact Bool.false_ne_true)]

/-- Take a slice that is not held for a regular request. -/
private theorem held_takeRegular (hp : ∀ u, p u → ¬ Expired date u.dateExp) (hv : p v)
    (hregular : v.striped = false) (hm : req.rabMapping < nMappingsPort1) :
    (holding plat v).Triple always (fun g call => g.SparesHeld date call)
      (fun g => g.Inv plat p c P ∧ req.For v date)
      ((sliceGet plat req).bind fun req => (sliceReplace req pages).bind fun _ => Prog.ret req)
      (Regular plat p c P v date) := by
  apply Triple.bind (R := fun req' (g : Held) => g.Inv plat p c P ∧ SliceReq.For v date req' ∧
    req'.rabMapping = req.rabMapping ∧ req'.rabSlice < plat.nSlicesPort1 ∧
      g.holder req'.rabMapping req'.rabSlice = none)
  · apply triple_sliceGet
    · intro g k hg hk
      obtain ⟨hinv, hreq⟩ := hg
      obtain ⟨hlt, hfree⟩ := sliceGet_unheld hinv hp hreq hk
      exact ⟨hinv, ⟨hreq.port, hreq.dateCur, hreq.dateExp, hreq.unfixed⟩, rfl, hlt, hfree⟩
    · exact fun g hg _ => ⟨hg.1, trivial⟩
  intro req'
  apply Triple.of_states
  rintro g ⟨hinv, hreq', hmapping, hlt, hfree⟩
  have hnostripe : v.striped = true → req'.rabMapping = 0 := by
    intro hstriped
    rw [hregular] at hstriped
    cases hstriped
  apply Triple.bind (R := fun _ g => g.Inv plat p c P)
  · apply (held_replaceUnheld hp hv hreq' (by rwa [hmapping]) hnostripe hlt).conseq
    · rintro g' rfl
      exact ⟨hinv, hfree⟩
    · intro r g' hg'
      cases r with
      | ok _ =>
        rw [Holder.taken_regular hregular] at hg'
        exact hg'
      | error e => exact ⟨hg' hregular, trivial⟩
  · intro _
    exact Triple.ret fun g' hg' => ⟨hg', hreq'⟩

private theorem held_reqMapping (hp : ∀ u, p u → ¬ Expired date u.dateExp) (hv : p v)
    (hregular : v.striped = false) (hreq : req.For v date) (i j : Nat) (hj : j < nMappingsPort1) :
    (holding plat v).Triple always (fun g call => g.SparesHeld date call) (fun g => g.Inv plat p c P)
      (reqMapping plat pages i req j) (Regular plat p c P v date) := by
  have hstart : (if req.rabPort = .port1 ∧ req.flagsDrv.has drvEvery then
      { req with rabMapping := j } else req).For v date := by
    split
    · exact ⟨hreq.port, hreq.dateCur, hreq.dateExp, hreq.unfixed⟩
    · exact hreq
  rw [reqMapping]
  generalize (if req.rabPort = .port1 ∧ req.flagsDrv.has drvEvery then
    { req with rabMapping := j } else req) = start at hstart ⊢
  split
  · next hmapping =>
    have hm : start.rabMapping < nMappingsPort1 := by rwa [hmapping]
    split
    · apply Triple.bind (R := fun req' (g : Held) => g.Inv plat p c P ∧ SliceReq.For v date req' ∧
        req'.rabMapping < nMappingsPort1)
      · apply triple_pagePtrsGetField
        · intro g i hg _
          exact ⟨hg, ⟨hstart.port, hstart.dateCur, hstart.dateExp, hstart.unfixed⟩, hm⟩
        · exact fun g hg _ => ⟨hg, trivial⟩
      · intro req'
        apply Triple.of_states
        rintro g ⟨hinv, hreq', hm'⟩
        apply (held_takeRegular hp hv hregular hm').conseq
        · rintro g' rfl
          exact ⟨hinv, hreq'⟩
        · exact fun _ _ h => h
    · exact (held_takeRegular hp hv hregular hm).conseq (fun g hg => ⟨hg, hstart⟩) fun _ _ h => h
  · exact Triple.ret fun g hg => ⟨hg, hstart⟩

private theorem held_reqMappings (hp : ∀ u, p u → ¬ Expired date u.dateExp) (hv : p v)
    (hregular : v.striped = false) (hreq : req.For v date) (i : Nat) :
    (holding plat v).Triple always (fun g call => g.SparesHeld date call) (fun g => g.Inv plat p c P)
      (reqMappings plat pages i req) (Regular plat p c P v date) := by
  apply Triple.conseq (Triple.foldl
    (R := fun _ _ req' g => Regular plat p c P v date (.ok req') g) (List.range nMappingsPort1) ?_ ?_ req)
    (fun g hg => ⟨hg, hreq⟩) fun _ _ h => h
  · intro pre j post req' hsplit
    apply Triple.of_states
    rintro g ⟨hinv, hreq'⟩
    have hj : j < nMappingsPort1 := by
      rw [← List.mem_range, hsplit]
      exact List.mem_append_right pre List.mem_cons_self
    apply (held_reqMapping hp hv hregular hreq' i j hj).conseq
    · rintro g' rfl
      exact hinv
    · intro r g' hg'
      cases r <;> exact hg'
  · exact fun req' g hg => hg

/-- A regular request spares the slices that are held, also if it fails. -/
private theorem held_rabReq (hp : ∀ u, p u → ¬ Expired date u.dateExp) (hv : p v)
    (hregular : v.striped = false) (hreq : req.For v date) (user : UserPages) :
    (holding plat v).Triple always (fun g call => g.SparesHeld date call) (fun g => g.Inv plat p c P)
      (rabReq plat user req) (Regular plat p c P v date) := by
  have htype : req.withType.For v date := by
    refine ⟨hreq.port, hreq.dateCur, hreq.dateExp, ?_⟩
    have hset : ∀ flags : Flags, flags.has drvFixed = false →
        (flags.set (drvConst ||| drvEvery)).has drvFixed = false ∧
          (flags.set drvEvery).has drvFixed = false := by decide
    rw [SliceReq.withType]
    split
    · exact (hset _ hreq.unfixed).1
    · exact (hset _ hreq.unfixed).2
  rw [rabReq]
  generalize req.withType = req' at htype ⊢
  split
  · apply held_reqMappings hp hv hregular
    exact ⟨htype.port, htype.dateCur, htype.dateExp, htype.unfixed⟩
  · apply Triple.bind (R := fun _ g => g.Inv plat p c P)
    · apply triple_memGetUserPages
      · intro g hg _
        exact ⟨hg.noneExpired hp, trivial⟩
      · intro g hg _
        exact hg.of_held rfl rfl fun _ _ _ _ => rfl
      · exact fun g hg => ⟨hg, trivial⟩
    · intro pages
      apply Triple.conseq (Triple.foldl (R := fun _ _ req'' g => Regular plat p c P v date (.ok req'') g)
        _ ?_ ?_ req') (fun g hg => ⟨hg, htype⟩) fun _ _ h => h
      · intro pre i post req'' _
        apply Triple.of_states
        rintro g ⟨hinv, hreq''⟩
        have hseg : ∀ seg, (req''.forSegment seg).For v date := fun seg =>
          ⟨hreq''.port, hreq''.dateCur, hreq''.dateExp, hreq''.unfixed⟩
        apply (held_reqMappings hp hv hregular (hseg _) i).conseq
        · rintro g' rfl
          exact hinv
        · intro r g' hg'
          cases r <;> exact hg'
      · exact fun req'' g hg => hg

private theorem held_setupStatic {task : TaskDesc} (hunfixed : task.Unfixed)
    (hp : task.nStatic ≠ 0 → p ⟨task.id, false⟩ ∧ ∀ u, p u → ¬ Expired (setupDate task.id) u.dateExp) :
    (holding plat ⟨task.id, false⟩).Triple always
      (fun g call => g.SparesHeld (setupDate task.id) call) (fun g => g.Inv plat p c P)
      (task.setupStatic plat) fun _ g => g.Inv plat p c P := by
  rw [TaskDesc.setupStatic]
  split
  · next hstatic =>
    obtain ⟨hv, hapart⟩ := hp hstatic
    apply Triple.session
    intro q hq
    obtain ⟨⟨iv, i⟩, hi, rfl⟩ := List.mem_map.mp hq
    have hlt := (List.mem_zipIdx' hi).1
    have hreq : (iv.request task.id (task.reqStack i)).For ⟨task.id, false⟩ (setupDate task.id) :=
      ⟨rfl, rfl, rfl, hunfixed i hlt⟩
    apply Triple.handle (R := fun _ g => g.Inv plat p c P)
    · apply Triple.bind (R := fun _ g => g.Inv plat p c P)
      · apply (held_rabReq hapart hv rfl hreq (task.users i)).conseq (fun _ h => h)
        intro r g hg
        cases r <;> exact hg.1
      · intro _
        exact Triple.ret fun g hg => hg
    · intro e
      apply Triple.issue
      · intro g hg _
        exact ⟨hg.noneExpired hapart, trivial⟩
      · intro g hg _
        exact hg.of_held rfl rfl fun _ _ _ _ => rfl
  · exact Triple.ret fun g hg => hg

/-- A request for striped slices, which may have any flags before its slice is known. -/
private def ForStripes (v : Holder) (req : SliceReq) : Prop :=
  req.rabPort = .port1 ∧ req.dateCur = 1 ∧ req.dateExp = v.dateExp ∧ req.rabMapping = 0

private theorem ForStripes.forStripe (hreq : ForStripes v req) (flagsHw : Flags) (first : Stripe)
    (j : Nat) : (req.forStripe flagsHw first j).For v 1 ∧
      (req.forStripe flagsHw first j).rabMapping = 0 := by
  obtain ⟨hport, hcur, hexp, hmapping⟩ := hreq
  obtain ⟨hport', hmapping', hcur', hexp', -⟩ := forStripe_frame req flagsHw first j
  refine ⟨⟨hport'.trans hport, hcur'.trans hcur, hexp'.trans hexp, ?_⟩, hmapping'.trans hmapping⟩
  change Flags.has (if 0 < j then drvStriped else 0#8) drvFixed = false
  split <;> rfl

private theorem held_reqStripedSlices (hp : ∀ u, p u → ¬ Expired 1 u.dateExp) (hv : p v)
    (hstriped : v.striped = true) (hreq : ForStripes v req) (array : PageArray) (flagsHw : Flags)
    (first : Stripe) (n : Nat) :
    (holding plat v).Triple always (fun g call => g.SparesHeld 1 call) (fun g => g.Inv plat p c P)
      (reqStripedSlices plat array flagsHw first req n) fun r g => match r with
        | .ok (req', idxs) => g.Inv plat p c (P ++ idxs) ∧ ForStripes v req'
        | .error _ => True := by
  apply Triple.conseq (Triple.foldl
    (R := fun _ _ x (g : Held) => g.Inv plat p c (P ++ x.2) ∧ ForStripes v x.1) (List.range n) ?_ ?_
      (req, [])) ?_ fun _ _ h => h
  · intro pre j post x _
    obtain ⟨req, idxs⟩ := x
    apply Triple.of_states
    rintro g ⟨hinv, hreq⟩
    obtain ⟨hfor, hmapping⟩ := hreq.forStripe flagsHw first j
    apply Triple.bind (R := fun req' (g : Held) => g.Inv plat p c (P ++ idxs) ∧ SliceReq.For v 1 req' ∧
      req'.rabMapping = 0 ∧ req'.rabSlice < plat.nSlicesPort1 ∧
        g.holder req'.rabMapping req'.rabSlice = none)
    · apply triple_sliceGet
      · rintro g' k rfl hk
        obtain ⟨hlt, hfree⟩ := sliceGet_unheld hinv hp hfor hk
        exact ⟨hinv, ⟨hfor.port, hfor.dateCur, hfor.dateExp, hfor.unfixed⟩, hmapping, hlt, hfree⟩
      · exact fun _ _ _ => trivial
    intro req'
    apply Triple.of_states
    rintro g ⟨hinv, hfor, hmapping, hlt, hfree⟩
    apply Triple.bind (R := fun _ g => g.Inv plat p c (P ++ (idxs ++ [req'.rabSlice])))
    · apply (held_replaceUnheld hp hv hfor (by rw [hmapping]; decide) (fun _ => hmapping) hlt).conseq
      · rintro g' rfl
        exact ⟨hinv, hfree⟩
      · intro r g' hg'
        cases r with
        | ok _ =>
          rw [Holder.taken, if_pos hstriped, List.append_assoc] at hg'
          exact hg'
        | error e => trivial
    · intro _
      exact Triple.ret fun g' hg' => ⟨hg', hfor.port, hfor.dateCur, hfor.dateExp, hmapping⟩
  · exact fun _ _ hg => hg
  · intro g hg
    rw [List.append_nil]
    exact ⟨hg, hreq⟩

private theorem held_reqStripedElem (hp : ∀ u, p u → ¬ Expired 1 u.dateExp) {task : Nat}
    (hv : p ⟨task, true⟩) (x : SliceReq × List StripeElem) (elem : StripeElemUser × UserPages) :
    (holding plat ⟨task, true⟩).Triple always (fun g call => g.SparesHeld 1 call)
      (fun g => g.Inv plat p c (x.2.flatMap StripeElem.sliceIdxs)) (reqStripedElem plat 0 x elem)
      fun r g => match r with
        | .ok x' => g.Inv plat p c (x'.2.flatMap StripeElem.sliceIdxs) ∧ x'.1.rabMapping = 0
        | .error _ => True := by
  obtain ⟨req, elems⟩ := x
  obtain ⟨e, user⟩ := elem
  apply Triple.bind (R := fun _ g => g.Inv plat p c (elems.flatMap StripeElem.sliceIdxs))
  · apply triple_memGetUserPages
    · intro g hg _
      exact ⟨hg.noneExpired hp, trivial⟩
    · intro g hg _
      exact hg.of_held rfl rfl fun _ _ _ _ => rfl
    · exact fun _ _ => trivial
  intro pages
  cases stripeTable e user.pfn with
  | none => exact Triple.fail fun _ _ => trivial
  | some table =>
    cases table with
    | nil => exact Triple.fail fun _ _ => trivial
    | cons first rest =>
      apply Triple.bind (R := fun req' (g : Held) =>
        g.Inv plat p c (elems.flatMap StripeElem.sliceIdxs) ∧ ForStripes ⟨task, true⟩ req')
      · apply triple_pagePtrsGetField
        · intro g i hg _
          exact ⟨hg, rfl, rfl, rfl, rfl⟩
        · exact fun _ _ _ => trivial
      intro req'
      apply Triple.of_states
      rintro g ⟨hinv, hreq'⟩
      apply Triple.bind (R := fun x (g : Held) =>
        g.Inv plat p c (elems.flatMap StripeElem.sliceIdxs ++ x.2) ∧ ForStripes ⟨task, true⟩ x.1)
      · apply (held_reqStripedSlices hp hv rfl hreq' pages _ first _).conseq
        · rintro g' rfl
          exact hinv
        · intro r g' hg'
          cases r <;> exact hg'
      · intro x'
        apply Triple.ret
        rintro g' ⟨hinv', -, -, -, hmapping⟩
        refine ⟨?_, hmapping⟩
        rw [List.flatMap_append, List.flatMap_singleton]
        exact hinv'

private theorem held_setStripeReq {elems : List StripeElem} (h : g.Inv plat p c P)
    (hnone : P = elems.flatMap StripeElem.sliceIdxs) (m : Nat) :
    (g.step plat v (.setStripeReq m elems)).Inv plat p
      { c with stripeReq := Function.update c.stripeReq m elems } (elems.flatMap StripeElem.sliceIdxs) := by
  subst hnone
  refine ⟨?_, h.place, h.entry, h.allowed, h.listed, h.striped⟩
  change ({ g.rab.ctrl with stripeReq := _ } : Control) = _
  rw [h.ctrl]

/-- A successful request for striped slices puts all of them into the table of its mapping. -/
private theorem held_setupStriped {task : TaskDesc}
    (hp : task.nStripe ≠ 0 → p ⟨task.id, true⟩ ∧ ∀ u, p u → ¬ Expired 1 u.dateExp) :
    (holding plat ⟨task.id, true⟩).Triple always (fun g call => g.SparesHeld 1 call)
      (fun g => g.Inv plat p c P ∧ (task.nStripe ≠ 0 → P = [])) (task.setupStriped plat)
      fun r g => r = .ok () → if task.nStripe ≠ 0 then
        ∃ elems, g.Inv plat p { c with stripeReq := Function.update c.stripeReq 0 elems }
          (elems.flatMap StripeElem.sliceIdxs)
        else g.Inv plat p c P := by
  rw [TaskDesc.setupStriped]
  split
  · next hstripe =>
    obtain ⟨hv, hapart⟩ := hp hstripe
    have hne : (List.range task.nStripe).map task.elem ≠ [] := by
      rw [Ne, List.map_eq_nil_iff, List.range_eq_nil]
      exact hstripe
    apply Triple.bind (R := fun x (g : Held) =>
      g.Inv plat p c (x.2.flatMap StripeElem.sliceIdxs) ∧ x.1.rabMapping = 0)
    · apply Triple.conseq (Triple.foldl (R := fun pre _ x (g : Held) =>
        g.Inv plat p c (x.2.flatMap StripeElem.sliceIdxs) ∧ (pre ≠ [] → x.1.rabMapping = 0))
        ((List.range task.nStripe).map task.elem) ?_ ?_ (task.stripedStack, [])) ?_ fun _ _ h => h
      · intro pre elem post x _
        apply (held_reqStripedElem hapart hv x elem).conseq (fun g hg => hg.1)
        intro r g hg
        cases r with
        | ok x' => exact ⟨hg.1, fun _ => hg.2⟩
        | error e =>
          intro h
          cases h
      · exact fun x g hg => ⟨hg.1, hg.2 hne⟩
      · intro g hg
        refine ⟨?_, fun h => absurd rfl h⟩
        have hinv := hg.1
        rw [hg.2 hstripe] at hinv
        exact hinv
    · intro x
      apply Triple.issue
      · intro g hg _
        exact ⟨hg.1.noneExpired hapart, trivial⟩
      · intro g hg _ _
        rw [hg.2]
        exact ⟨x.2, held_setStripeReq (v := ⟨task.id, true⟩) hg.1 rfl 0⟩
  · next hstripe =>
    apply Triple.ret
    intro g hg _
    exact hg.1

/-- None of the slices in `C` is held for `v`. -/
private def Clear (v : Holder) (C : Nat → Nat → Prop) (g : Held) : Prop :=
  ∀ m k, C m k → g.holder m k ≠ some v

private theorem Clear.free {C : Nat → Nat → Prop} (h : Clear v C g) (v' : Holder) :
    Clear v C (g.step plat v' (.sliceFree req)) := by
  intro m k hC
  rw [step_free_holder]
  split_ifs
  · exact Option.some_ne_none v |>.symm
  · exact h m k hC

/-- Freeing expired slices frees slices of one task only, and all of them in the end. -/
private theorem held_freeExpired {C : Nat → Nat → Prop} {id : Nat} (hc : c.socMhIsEna = false)
    (hown : Expired req.dateCur (taskDateExp id))
    (hp : ∀ u, p u → u = ⟨id, false⟩ ∨ ¬ Expired req.dateCur u.dateExp) :
    (holding plat ⟨id, false⟩).Triple always (fun g call => g.Touches (fun u => u.task = id) call)
      (fun g => g.Inv plat p c P ∧ Clear ⟨id, false⟩ C g) (freeExpired req)
      fun r g => r = .ok () ∧ g.Inv plat p c P ∧ Clear ⟨id, false⟩ (fun m k => C m k ∨
        req.rabPort = .port1 ∧ m = req.rabMapping ∧ k = req.rabSlice) g := by
  apply Triple.read
  intro s
  change (holding plat ⟨id, false⟩).Triple _ _ _
    (if s.sliceCheck req = true then Prog.issue (.sliceFree req) else Prog.ret ()) _
  apply Triple.of_states
  rintro g ⟨⟨hinv, hclear⟩, rfl⟩
  change (holding plat ⟨id, false⟩).Triple _ _ _
    (if g.rab.sliceCheck req = true then Prog.issue (.sliceFree req) else Prog.ret ()) _
  have hholder : g.rab.sliceCheck req = true → req.rabPort = .port1 →
      ∀ u ∈ g.holder req.rabMapping req.rabSlice, u = ⟨id, false⟩ := by
    intro hcheck hport u hu
    apply (hp u (hinv.allowed _ _ u hu)).resolve_right
    intro hno
    have hfalse := sliceCheck_of_not_expired (s := g.rab) hport (by rwa [(hinv.entry _ _ u hu).2])
    rw [hcheck] at hfalse
    cases hfalse
  split
  · next hcheck =>
    have hmanaged : g.rab.sliceIsManagedByHost req = true := by
      simp [RabState.sliceIsManagedByHost, hinv.ctrl, hc]
    apply Triple.issue
    · rintro g' rfl _ hport u hu
      rw [hholder hcheck hport u hu]
    · rintro g' rfl _
      refine ⟨rfl, hinv.free ⟨id, false⟩ fun hport u hu => by rw [hholder hcheck hport u hu], ?_⟩
      intro m k hC
      rcases hC with hC | ⟨hport, hslot⟩
      · exact hclear.free ⟨id, false⟩ m k hC
      · change (g'.step plat ⟨id, false⟩ (.sliceFree req)).holder m k ≠ _
        rw [step_free_holder, if_pos ⟨⟨hport, hmanaged⟩, hslot⟩]
        exact (Option.some_ne_none _).symm
  · next hcheck =>
    apply Triple.ret
    rintro g' rfl
    refine ⟨rfl, hinv, ?_⟩
    intro m k hC
    rcases hC with hC | ⟨hport, rfl, rfl⟩
    · exact hclear m k hC
    · intro hheld
      obtain ⟨hfixed, hexp⟩ := hinv.entry _ _ _ hheld
      apply hcheck
      have hexpired : Expired req.dateCur (g'.rab.slice req.rabMapping req.rabSlice).dateExp := by
        rw [hexp]
        exact hown
      simp only [RabState.sliceCheck, RabState.entry, hport, hfixed]
      rcases hexpired with hgt | ⟨hzero, hmax⟩
      · simp [hgt]
      · simp [hzero, hmax]

private theorem held_rabFree {id date : Nat} (hc : c.socMhIsEna = false) (stack : SliceReq)
    (hown : Expired (u8 date) (taskDateExp id))
    (hp : ∀ u, p u → u = ⟨id, false⟩ ∨ ¬ Expired (u8 date) u.dateExp) :
    (holding plat ⟨id, false⟩).Triple always (fun g call => g.Touches (fun u => u.task = id) call)
      (fun g => g.Inv plat p c P) (rabFree plat stack date false)
      fun _ g => g.Inv plat p c P ∧ ∀ m k, g.holder m k ≠ some ⟨id, false⟩ := by
  apply Triple.bind (R := fun _ (g : Held) => g.Inv plat p c P)
  · apply Triple.foldl (R := fun _ _ _ (g : Held) => g.Inv plat p c P)
    · intro pre k post _ _
      apply (held_freeExpired (C := fun _ _ => False) hc hown hp).conseq
      · exact fun g hg => ⟨hg, fun _ _ h => h.elim⟩
      · rintro r g ⟨rfl, hinv, -⟩
        exact hinv
    · exact fun _ _ h => h
  · intro _
    apply Triple.conseq (Triple.foldl (R := fun pre _ _ (g : Held) => g.Inv plat p c P ∧
      Clear ⟨id, false⟩ (fun m k => m ∈ pre ∧ k < plat.nSlicesPort1) g)
      (List.range nMappingsPort1) ?_ ?_ ()) ?_ fun _ _ h => h
    · intro pre j post _ _
      apply Triple.conseq (Triple.foldl (R := fun pre' _ _ (g : Held) => g.Inv plat p c P ∧
        Clear ⟨id, false⟩ (fun m k => m ∈ pre ∧ k < plat.nSlicesPort1 ∨ m = j ∧ k ∈ pre') g)
        (Q := fun r (g : Held) => r = .ok () ∧ g.Inv plat p c P ∧
          Clear ⟨id, false⟩ (fun m k => m ∈ pre ++ [j] ∧ k < plat.nSlicesPort1) g)
        (List.range plat.nSlicesPort1) ?_ ?_ ()) ?_ ?_
      · intro pre' k post' _ _
        apply Triple.read
        intro s
        apply (held_freeExpired hc hown hp).conseq (fun g hg => hg.1)
        rintro r g ⟨rfl, hinv, hclear⟩
        refine ⟨hinv, ?_⟩
        intro m k' hC
        apply hclear m k'
        rcases hC with hC | ⟨rfl, hk'⟩
        · exact Or.inl (Or.inl hC)
        · rcases List.mem_append.mp hk' with hk' | hk'
          · exact Or.inl (Or.inr ⟨rfl, hk'⟩)
          · exact Or.inr ⟨rfl, rfl, List.mem_singleton.mp hk'⟩
      · rintro _ g ⟨hinv, hclear⟩
        refine ⟨rfl, hinv, ?_⟩
        rintro m k ⟨hm, hk⟩
        apply hclear m k
        rcases List.mem_append.mp hm with hm | hm
        · exact Or.inl ⟨hm, hk⟩
        · exact Or.inr ⟨List.mem_singleton.mp hm, List.mem_range.mpr hk⟩
      · rintro g ⟨hinv, hclear⟩
        refine ⟨hinv, ?_⟩
        intro m k hC
        rcases hC with hC | ⟨-, hk⟩
        · exact hclear m k hC
        · cases hk
      · rintro r g ⟨rfl, hg⟩
        exact hg
    · rintro _ g ⟨hinv, hclear⟩
      refine ⟨hinv, ?_⟩
      intro m k hheld
      obtain ⟨hm, hk⟩ := hinv.place m k _ hheld
      exact hclear m k ⟨List.mem_range.mpr hm, hk⟩ hheld
    · intro g hg
      refine ⟨hg, ?_⟩
      rintro m k ⟨hm, -⟩
      cases hm

private theorem held_freeStatic {task : TaskDesc} (hc : c.socMhIsEna = false) (stack : SliceReq)
    (hown : task.nStatic ≠ 0 → Expired (freeDate task.id) (taskDateExp task.id) ∧
      ∀ u, p u → u = ⟨task.id, false⟩ ∨ ¬ Expired (freeDate task.id) u.dateExp)
    (hnone : task.nStatic = 0 → ¬ p ⟨task.id, false⟩) :
    (holding plat ⟨task.id, false⟩).Triple always (fun g call => g.Touches (fun u => u.task = task.id) call)
      (fun g => g.Inv plat p c P) (task.freeStatic plat stack)
      fun _ g => g.Inv plat p c P ∧ ∀ m k, g.holder m k ≠ some ⟨task.id, false⟩ := by
  have hdate : u8 (freeDate task.id) = freeDate task.id := by
    rw [freeDate, u8, u8, Nat.mod_mod]
  rw [TaskDesc.freeStatic]
  split
  · next hstatic =>
    obtain ⟨hexpired, hothers⟩ := hown hstatic
    rw [← hdate] at hexpired hothers
    exact held_rabFree hc stack hexpired hothers
  · next hstatic =>
    apply Triple.ret
    intro g hg
    refine ⟨hg, ?_⟩
    intro m k hheld
    exact hnone (not_not.mp hstatic) (hg.allowed m k _ hheld)

/-- The state while the striped slices are freed; those in `done` are. -/
private def Freed (plat : Platform) (p : Holder → Prop) (c : Control) (P done : List Nat) (g : Held) :
    Prop :=
  g.Inv plat p c (P.filter fun k => k ∉ done) ∧ ∀ k ∈ done, g.holder 0 k = none

private theorem Freed.snoc {done : List Nat} (h : Freed plat p c P done g) (hc : c.socMhIsEna = false)
    (hport : req.rabPort = .port1) (hm : req.rabMapping = 0) :
    Freed plat p c P (done ++ [req.rabSlice]) (g.step plat v (.sliceFree req)) := by
  obtain ⟨hinv, hdone⟩ := h
  have hmanaged : g.rab.sliceIsManagedByHost req = true := by
    simp [RabState.sliceIsManagedByHost, hinv.ctrl, hc]
  have hholder : ∀ m k, (g.step plat v (.sliceFree req)).holder m k =
      if m = 0 ∧ k = req.rabSlice then none else g.holder m k := by
    intro m k
    rw [step_free_holder, hm]
    simp only [hport, hmanaged, true_and]
  have hold : ∀ m k u, (g.step plat v (.sliceFree req)).holder m k = some u →
      g.holder m k = some u ∧ ¬ (m = 0 ∧ k = req.rabSlice) := by
    intro m k u hu
    rw [hholder] at hu
    split_ifs at hu with hslot
    exact ⟨hu, hslot⟩
  refine ⟨⟨?_, ?_, ?_, ?_, ?_, ?_⟩, ?_⟩
  · exact (g.rab.sliceFree_frame req).2.1.trans hinv.ctrl
  · intro m k u hu
    exact hinv.place m k u (hold m k u hu).1
  · intro m k u hu
    rw [step_free_slice]
    · exact hinv.entry m k u (hold m k u hu).1
    · rintro ⟨-, hslot⟩
      exact (hold m k u hu).2 (by rwa [hm] at hslot)
  · intro m k u hu
    exact hinv.allowed m k u (hold m k u hu).1
  · intro m k u hu hstriped
    obtain ⟨hu', hslot⟩ := hold m k u hu
    obtain ⟨rfl, hmem⟩ := hinv.listed m k u hu' hstriped
    simp only [List.mem_filter, decide_eq_true_eq, List.mem_append, List.mem_singleton] at hmem ⊢
    exact ⟨trivial, hmem.1, fun h => h.elim hmem.2 fun heq => hslot ⟨rfl, heq⟩⟩
  · intro k hk
    simp only [List.mem_filter, decide_eq_true_eq, List.mem_append, List.mem_singleton, not_or] at hk
    obtain ⟨u, hu, hstriped⟩ := hinv.striped k (by
      simp only [List.mem_filter, decide_eq_true_eq]
      exact ⟨hk.1, hk.2.1⟩)
    refine ⟨u, ?_, hstriped⟩
    rw [hholder, if_neg fun h => hk.2.2 h.2]
    exact hu
  · intro k hk
    rw [hholder]
    split_ifs with hslot
    · rfl
    · rcases List.mem_append.mp hk with hk | hk
      · exact hdone k hk
      · exact absurd ⟨rfl, List.mem_singleton.mp hk⟩ hslot

private theorem Freed.nil (h : g.Inv plat p c P) : Freed plat p c P [] g := by
  refine ⟨?_, fun k hk => by cases hk⟩
  rw [List.filter_eq_self.mpr fun k _ => by simp]
  exact h

/-- The slices in the table of striped requests are held for one task. -/
private theorem Freed.touches {done : List Nat} {id : Nat} (h : Freed plat p c P done g)
    (hp : ∀ u, p u → u.striped = true → u.task = id) (hm : req.rabMapping = 0)
    (hk : req.rabSlice ∈ P) : g.Touches (fun u => u.task = id) (.sliceFree req) := by
  intro _ u hu
  rw [hm] at hu
  by_cases hdone : req.rabSlice ∈ done
  · rw [h.2 _ hdone] at hu
    cases hu
  · obtain ⟨u', hu', hstriped⟩ := h.1.striped req.rabSlice (by
      simp only [List.mem_filter, decide_eq_true_eq]
      exact ⟨hk, hdone⟩)
    cases hu.symm.trans hu'
    exact hp u (h.1.allowed _ _ u hu') hstriped

private theorem held_freeElem {id : Nat} (hc : c.socMhIsEna = false)
    (hp : ∀ u, p u → u.striped = true → u.task = id) (stack : SliceReq) (e : StripeElem)
    (he : ∀ k ∈ e.sliceIdxs, k ∈ P) (done : List Nat) :
    (holding plat v).Triple always (fun g call => g.Touches (fun u => u.task = id) call)
      (Freed plat p c P done)
      (Prog.foldl (fun _ j => Prog.issue (.sliceFree (freeStripedReq stack 0 e j))) ()
        (List.range e.sliceIdxs.length) : Op Unit)
      fun r g => r = .ok () ∧ Freed plat p c P (done ++ e.sliceIdxs) g := by
  apply Triple.conseq (Triple.foldl
    (R := fun pre _ _ => Freed plat p c P (done ++ e.sliceIdxs.take pre.length))
    (List.range e.sliceIdxs.length) ?_ ?_ ()) ?_ fun _ _ h => h
  · intro pre j post _ hsplit
    have hj : j = pre.length ∧ j < e.sliceIdxs.length := by
      have hget := congrArg (fun l => l[pre.length]?) hsplit
      simp only [List.getElem?_append_right le_rfl, Nat.sub_self, List.getElem?_cons_zero] at hget
      obtain ⟨hlt, hval⟩ := List.getElem?_eq_some_iff.mp hget
      rw [List.length_range] at hlt
      rw [List.getElem_range] at hval
      omega
    obtain ⟨rfl, hlt⟩ := hj
    have hslice : (freeStripedReq stack 0 e pre.length).rabSlice = e.sliceIdxs[pre.length] := by
      simp [freeStripedReq, hlt]
    apply Triple.issue
    · intro g hg _
      apply hg.touches hp rfl
      rw [hslice]
      exact he _ (List.getElem_mem hlt)
    · intro g hg _
      have hsnoc : Freed plat p c P (_ ++ [(freeStripedReq stack 0 e pre.length).rabSlice])
          (g.step plat v (.sliceFree (freeStripedReq stack 0 e pre.length))) := hg.snoc hc rfl rfl
      rw [hslice, List.append_assoc, List.take_concat_get' _ _ hlt] at hsnoc
      rw [List.length_append, List.length_singleton]
      exact hsnoc
  · intro _ g hg
    refine ⟨rfl, ?_⟩
    simpa using hg
  · intro g hg
    simpa using hg

private theorem held_freeStriped {task : TaskDesc} (hc : c.socMhIsEna = false) (stack : SliceReq)
    (hP : P = (c.stripeReq 0).flatMap StripeElem.sliceIdxs)
    (hp : task.nStripe ≠ 0 → ∀ u, p u → u.striped = true → u.task = task.id) :
    (holding plat v).Triple always (fun g call => g.Touches (fun u => u.task = task.id) call)
      (fun g => g.Inv plat p c P) (task.freeStriped stack)
      fun _ g => ∃ c', c'.socMhIsEna = false ∧
        g.Inv plat p c' ((c'.stripeReq 0).flatMap StripeElem.sliceIdxs) ∧
        (task.nStripe ≠ 0 → c'.stripeReq 0 = []) := by
  rw [TaskDesc.freeStriped]
  split
  · next hstripe =>
    apply Triple.read
    intro s
    change (holding plat v).Triple _ _ _ (if 0 < (s.ctrl.stripeReq 0).length then
      (Prog.foldl (fun _ e => Prog.foldl (fun _ j => Prog.issue (.sliceFree (freeStripedReq stack 0 e j)))
        () (List.range e.sliceIdxs.length)) () (s.ctrl.stripeReq 0)).bind fun _ =>
          Prog.issue (.setStripeReq 0 []) else Prog.ret ()) _
    split
    · apply Triple.of_states
      rintro g ⟨hinv, rfl⟩
      have helems : ((holding plat v).view g).ctrl.stripeReq 0 = c.stripeReq 0 := by
        change g.rab.ctrl.stripeReq 0 = _
        rw [hinv.ctrl]
      rw [helems]
      apply Triple.bind (R := fun _ g => Freed plat p c P P g)
      · apply Triple.conseq (Triple.foldl
          (R := fun pre _ _ => Freed plat p c P (pre.flatMap StripeElem.sliceIdxs))
          (Q := fun r g => r = .ok () ∧ Freed plat p c P P g) (c.stripeReq 0) ?_ ?_ ()) ?_ ?_
        · intro pre e post _ hsplit
          have he : ∀ k ∈ e.sliceIdxs, k ∈ P := by
            intro k hk
            rw [hP, hsplit]
            exact List.mem_flatMap.mpr ⟨e, List.mem_append_right pre List.mem_cons_self, hk⟩
          apply (held_freeElem hc (hp hstripe) stack e he _).conseq (fun _ hg => hg)
          rintro r g ⟨rfl, hg⟩
          rw [← List.flatMap_singleton StripeElem.sliceIdxs e, ← List.flatMap_append] at hg
          exact hg
        · intro _ g hg
          rw [← hP] at hg
          exact ⟨rfl, hg⟩
        · rintro g' rfl
          exact Freed.nil hinv
        · rintro r g ⟨rfl, hg⟩
          exact hg
      · intro _
        apply Triple.issue
        · exact fun _ _ _ => trivial
        · rintro g' hg' -
          have hnone : P.filter (fun k => k ∉ P) = [] := by simp
          have hinv' := hg'.1
          rw [hnone] at hinv'
          refine ⟨_, ?_, held_setStripeReq (v := v) hinv' (List.flatMap_nil).symm 0, fun _ => ?_⟩
          · exact hc
          · simp
    · next hlen =>
      apply Triple.ret
      rintro g ⟨hinv, rfl⟩
      change ¬ 0 < (g.rab.ctrl.stripeReq 0).length at hlen
      rw [hinv.ctrl] at hlen
      refine ⟨c, hc, hP ▸ hinv, fun _ => List.length_eq_zero_iff.mp (by omega)⟩
  · next hstripe =>
    apply Triple.ret
    intro g hg
    exact ⟨c, hc, hP ▸ hg, fun h => absurd h hstripe⟩

private theorem held_free {task : TaskDesc} (hc : c.socMhIsEna = false) (stack : SliceReq)
    (hP : P = (c.stripeReq 0).flatMap StripeElem.sliceIdxs)
    (hown : task.nStatic ≠ 0 → Expired (freeDate task.id) (taskDateExp task.id) ∧
      ∀ u, p u → u = ⟨task.id, false⟩ ∨ ¬ Expired (freeDate task.id) u.dateExp)
    (hnone : task.nStatic = 0 → ¬ p ⟨task.id, false⟩)
    (hp : task.nStripe ≠ 0 → ∀ u, p u → u.striped = true → u.task = task.id) :
    (holding plat ⟨task.id, false⟩).Triple always
      (fun g call => g.Touches (fun u => u.task = task.id) call)
      (fun g => g.Inv plat p c P) (task.rabFree plat stack)
      fun _ g => ∃ c', c'.socMhIsEna = false ∧
        g.Inv plat (fun u => p u ∧ u ≠ ⟨task.id, false⟩) c'
          ((c'.stripeReq 0).flatMap StripeElem.sliceIdxs) ∧
        (task.nStripe ≠ 0 → c'.stripeReq 0 = []) := by
  apply Triple.andThen (R := fun g => g.Inv plat (fun u => p u ∧ u ≠ ⟨task.id, false⟩) c P)
  · apply (held_freeStatic hc stack hown hnone).conseq (fun _ h => h)
    rintro r g ⟨hinv, hclear⟩
    exact hinv.allow fun m k u hu =>
      ⟨hinv.allowed m k u hu, fun heq => hclear m k (heq ▸ hu)⟩
  · exact held_freeStriped hc stack hP fun hne u hu => hp hne u hu.1

end

/-- One of the tasks can hold slices as `u`. -/
def HeldFor (tasks : List TaskDesc) (u : Holder) : Prop :=
  ∃ t ∈ tasks, t.id = u.task ∧ (u.striped = true → t.nStripe ≠ 0) ∧ (u.striped = false → t.nStatic ≠ 0)

/-- Slices are held for outstanding tasks, of which one has striped elements at most. -/
structure World.Inv (plat : Platform) (w : World) : Prop where
  held : ∃ c : Control, c.socMhIsEna = false ∧
    w.held.Inv plat (HeldFor w.outstanding) c ((c.stripeReq 0).flatMap StripeElem.sliceIdxs)
  ids : ∀ t ∈ w.outstanding, t.id < w.nextId
  unique : ∀ t ∈ w.outstanding, ∀ t' ∈ w.outstanding, t.id = t'.id → t = t'
  one : ∀ t ∈ w.outstanding, ∀ t' ∈ w.outstanding, t.nStripe ≠ 0 → t'.nStripe ≠ 0 → t.id = t'.id

section

variable {plat : Platform} {w : World} {task : TaskDesc} {tasks : List TaskDesc} {date : Nat}

private theorem u8_le (n : Nat) : u8 n ≤ maxDate := by
  rw [u8, maxDate]
  omega

private theorem not_expired_striped {u : Holder} (hu : u.striped = true) (hdate : date ≤ maxDate) :
    ¬ Expired date u.dateExp := by
  rw [Holder.dateExp, if_pos hu]
  rintro (hgt | ⟨-, hmax⟩)
  · omega
  · cases hmax

private theorem Apart.heldFor (h : Apart date tasks) (hdate : date ≤ maxDate) {u : Holder}
    (hu : HeldFor tasks u) : ¬ Expired date u.dateExp := by
  obtain ⟨t, ht, hid, -, hstatic⟩ := hu
  cases hstriped : u.striped with
  | true => exact not_expired_striped hstriped hdate
  | false =>
    rw [Holder.dateExp, if_neg (by rw [hstriped]; exact Bool.false_ne_true), ← hid]
    exact h t ht (hstatic hstriped)

private theorem setupStriped_ok (h : (Offload.setup task).Distinct plat w) :
    (w.setupResult plat task).1 = .ok () := by
  by_cases hstripe : task.nStripe = 0
  · rw [World.setupResult, TaskDesc.setupStriped, if_neg (not_not.mpr hstripe)]
    rfl
  · exact (h.2.2 hstripe).2.2

private theorem World.Inv.setup (h : w.Inv plat) (hid : task.id = w.nextId)
    (hok : (Offload.setup task).Distinct plat w) :
    (Offload.setup task).KeepsHeld plat w ∧
      World.Inv plat ⟨(w.setupResult plat task).2, task :: w.outstanding, w.nextId + 1⟩ := by
  obtain ⟨c, hc, hinv⟩ := h.held
  obtain ⟨hunfixed, hstatic, hstripe⟩ := hok
  have hmem : ∀ m k u, w.held.holder m k = some u → HeldFor (task :: w.outstanding) u := by
    intro m k u hu
    obtain ⟨t, ht, hrest⟩ := hinv.allowed m k u hu
    exact ⟨t, List.mem_cons_of_mem task ht, hrest⟩
  have hself : task.nStatic ≠ 0 → HeldFor (task :: w.outstanding) ⟨task.id, false⟩ :=
    fun hne => ⟨task, List.mem_cons_self, rfl, Bool.noConfusion, fun _ => hne⟩
  have hself' : task.nStripe ≠ 0 → HeldFor (task :: w.outstanding) ⟨task.id, true⟩ :=
    fun hne => ⟨task, List.mem_cons_self, rfl, fun _ => hne, Bool.noConfusion⟩
  have hfirst := (held_setupStatic hunfixed fun hne =>
    ⟨hself hne, fun u hu => (hstatic hne).heldFor (u8_le _) hu⟩).run (hinv.allow hmem)
  have hnone : task.nStripe ≠ 0 → (c.stripeReq 0).flatMap StripeElem.sliceIdxs = [] := by
    intro hne
    rw [List.eq_nil_iff_forall_not_mem]
    intro k hk
    obtain ⟨u, hu, hstriped⟩ := hinv.striped k hk
    obtain ⟨t, ht, -, hcount, -⟩ := hinv.allowed 0 k u hu
    exact hcount hstriped ((hstripe hne).2.1 t ht)
  have hsecond := (held_setupStriped fun hne =>
    ⟨hself' hne, fun u hu => (hstripe hne).1.heldFor (by decide) hu⟩).run ⟨hfirst.2, hnone⟩
  refine ⟨fun _ => ⟨hfirst.1, hsecond.1⟩, ?_, ?_, ?_, ?_⟩
  · have hresult := hsecond.2 (setupStriped_ok ⟨hunfixed, hstatic, hstripe⟩)
    split at hresult
    · obtain ⟨elems, helems⟩ := hresult
      refine ⟨{ c with stripeReq := Function.update c.stripeReq 0 elems }, hc, ?_⟩
      change (w.setupResult plat task).2.Inv plat _ _
        ((Function.update c.stripeReq 0 elems 0).flatMap StripeElem.sliceIdxs)
      rw [Function.update_self]
      exact helems
    · exact ⟨c, hc, hresult⟩
  · intro t ht
    rcases List.mem_cons.mp ht with rfl | ht
    · exact hid ▸ Nat.lt_succ_self _
    · exact Nat.lt_succ_of_lt (h.ids t ht)
  · intro t ht t' ht' heq
    rcases List.mem_cons.mp ht with rfl | hold <;> rcases List.mem_cons.mp ht' with rfl | hold'
    · rfl
    · have := h.ids t' hold'
      omega
    · have := h.ids t hold
      omega
    · exact h.unique t hold t' hold' heq
  · intro t ht t' ht' hne hne'
    rcases List.mem_cons.mp ht with rfl | hold <;> rcases List.mem_cons.mp ht' with rfl | hold'
    · rfl
    · exact absurd ((hstripe hne).2.1 t' hold') hne'
    · exact absurd ((hstripe hne').2.1 t hold) hne
    · exact h.one t hold t' hold' hne hne'

private theorem World.Inv.free (h : w.Inv plat) {id : Nat} {stack : SliceReq}
    (hfind : w.find id = some task) (hok : (Offload.free id stack).Distinct plat w) :
    (Offload.free id stack).KeepsHeld plat w ∧ World.Inv plat
      ⟨w.afterFree plat task stack, w.outstanding.filter fun t => t.id ≠ id, w.nextId⟩ := by
  obtain ⟨c, hc, hinv⟩ := h.held
  have hmem : task ∈ w.outstanding := List.mem_of_find?_eq_some hfind
  obtain rfl : task.id = id := by simpa using List.find?_some hfind
  have hothers : ∀ t ∈ w.outstanding, t.id ≠ task.id →
      t ∈ w.outstanding.filter fun t => t.id ≠ task.id := by
    intro t ht hne
    exact List.mem_filter.mpr ⟨ht, by simpa using hne⟩
  have hown : task.nStatic ≠ 0 → Expired (freeDate task.id) (taskDateExp task.id) ∧
      ∀ u, HeldFor w.outstanding u → u = ⟨task.id, false⟩ ∨ ¬ Expired (freeDate task.id) u.dateExp := by
    intro hstatic
    obtain ⟨hexpired, hapart⟩ := hok task hfind hstatic
    refine ⟨hexpired, ?_⟩
    rintro ⟨id, striped⟩ ⟨t, ht, rfl, hcounts⟩
    by_cases heq : t.id = task.id
    · cases striped with
      | false => exact Or.inl (by rw [heq])
      | true => exact Or.inr (not_expired_striped rfl (u8_le _))
    · exact Or.inr (hapart.heldFor (u8_le _) ⟨t, hothers t ht heq, rfl, hcounts⟩)
  have hnone : task.nStatic = 0 → ¬ HeldFor w.outstanding ⟨task.id, false⟩ := by
    rintro hzero ⟨t, ht, hid, -, hstatic⟩
    rw [h.unique t ht task hmem hid] at hstatic
    exact hstatic rfl hzero
  have hstriped : task.nStripe ≠ 0 → ∀ u, HeldFor w.outstanding u → u.striped = true →
      u.task = task.id := by
    rintro hne u ⟨t, ht, hid, hcount, -⟩ hu
    rw [← hid]
    exact h.one t ht task hmem (hcount hu) hne
  obtain ⟨halong, c', hc', hinv', hempty⟩ := (held_free hc stack rfl hown hnone hstriped).run hinv
  have hleft : ∀ m k u, (w.afterFree plat task stack).holder m k = some u → u.task ≠ task.id := by
    intro m k u hu heq
    obtain ⟨⟨t, ht, hid, hcount, -⟩, hne⟩ := hinv'.allowed m k u hu
    have hu' : u.striped = true := by
      by_contra hno
      rw [Bool.not_eq_true] at hno
      exact hne (Holder.ext heq hno)
    have hmem' := (hinv'.listed m k u hu hu').2
    rw [h.unique t ht task hmem (hid.trans heq)] at hcount
    rw [hempty (hcount hu')] at hmem'
    cases hmem'
  refine ⟨?_, ⟨c', hc', hinv'.allow ?_⟩, ?_, ?_, ?_⟩
  · intro task' htask'
    cases hfind.symm.trans htask'
    exact ⟨halong, hleft⟩
  · intro m k u hu
    obtain ⟨⟨t, ht, hid, hcounts⟩, -⟩ := hinv'.allowed m k u hu
    exact ⟨t, hothers t ht (hid ▸ hleft m k u hu), hid, hcounts⟩
  · intro t ht
    exact h.ids t (List.mem_of_mem_filter ht)
  · intro t ht t' ht'
    exact h.unique t (List.mem_of_mem_filter ht) t' (List.mem_of_mem_filter ht')
  · intro t ht t' ht'
    exact h.one t (List.mem_of_mem_filter ht) t' (List.mem_of_mem_filter ht')

/-- Under its condition a step keeps what is held, and the invariant. -/
private theorem World.Inv.step (h : w.Inv plat) {step : Offload} (hok : step.Distinct plat w) :
    step.KeepsHeld plat w ∧ ∀ w' es, offload plat w step = some (w', es) → w'.Inv plat := by
  cases step with
  | setup task =>
    by_cases hid : task.id = w.nextId
    · obtain ⟨hkeeps, hinv⟩ := h.setup hid hok
      refine ⟨hkeeps, fun w' es hstep => ?_⟩
      have hresult := setupStriped_ok hok
      rw [offload, if_pos hid] at hstep
      rw [← Prod.mk.eta (p := w.setupResult plat task), hresult] at hstep
      cases hstep
      exact hinv
    · refine ⟨fun heq => absurd heq hid, fun w' es hstep => ?_⟩
      rw [offload, if_neg hid] at hstep
      cases hstep
  | free id stack =>
    cases hfind : w.find id with
    | none =>
      refine ⟨fun task htask => ?_, fun w' es hstep => ?_⟩
      · rw [hfind] at htask
        cases htask
      · rw [offload, hfind] at hstep
        cases hstep
    | some task =>
      obtain ⟨hkeeps, hinv⟩ := h.free hfind hok
      refine ⟨hkeeps, fun w' es hstep => ?_⟩
      rw [offload, hfind] at hstep
      cases hstep
      exact hinv

end

private theorem start_ctrl (plat : Platform) (stack : SliceReq) (id : Nat) :
    (World.start plat stack id).held.rab.ctrl = (RabState.reset plat).ctrl := by
  have hkeeps : ∀ (s : RabState) (c : Call), s.ctrl = (RabState.reset plat).ctrl → c.OnSlices →
      ((driver plat).step s c).ctrl = (RabState.reset plat).ctrl :=
    fun s c hs hc => hc.ctrl.trans hs
  exact exec_of_only (onSlices_rabSetup stack) hkeeps rfl

private theorem start_inv (plat : Platform) (stack : SliceReq) (id : Nat) :
    (World.start plat stack id).Inv plat := by
  refine ⟨⟨(RabState.reset plat).ctrl, rfl, start_ctrl plat stack id, ?_, ?_, ?_, ?_, ?_⟩, ?_, ?_, ?_⟩
  · intro m k u hu
    cases hu
  · intro m k u hu
    cases hu
  · intro m k u hu
    cases hu
  · intro m k u hu
    cases hu
  · intro k hk
    cases hk
  · intro t ht
    cases ht
  · intro t ht
    cases ht
  · intro t ht
    cases ht

/-- The slices of outstanding tasks are kept until their task is freed, and then released, in every
run in which the dates of the tasks that are outstanding at the same time are apart. -/
theorem offload_keeps_held (plat : Platform) (stack : SliceReq) (id : Nat) (steps : List Offload)
    (hok : Machine.Along (offload plat) (fun w s => s.Distinct plat w) (World.start plat stack id)
      steps) :
    Machine.Along (offload plat) (fun w s => s.KeepsHeld plat w) (World.start plat stack id) steps := by
  exact Machine.along_of_inv (fun w step hw hstep => hw.step hstep) (start_inv plat stack id) hok

/-- A task with one page that is mapped at offload time. -/
def pageTask (id : Nat) : TaskDesc where
  id := id
  data := [⟨0x10000 * (id + 1), 0x1000, .inout, .svmStatic, 0, 0⟩]
  reqStack := fun _ => .blank
  users := fun _ => ⟨true, 1, fun _ => id⟩
  elem := fun _ => (⟨0, .inout, 0, 0, 0, fun _ => 0, fun _ => 0⟩, noPages)
  stripedStack := .blank

/-- Two tasks one after the other, at the wrap-around of the dates. -/
theorem offload_keeps_held_inOrder : Machine.Along (offload .zedboard)
    (fun w s => s.KeepsHeld .zedboard w) (World.start .zedboard .blank 255)
    [.setup (pageTask 255), .free 255 .blank, .setup (pageTask 256), .free 256 .blank] :=
  offload_keeps_held .zedboard .blank 255 _ (by decide +kernel)

/-- Freeing task 0 releases the slices of task 1, which is outstanding. -/
theorem offload_frees_other : ¬ Machine.Along (offload .zedboard)
    (fun w s => s.KeepsHeld .zedboard w) (World.start .zedboard .blank 0)
    ([.setup (pageTask 0), .setup (pageTask 1)] ++ [.free 0 .blank]) := by
  intro h
  have hcheck : (Machine.run (offload .zedboard) (World.start .zedboard .blank 0)
      [.setup (pageTask 0), .setup (pageTask 1)]).map (fun x => decide (∀ t ∈ x.1.find 0,
        (holding .zedboard ⟨0, false⟩).Along (fun g c => g.Touches (fun u => u.task = 0) c)
          (t.rabFree .zedboard .blank) x.1.held)) = some false := by decide +kernel
  obtain ⟨⟨w, es⟩, hrun, hfalse⟩ := Option.map_eq_some_iff.mp hcheck
  exact of_decide_eq_false hfalse fun t ht => (h.at hrun t ht).1

end Hero.Rab
