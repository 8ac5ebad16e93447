import Hero.Driver.Rab.StripedRequest
import Mathlib.Data.Nat.Bitwise
import Mathlib.Tactic.SplitIfs

/-!
# Multi-buffering of striped transfers

Update and switch requests move the stripes of an element through its sets of slices.  A ghost
records for each element which set was written last, and which stripe the last update installed.
-/

namespace Hero.Rab

open Driver Flags

/-- The mask that selects a set of slices: stripes 0, 4, 8 go to set 0 of an element that is input
and output; other elements alternate. -/
def ElemType.idxMask : ElemType → Nat
  | .inout => 3
  | .input | .output => 1

/-- The stripe index `pulp_rab_switch` goes back to. -/
def ElemType.resetStripeIdx : ElemType → Nat
  | .output => 0
  | .inout | .input => 1

namespace StripeElem

variable (e : StripeElem)

/-- The set of slices selected for the next stripe. -/
def setSel : Nat := (e.stripeIdx + e.setOffset) &&& e.type.idxMask

def slot (set j : Nat) : Nat := e.sliceIdxs.getD (set * e.nSlicesPerStripe + j) 0

/-- The set offset after a wrap-around. -/
def wrapOffset : Nat := match e.type with
  | .inout =>
    if e.nStripes &&& 3 ≠ 0 then (e.setOffset + (e.nStripes &&& 3)) &&& 3 else e.setOffset
  | .input | .output =>
    if e.nStripes &&& 1 ≠ 0 then (if e.setOffset ≠ 0 then 0 else 1) else e.setOffset

/-- The counters after an update. -/
def advance : StripeElem :=
  if e.stripeIdx + 1 = e.nStripes then { e with stripeIdx := 0, setOffset := e.wrapOffset }
  else { e with stripeIdx := e.stripeIdx + 1 }

def reset : StripeElem := { e with stripeIdx := e.type.resetStripeIdx }

end StripeElem

namespace RabState

variable (s : RabState)

/-- Deactivate a hardware slice and set up the new translation, if there is one. -/
def updateSlice (k : Nat) (flagsHw : Flags) (config : Option StripeSlice) : RabState :=
  let s := s.setHwFlags .port1 k 0#8
  match config with
  | some sl => s.setHw .port1 k
      ⟨sl.addrStart / pageSize, sl.addrEnd / pageSize, sl.addrOffset / pageSize, flagsHw⟩
  | none => s

/-- The loop over the slices of the selected set, for its first `n` slices. -/
def installSlices (e : StripeElem) (st : Stripe) (n : Nat) : RabState :=
  (List.range n).foldl
    (fun s j => s.updateSlice (e.slot e.setSel j) e.flagsHw st.sliceConfigs[j]?) s

/-- The loop over the elements, from element `i` on; `none` if it reads outside a stripe table. -/
def updateElems (elemMask : Nat) (s : RabState) : Nat → List StripeElem →
    Option (RabState × List StripeElem)
  | _, [] => some (s, [])
  | i, e :: es =>
    if elemMask.testBit i then do
      let st ← e.stripes[e.stripeIdx]?
      let (s, es) ← updateElems elemMask (s.installSlices e st e.nSlicesPerStripe) (i + 1) es
      return (s, e.advance :: es)
    else do
      let (s, es) ← updateElems elemMask s (i + 1) es
      return (s, e :: es)

def setElems (m : Nat) (elems : List StripeElem) : RabState :=
  { s with ctrl := { s.ctrl with stripeReq := Function.update s.ctrl.stripeReq m elems } }

/-- `pulp_rab_update` -/
def rabUpdate (elemMask : Nat) : Option RabState := do
  let m := s.mappingGetActive
  let (s, elems) ← s.updateElems elemMask 0 (s.ctrl.stripeReq m)
  return s.setElems m elems

/-- The mapping `pulp_rab_switch` switches to. -/
def switchTarget : Nat := if s.mappingGetActive ≠ 0 then 0 else 1

/-- `pulp_rab_switch` -/
def rabSwitch (plat : Platform) : RabState :=
  let m := s.switchTarget
  let s := s.mappingSwitch plat.nSlicesPort1 m
  s.setElems m ((s.ctrl.stripeReq m).map StripeElem.reset)

end RabState

inductive StripeCall where
  | update (elemMask : Nat)
  | switch
  deriving DecidableEq, Repr

/-- The set an element was last installed in, and the stripe its last update since a switch
installed. -/
structure LastInstall where
  set : Nat
  stripe : Option Nat
  deriving DecidableEq, Repr

structure Buffers where
  rab : RabState
  last : Nat → Nat → LastInstall

namespace Buffers

variable (t : Buffers)

def elems (m : Nat) : List StripeElem := t.rab.ctrl.stripeReq m

def active : Nat := t.rab.mappingGetActive

/-- After a striped request every first stripe is in set 0. -/
def start (s : RabState) : Buffers := ⟨s, fun _ _ => ⟨0, none⟩⟩

def lastAfter (elemMask m i : Nat) : LastInstall :=
  match (t.elems m)[i]? with
  | some e =>
    if m = t.active ∧ elemMask.testBit i then ⟨e.setSel, some e.stripeIdx⟩ else t.last m i
  | none => t.last m i

/-- A read outside a stripe table stops the run. -/
def step (plat : Platform) : StripeCall → Buffers
  | .update elemMask => match t.rab.rabUpdate elemMask with
    | some s => ⟨s, t.lastAfter elemMask⟩
    | none => t
  | .switch =>
    ⟨t.rab.rabSwitch plat, fun m i => if m = t.rab.switchTarget then ⟨0, none⟩ else t.last m i⟩

end Buffers

def buffering (plat : Platform) : Interp RabState StripeCall Buffers :=
  ⟨Buffers.rab, fun t c => t.step plat c⟩

abbrev stripeProg (calls : List StripeCall) : Prog RabState StripeCall Err Unit :=
  Prog.session (calls.map Prog.issue)

/-- The hardware slices of a set translate a stripe. -/
def Holds (s : RabState) (e : StripeElem) (set : Nat) (st : Stripe) : Prop :=
  ∀ j < e.nSlicesPerStripe, ∀ sl, st.sliceConfigs[j]? = some sl → e.flagsHw.has hwEn →
    s.hw .port1 (e.slot set j) =
      ⟨sl.addrStart / pageSize, sl.addrEnd / pageSize, sl.addrOffset / pageSize, e.flagsHw⟩

/-- The set selected for the next stripe is not the one written last. -/
def Buffers.NextFree (t : Buffers) : Prop :=
  ∀ i e, (t.elems t.active)[i]? = some e → e.setSel ≠ (t.last t.active i).set

/-- What an update does with element `i`, from `t` to the state `s` of the RAB. -/
structure Updated (t : Buffers) (s : RabState) (elemMask i : Nat) (e : StripeElem) : Prop where
  in_table : elemMask.testBit i → e.stripeIdx < e.nStripes
  consecutive : elemMask.testBit i → ∀ p, (t.last t.active i).stripe = some p →
    e.stripeIdx = (p + 1) % e.nStripes
  other_set : elemMask.testBit i → e.setSel ≠ (t.last t.active i).set
  installed : elemMask.testBit i → ∀ st, e.stripes[e.stripeIdx]? = some st → Holds s e e.setSel st
  kept : ∀ j < e.nSlicesPerStripe, s.hw .port1 (e.slot (t.last t.active i).set j) =
    t.rab.hw .port1 (e.slot (t.last t.active i).set j)

/-- An update reads stripes in the table only, installs consecutive stripes, each in another set
than the last one, and leaves the stripe installed last as it is, as PULP may work on it.  A switch
puts the first stripes back into set 0.  After either, the next set is free. -/
def StripeCall.Buffered (plat : Platform) (t : Buffers) (c : StripeCall) : Prop :=
  (t.step plat c).NextFree ∧ match c with
    | .update elemMask => ∃ s, t.rab.rabUpdate elemMask = some s ∧
        ∀ i e, (t.elems t.active)[i]? = some e → Updated t s elemMask i e
    | .switch => ∀ e ∈ (t.step plat .switch).elems (t.step plat .switch).active,
        ∀ st, e.stripes[0]? = some st → Holds (t.step plat .switch).rab e 0 st

/-- The set offset with which the stripe index after a switch selects set 0. -/
def ElemType.clash : ElemType → Nat
  | .inout => 3
  | .input => 1
  | .output => 0

/-- Every updated element has a second stripe or starts over with the first one; no element of the
mapping that is switched to has the offset that selects set 0 again. -/
def StripeCall.KeepsBuffered (t : Buffers) : StripeCall → Prop
  | .update elemMask => ∀ i e, (t.elems t.active)[i]? = some e → elemMask.testBit i →
      2 ≤ e.nStripes ∨ e.stripeIdx = 0
  | .switch => ∀ e ∈ t.elems t.rab.switchTarget, e.setOffset ≠ e.type.clash

namespace StripeElem

variable {e : StripeElem}

theorem idxMask_eq (x : Nat) (ty : ElemType) : x &&& ty.idxMask = x % ty.nSets := by
  cases ty
  · exact Nat.and_two_pow_sub_one_eq_mod x 2
  · exact Nat.and_two_pow_sub_one_eq_mod x 1
  · exact Nat.and_two_pow_sub_one_eq_mod x 1

theorem setSel_eq : e.setSel = (e.stripeIdx + e.setOffset) % e.type.nSets := idxMask_eq _ _

theorem nSets_cases : e.type.nSets = 2 ∨ e.type.nSets = 4 := by
  cases e.type <;> simp [ElemType.nSets]

theorem nSets_pos : 0 < e.type.nSets := by
  rcases e.nSets_cases with h | h <;> omega

theorem setSel_lt : e.setSel < e.type.nSets := by
  rw [setSel_eq]
  exact Nat.mod_lt _ e.nSets_pos

theorem wrapOffset_eq (h : e.setOffset < e.type.nSets) :
    e.wrapOffset = (e.setOffset + e.nStripes) % e.type.nSets := by
  have h3 : e.nStripes &&& 3 = e.nStripes % 4 := Nat.and_two_pow_sub_one_eq_mod _ 2
  have h1 : e.nStripes &&& 1 = e.nStripes % 2 := Nat.and_two_pow_sub_one_eq_mod _ 1
  cases hty : e.type with
  | inout =>
    have h3' : (e.setOffset + e.nStripes % 4) &&& 3 = (e.setOffset + e.nStripes % 4) % 4 :=
      Nat.and_two_pow_sub_one_eq_mod _ 2
    rw [hty] at h
    simp only [wrapOffset, hty, h3, h3', ElemType.nSets] at h ⊢
    split <;> omega
  | input =>
    rw [hty] at h
    simp only [wrapOffset, hty, h1, ElemType.nSets] at h ⊢
    split_ifs <;> omega
  | output =>
    rw [hty] at h
    simp only [wrapOffset, hty, h1, ElemType.nSets] at h ⊢
    split_ifs <;> omega

/-- What an update leaves as it is. -/
structure SameTable (e e' : StripeElem) : Prop where
  type : e'.type = e.type
  nSlicesPerStripe : e'.nSlicesPerStripe = e.nSlicesPerStripe
  sliceIdxs : e'.sliceIdxs = e.sliceIdxs
  nStripes : e'.nStripes = e.nStripes
  stripes : e'.stripes = e.stripes
  flagsHw : e'.flagsHw = e.flagsHw

theorem sameTable_advance (e : StripeElem) : e.SameTable e.advance := by
  unfold advance
  split <;> exact ⟨rfl, rfl, rfl, rfl, rfl, rfl⟩

theorem sameTable_reset (e : StripeElem) : e.SameTable e.reset := ⟨rfl, rfl, rfl, rfl, rfl, rfl⟩

theorem SameTable.installed {e' : StripeElem} {plat : Platform} {s : RabState} {m : Nat}
    (h : e.SameTable e') (he : e.Installed plat s m) : e'.Installed plat s m := by
  refine ⟨?_, ?_, ?_, ?_, ?_, ?_⟩
  · rw [h.nStripes, h.stripes, he.nStripes]
  · rw [h.nStripes]
    exact he.pos
  · rw [h.sliceIdxs, h.type, h.nSlicesPerStripe, he.length]
  · rw [h.sliceIdxs]
    exact he.bound
  · rw [h.sliceIdxs]
    exact he.locked
  · rw [h.sliceIdxs, h.stripes, h.flagsHw]
    exact he.first

/-- After the last stripe the offset moves the sets on, as the stripe index starts over. -/
theorem advance_setSel (hoff : e.setOffset < e.type.nSets) :
    e.advance.setSel = (e.setSel + 1) % e.type.nSets := by
  rw [setSel_eq, setSel_eq, (sameTable_advance e).type]
  unfold advance
  split
  · next hlast =>
    change (0 + e.wrapOffset) % _ = _
    rw [wrapOffset_eq hoff]
    rcases e.nSets_cases with h | h <;> rw [h] at hoff ⊢ <;> omega
  · change (e.stripeIdx + 1 + e.setOffset) % _ = _
    rcases e.nSets_cases with h | h <;> rw [h] at hoff ⊢ <;> omega

theorem advance_setSel_ne (hoff : e.setOffset < e.type.nSets) : e.advance.setSel ≠ e.setSel := by
  rw [advance_setSel hoff]
  have hlt := e.setSel_lt
  rcases e.nSets_cases with h | h <;> rw [h] at hlt ⊢ <;> omega

theorem advance_setOffset (hoff : e.setOffset < e.type.nSets) :
    e.advance.setOffset < e.advance.type.nSets := by
  rw [(sameTable_advance e).type]
  unfold advance
  split
  · change e.wrapOffset < _
    rw [wrapOffset_eq hoff]
    exact Nat.mod_lt _ e.nSets_pos
  · exact hoff

theorem advance_stripeIdx (hidx : e.stripeIdx < e.nStripes) :
    e.advance.stripeIdx = (e.stripeIdx + 1) % e.nStripes := by
  unfold advance
  split
  · next hlast => rw [hlast, Nat.mod_self]
  · next hlast =>
    rw [Nat.mod_eq_of_lt (by omega)]

/-- A reset selects set 0 exactly with the clashing offset. -/
theorem reset_setSel (hoff : e.setOffset < e.type.nSets) :
    e.reset.setSel ≠ 0 ↔ e.setOffset ≠ e.type.clash := by
  rw [setSel_eq]
  change (e.type.resetStripeIdx + e.setOffset) % e.type.nSets ≠ 0 ↔ _
  cases hty : e.type <;> rw [hty] at hoff <;>
    simp only [ElemType.resetStripeIdx, ElemType.nSets, ElemType.clash] at hoff ⊢ <;> omega

/-- The slices of an element, by set. -/
theorem getElem?_slot (hlen : e.sliceIdxs.length = e.type.nSets * e.nSlicesPerStripe) {set j : Nat}
    (hset : set < e.type.nSets) (hj : j < e.nSlicesPerStripe) :
    e.sliceIdxs[set * e.nSlicesPerStripe + j]? = some (e.slot set j) := by
  have hlt : set * e.nSlicesPerStripe + j < e.sliceIdxs.length := by
    have hmul := Nat.mul_le_mul_right e.nSlicesPerStripe (Nat.succ_le_of_lt hset)
    rw [Nat.succ_mul] at hmul
    omega
  rw [slot, List.getD_eq_getElem?_getD, List.getElem?_eq_getElem hlt]
  rfl

theorem slot_mem (hlen : e.sliceIdxs.length = e.type.nSets * e.nSlicesPerStripe) {set j : Nat}
    (hset : set < e.type.nSets) (hj : j < e.nSlicesPerStripe) : e.slot set j ∈ e.sliceIdxs :=
  List.mem_of_getElem? (getElem?_slot hlen hset hj)

/-- The sets of an element are disjoint. -/
theorem slot_inj (hlen : e.sliceIdxs.length = e.type.nSets * e.nSlicesPerStripe)
    (hnodup : e.sliceIdxs.Nodup) {set set' j j' : Nat} (hset : set < e.type.nSets)
    (hset' : set' < e.type.nSets) (hj : j < e.nSlicesPerStripe) (hj' : j' < e.nSlicesPerStripe)
    (h : e.slot set j = e.slot set' j') : set = set' ∧ j = j' := by
  obtain ⟨hlt, hget⟩ := List.getElem?_eq_some_iff.mp (getElem?_slot hlen hset hj)
  obtain ⟨hlt', hget'⟩ := List.getElem?_eq_some_iff.mp (getElem?_slot hlen hset' hj')
  have hvals : e.sliceIdxs[set * e.nSlicesPerStripe + j] =
      e.sliceIdxs[set' * e.nSlicesPerStripe + j'] := by
    rw [hget, hget', h]
  have hidx := hnodup.getElem_inj_iff.mp hvals
  have hdiv : ∀ a b, b < e.nSlicesPerStripe → (a * e.nSlicesPerStripe + b) / e.nSlicesPerStripe = a := by
    intro a b hb
    rw [Nat.mul_comm, Nat.mul_add_div (by omega), Nat.div_eq_of_lt hb, Nat.add_zero]
  have hsets : set = set' := by
    rw [← hdiv set j hj, hidx, hdiv set' j' hj']
  subst hsets
  exact ⟨rfl, by omega⟩

end StripeElem

namespace RabState

variable {s s' : RabState} {e : StripeElem} {st : Stripe} {n k : Nat} {elemMask : Nat}

theorem updateSlice_frame (s : RabState) (k : Nat) (flagsHw : Flags) (config : Option StripeSlice) :
    (s.updateSlice k flagsHw config).l1 = s.l1 ∧ (s.updateSlice k flagsHw config).ctrl = s.ctrl := by
  unfold updateSlice
  cases config <;> exact ⟨rfl, rfl⟩

theorem updateSlice_hw_ne {k k' : Nat} (h : k' ≠ k) (flagsHw : Flags) (config : Option StripeSlice) :
    (s.updateSlice k flagsHw config).hw .port1 k' = s.hw .port1 k' := by
  unfold updateSlice
  cases config <;> simp [h]

theorem updateSlice_hw (flagsHw : Flags) (sl : StripeSlice) :
    (s.updateSlice k flagsHw (some sl)).hw .port1 k =
      ⟨sl.addrStart / pageSize, sl.addrEnd / pageSize, sl.addrOffset / pageSize, flagsHw⟩ := by
  simp [updateSlice]

theorem installSlices_succ : s.installSlices e st (n + 1) =
    (s.installSlices e st n).updateSlice (e.slot e.setSel n) e.flagsHw st.sliceConfigs[n]? := by
  rw [installSlices, List.range_succ, List.foldl_append]
  rfl

theorem installSlices_frame (s : RabState) (e : StripeElem) (st : Stripe) (n : Nat) :
    (s.installSlices e st n).l1 = s.l1 ∧ (s.installSlices e st n).ctrl = s.ctrl := by
  induction n with
  | zero => exact ⟨rfl, rfl⟩
  | succ n ih =>
    have hframe := (s.installSlices e st n).updateSlice_frame (e.slot e.setSel n) e.flagsHw
      st.sliceConfigs[n]?
    rw [installSlices_succ, hframe.1, hframe.2]
    exact ih

theorem installSlices_hw_ne (h : ∀ j < n, k ≠ e.slot e.setSel j) :
    (s.installSlices e st n).hw .port1 k = s.hw .port1 k := by
  induction n with
  | zero => rfl
  | succ n ih =>
    rw [installSlices_succ, updateSlice_hw_ne (h n (Nat.lt_succ_self n))]
    exact ih fun j hj => h j (Nat.lt_succ_of_lt hj)

theorem installSlices_hw (hinj : ∀ j j', j < n → j' < n →
      e.slot e.setSel j = e.slot e.setSel j' → j = j') {j : Nat} (hj : j < n) {sl : StripeSlice}
    (hsl : st.sliceConfigs[j]? = some sl) :
    (s.installSlices e st n).hw .port1 (e.slot e.setSel j) =
      ⟨sl.addrStart / pageSize, sl.addrEnd / pageSize, sl.addrOffset / pageSize, e.flagsHw⟩ := by
  induction n with
  | zero => omega
  | succ n ih =>
    rw [installSlices_succ]
    by_cases hjn : j = n
    · subst hjn
      rw [hsl, updateSlice_hw]
    · have hne : e.slot e.setSel j ≠ e.slot e.setSel n :=
        fun heq => hjn (hinj j n hj (Nat.lt_succ_self n) heq)
      rw [updateSlice_hw_ne hne]
      exact ih (fun a b ha hb => hinj a b (by omega) (by omega)) (by omega)

/-- The slices an update writes for the elements from element `i` on. -/
def Written (elemMask i : Nat) (es : List StripeElem) (k : Nat) : Prop :=
  ∃ j e, es[j]? = some e ∧ elemMask.testBit (i + j) ∧
    ∃ j' < e.nSlicesPerStripe, k = e.slot e.setSel j'

theorem Written.tail {i : Nat} {es : List StripeElem} (h : Written elemMask (i + 1) es k) :
    Written elemMask i (e :: es) k := by
  obtain ⟨j, e', he', hbit, hk⟩ := h
  refine ⟨j + 1, e', he', ?_, hk⟩
  rwa [Nat.add_right_comm, Nat.add_assoc] at hbit

theorem updateElems_isSome {i : Nat} {es : List StripeElem} :
    (updateElems elemMask s i es).isSome ↔ ∀ j e, es[j]? = some e → elemMask.testBit (i + j) →
      e.stripeIdx < e.stripes.length := by
  induction es generalizing s i with
  | nil => simp [updateElems]
  | cons e es ih =>
    have htail : (∀ j e', (e :: es)[j]? = some e' → elemMask.testBit (i + j) →
        e'.stripeIdx < e'.stripes.length) ↔
        (elemMask.testBit i → e.stripeIdx < e.stripes.length) ∧
          ∀ j e', es[j]? = some e' → elemMask.testBit (i + 1 + j) →
            e'.stripeIdx < e'.stripes.length := by
      constructor
      · intro h
        refine ⟨h 0 e rfl, ?_⟩
        intro j e' he' hbit
        exact h (j + 1) e' he' (by rwa [← Nat.add_assoc, Nat.add_right_comm])
      · intro h j e' he' hbit
        cases j with
        | zero =>
          cases he'
          exact h.1 hbit
        | succ j =>
          exact h.2 j e' he' (by rwa [Nat.add_right_comm, Nat.add_assoc])
    rw [htail]
    by_cases hbit : elemMask.testBit i
    · by_cases hidx : e.stripeIdx < e.stripes.length
      · have hst : e.stripes[e.stripeIdx]? = some e.stripes[e.stripeIdx] :=
          List.getElem?_eq_getElem hidx
        rw [← ih (s := s.installSlices e e.stripes[e.stripeIdx] e.nSlicesPerStripe)]
        cases hu : updateElems elemMask
          (s.installSlices e e.stripes[e.stripeIdx] e.nSlicesPerStripe) (i + 1) es <;>
          simp [updateElems, hbit, hidx, hu]
      · simp [updateElems, hbit, hidx]
    · rw [← ih (s := s)]
      cases hu : updateElems elemMask s (i + 1) es <;> simp [updateElems, hbit, hu]

/-- An update writes the selected slices and advances the selected elements. -/
theorem updateElems_spec {i : Nat} {es es' : List StripeElem}
    (h : updateElems elemMask s i es = some (s', es')) :
    s'.l1 = s.l1 ∧ s'.ctrl = s.ctrl ∧
      (∀ j, es'[j]? = es[j]?.map fun e => if elemMask.testBit (i + j) then e.advance else e) ∧
      ∀ k, ¬ Written elemMask i es k → s'.hw .port1 k = s.hw .port1 k := by
  induction es generalizing s i es' with
  | nil =>
    cases h
    exact ⟨rfl, rfl, fun _ => rfl, fun _ _ => rfl⟩
  | cons e es ih =>
    have hnext : ∀ {e' : StripeElem} {es'' : List StripeElem},
        (e' = if elemMask.testBit i then e.advance else e) →
        (∀ j, es''[j]? = es[j]?.map fun e => if elemMask.testBit (i + 1 + j) then e.advance else e) →
        ∀ j, (e' :: es'')[j]? =
          (e :: es)[j]?.map fun e => if elemMask.testBit (i + j) then e.advance else e := by
      intro e' es'' he' hes j
      cases j with
      | zero => rw [he']; rfl
      | succ j =>
        rw [List.getElem?_cons_succ, List.getElem?_cons_succ, hes, Nat.add_right_comm, Nat.add_assoc]
    by_cases hbit : elemMask.testBit i
    · simp only [updateElems, hbit, if_true, Option.bind_eq_bind, Option.bind_eq_some_iff,
        Prod.exists] at h
      obtain ⟨st, hst, u, es'', hu, heq⟩ := h
      cases heq
      obtain ⟨hl1, hctrl, hes, hhw⟩ := ih hu
      have hframe := s.installSlices_frame e st e.nSlicesPerStripe
      refine ⟨hl1.trans hframe.1, hctrl.trans hframe.2, hnext (by rw [if_pos hbit]) hes, ?_⟩
      intro k hk
      rw [hhw k fun hw => hk hw.tail]
      apply installSlices_hw_ne
      intro j hj heq
      exact hk ⟨0, e, rfl, hbit, j, hj, heq⟩
    · simp only [updateElems, hbit, if_false, Option.bind_eq_bind, Option.bind_eq_some_iff,
        Prod.exists, Bool.false_eq_true] at h
      obtain ⟨u, es'', hu, heq⟩ := h
      cases heq
      obtain ⟨hl1, hctrl, hes, hhw⟩ := ih hu
      exact ⟨hl1, hctrl, hnext (by rw [if_neg hbit]) hes, fun k hk => hhw k fun hw => hk hw.tail⟩

/-- Every selected element gets its stripe. -/
theorem updateElems_holds {i : Nat} {es es' : List StripeElem}
    (h : updateElems elemMask s i es = some (s', es'))
    (hlen : ∀ e ∈ es, e.sliceIdxs.length = e.type.nSets * e.nSlicesPerStripe)
    (hnodup : (es.flatMap StripeElem.sliceIdxs).Nodup) {j : Nat} (he : es[j]? = some e)
    (hbit : elemMask.testBit (i + j)) (hst : e.stripes[e.stripeIdx]? = some st) :
    Holds s' e e.setSel st := by
  induction es generalizing s i j es' with
  | nil => cases he
  | cons e0 es ih =>
    rw [List.flatMap_cons, List.nodup_append] at hnodup
    have htail := fun e he => hlen e (List.mem_cons_of_mem e0 he)
    cases j with
    | succ j =>
      rw [← Nat.add_assoc, Nat.add_right_comm] at hbit
      by_cases hbit0 : elemMask.testBit i
      · simp only [updateElems, hbit0, if_true, Option.bind_eq_bind, Option.bind_eq_some_iff,
          Prod.exists] at h
        obtain ⟨st0, hst0, u, es'', hu, heq⟩ := h
        cases heq
        exact ih hu htail hnodup.2.1 he hbit
      · simp only [updateElems, hbit0, if_false, Option.bind_eq_bind, Option.bind_eq_some_iff,
          Prod.exists, Bool.false_eq_true] at h
        obtain ⟨u, es'', hu, heq⟩ := h
        cases heq
        exact ih hu htail hnodup.2.1 he hbit
    | zero =>
      cases he
      have hlene := hlen e List.mem_cons_self
      simp only [updateElems, show elemMask.testBit i = true from hbit, if_true, hst,
        Option.bind_eq_bind, Option.bind_some, Option.bind_eq_some_iff, Prod.exists] at h
      obtain ⟨u, es'', hu, heq⟩ := h
      cases heq
      intro j hj sl hsl _
      rw [(updateElems_spec hu).2.2.2]
      · apply installSlices_hw ?_ hj hsl
        intro a b ha hb hab
        exact (StripeElem.slot_inj hlene hnodup.1 e.setSel_lt e.setSel_lt ha hb hab).2
      · intro hw
        obtain ⟨j', e', he', _, j'', hj'', hk⟩ := hw
        have hmem' := List.mem_of_getElem? he'
        exact hnodup.2.2 _ (StripeElem.slot_mem hlene e.setSel_lt hj) _
          (List.mem_flatMap.mpr ⟨e', hmem', StripeElem.slot_mem (htail e' hmem') e'.setSel_lt hj''⟩) hk

end RabState

/-- What every element keeps to, with the set and the stripe installed last. -/
structure StripeElem.Inv (plat : Platform) (s : RabState) (m : Nat) (e : StripeElem)
    (last : LastInstall) : Prop where
  installed : e.Installed plat s m
  offset : e.setOffset < e.type.nSets
  idx : e.stripeIdx < e.nStripes ∨ e.nStripes = 1 ∧ e.stripeIdx = 1
  follow : ∀ p, last.stripe = some p → e.stripeIdx = (p + 1) % e.nStripes
  lastSet : last.set < e.type.nSets

namespace StripeElem.Inv

variable {plat : Platform} {s s' : RabState} {m : Nat} {e : StripeElem} {last : LastInstall}

theorem of_slice (h : e.Inv plat s m last) (hs : ∀ m k, s'.slice m k = s.slice m k) :
    e.Inv plat s' m last :=
  ⟨h.installed.keeps fun m k _ => hs m k, h.offset, h.idx, h.follow, h.lastSet⟩

theorem advance (h : e.Inv plat s m last) (hidx : e.stripeIdx < e.nStripes) :
    e.advance.Inv plat s m ⟨e.setSel, some e.stripeIdx⟩ := by
  have hsame := e.sameTable_advance
  refine ⟨hsame.installed h.installed, advance_setOffset h.offset, .inl ?_, ?_, ?_⟩
  · rw [advance_stripeIdx hidx, hsame.nStripes]
    exact Nat.mod_lt _ (by omega)
  · intro p hp
    cases hp
    rw [advance_stripeIdx hidx, hsame.nStripes]
  · rw [hsame.type]
    exact e.setSel_lt

theorem reset (h : e.Inv plat s m last) : e.reset.Inv plat s m ⟨0, none⟩ := by
  refine ⟨e.sameTable_reset.installed h.installed, h.offset, ?_, ?_, e.nSets_pos⟩
  · have hpos := h.installed.pos
    have hreset : e.type.resetStripeIdx = 0 ∨ e.type.resetStripeIdx = 1 := by
      cases e.type <;> simp [ElemType.resetStripeIdx]
    change e.type.resetStripeIdx < e.nStripes ∨ e.nStripes = 1 ∧ e.type.resetStripeIdx = 1
    omega
  · intro p hp
    cases hp

/-- The stripe index is in the table exactly if there is a second stripe or it is the first. -/
theorem in_table_iff (h : e.Inv plat s m last) :
    e.stripeIdx < e.nStripes ↔ 2 ≤ e.nStripes ∨ e.stripeIdx = 0 := by
  have hpos := h.installed.pos
  have hidx := h.idx
  omega

end StripeElem.Inv

structure Buffers.Inv (plat : Platform) (t : Buffers) : Prop where
  elems : ∀ (m i : Nat) (e : StripeElem), (t.elems m)[i]? = some e →
    e.Inv plat t.rab m (t.last m i)
  nodup : ∀ m, ((t.elems m).flatMap StripeElem.sliceIdxs).Nodup
  nextFree : t.NextFree

section

variable {plat : Platform} {t : Buffers} {s : RabState} {elemMask : Nat}

theorem RabState.rabUpdate_eq_some {s s' : RabState} : s.rabUpdate elemMask = some s' ↔
    ∃ u es, updateElems elemMask s 0 (s.ctrl.stripeReq s.mappingGetActive) = some (u, es) ∧
      u.setElems s.mappingGetActive es = s' := by
  simp only [rabUpdate, Option.bind_eq_bind, Option.bind_eq_some_iff, Prod.exists, Option.pure_def,
    Option.some.injEq]

/-- What an update changes. -/
private theorem rabUpdate_spec (h : t.rab.rabUpdate elemMask = some s) :
    s.l1 = t.rab.l1 ∧
      (∀ m i, (s.ctrl.stripeReq m)[i]? = (t.elems m)[i]?.map fun e =>
        if m = t.active ∧ elemMask.testBit i then e.advance else e) ∧
      ∀ k, ¬ RabState.Written elemMask 0 (t.elems t.active) k → s.hw .port1 k = t.rab.hw .port1 k := by
  obtain ⟨u, es, hu, rfl⟩ := RabState.rabUpdate_eq_some.mp h
  obtain ⟨hl1, hctrl, hes, hhw⟩ := RabState.updateElems_spec hu
  refine ⟨hl1, ?_, hhw⟩
  intro m i
  change (Function.update u.ctrl.stripeReq t.active es m)[i]? = _
  by_cases hm : m = t.active
  · subst hm
    rw [Function.update_self, hes, Nat.zero_add]
    simp only [true_and]
    rfl
  · rw [Function.update_of_ne hm, hctrl]
    simp only [hm, false_and, if_false, Option.map_id']
    rfl

private theorem step_update (h : t.rab.rabUpdate elemMask = some s) :
    t.step plat (.update elemMask) = ⟨s, t.lastAfter elemMask⟩ := by
  simp [Buffers.step, h]

private theorem lastAfter_eq {m i : Nat} {e : StripeElem} (he : (t.elems m)[i]? = some e) :
    t.lastAfter elemMask m i = if m = t.active ∧ elemMask.testBit i then
      ⟨e.setSel, some e.stripeIdx⟩ else t.last m i := by
  simp [Buffers.lastAfter, he]

/-- Under the condition an update reads stripes in the table only. -/
private theorem rabUpdate_isSome (h : t.Inv plat)
    (hok : (StripeCall.update elemMask).KeepsBuffered t) :
    ∃ s, t.rab.rabUpdate elemMask = some s := by
  have hsome : (RabState.updateElems elemMask t.rab 0 (t.elems t.active)).isSome := by
    rw [RabState.updateElems_isSome]
    intro i e he hbit
    rw [Nat.zero_add] at hbit
    have hinv := h.elems _ i e he
    rw [← hinv.installed.nStripes]
    exact hinv.in_table_iff.mpr (hok i e he hbit)
  obtain ⟨x, hx⟩ := Option.isSome_iff_exists.mp hsome
  exact ⟨_, RabState.rabUpdate_eq_some.mpr ⟨x.1, x.2, hx, rfl⟩⟩

private theorem update_inv (h : t.Inv plat) (hok : (StripeCall.update elemMask).KeepsBuffered t) :
    (t.step plat (.update elemMask)).Inv plat := by
  obtain ⟨s, hs⟩ := rabUpdate_isSome h hok
  obtain ⟨hl1, hes, -⟩ := rabUpdate_spec hs
  rw [step_update hs]
  have hback : ∀ m i e', (s.ctrl.stripeReq m)[i]? = some e' → ∃ e, (t.elems m)[i]? = some e ∧
      e' = if m = t.active ∧ elemMask.testBit i then e.advance else e := by
    intro m i e' he'
    rw [hes, Option.map_eq_some_iff] at he'
    obtain ⟨e, he, heq⟩ := he'
    exact ⟨e, he, heq.symm⟩
  have hslice : ∀ m k, s.slice m k = t.rab.slice m k := by
    intro m k
    rw [RabState.slice, hl1]
    rfl
  have hactive : s.mappingGetActive = t.active := by
    rw [RabState.mappingGetActive, hl1]
    rfl
  refine ⟨?_, ?_, ?_⟩
  · intro m i e' he'
    obtain ⟨e, he, rfl⟩ := hback m i e' he'
    have hinv := h.elems m i e he
    change StripeElem.Inv plat s m _ (t.lastAfter elemMask m i)
    rw [lastAfter_eq he]
    by_cases hbit : m = t.active ∧ elemMask.testBit i
    · rw [if_pos hbit, if_pos hbit]
      obtain ⟨rfl, hbit⟩ := hbit
      exact (hinv.advance (hinv.in_table_iff.mpr (hok i e he hbit))).of_slice hslice
    · rw [if_neg hbit, if_neg hbit]
      exact hinv.of_slice hslice
  · intro m
    have hmap : (s.ctrl.stripeReq m).map StripeElem.sliceIdxs =
        (t.elems m).map StripeElem.sliceIdxs := by
      apply List.ext_getElem?
      intro i
      rw [List.getElem?_map, List.getElem?_map, hes]
      cases (t.elems m)[i]? with
      | none => rfl
      | some e =>
        simp only [Option.map_some]
        split
        · rw [e.sameTable_advance.sliceIdxs]
        · rfl
    have hnodup := h.nodup m
    rw [List.flatMap_def] at hnodup ⊢
    change ((s.ctrl.stripeReq m).map StripeElem.sliceIdxs).flatten.Nodup
    rwa [hmap]
  · intro i e' he'
    change (s.ctrl.stripeReq s.mappingGetActive)[i]? = some e' at he'
    rw [hactive] at he'
    obtain ⟨e, he, rfl⟩ := hback _ i e' he'
    change _ ≠ (t.lastAfter elemMask s.mappingGetActive i).set
    rw [hactive, lastAfter_eq he]
    by_cases hbit : t.active = t.active ∧ elemMask.testBit i
    · rw [if_pos hbit, if_pos hbit]
      exact StripeElem.advance_setSel_ne (h.elems _ i e he).offset
    · rw [if_neg hbit, if_neg hbit]
      exact h.nextFree i e he

private theorem update_buffered (h : t.Inv plat) :
    (StripeCall.update elemMask).Buffered plat t ↔
      (StripeCall.update elemMask).KeepsBuffered t := by
  constructor
  · intro hb i e he hbit
    obtain ⟨s, -, hupd⟩ := hb.2
    exact (h.elems _ i e he).in_table_iff.mp ((hupd i e he).in_table hbit)
  · intro hok
    obtain ⟨s, hs⟩ := rabUpdate_isSome h hok
    refine ⟨(update_inv h hok).nextFree, s, hs, ?_⟩
    intro i e he
    have hinv := h.elems _ i e he
    have hlen : ∀ e ∈ t.elems t.active, e.sliceIdxs.length = e.type.nSets * e.nSlicesPerStripe := by
      intro e' he'
      obtain ⟨i', hi'⟩ := List.mem_iff_getElem?.mp he'
      exact (h.elems _ i' e' hi').installed.length
    refine ⟨?_, ?_, ?_, ?_, ?_⟩
    · exact fun hbit => hinv.in_table_iff.mpr (hok i e he hbit)
    · exact fun _ => hinv.follow
    · exact fun _ => h.nextFree i e he
    · intro hbit st hst
      obtain ⟨u, es, hu, rfl⟩ := RabState.rabUpdate_eq_some.mp hs
      show Holds u e e.setSel st
      exact RabState.updateElems_holds hu hlen (h.nodup _) he (by rwa [Nat.zero_add]) hst
    · intro j hj
      apply (rabUpdate_spec hs).2.2
      intro hw
      obtain ⟨i', e', he', hbit', j', hj', hslot⟩ := hw
      have hmem := StripeElem.slot_mem hinv.installed.length hinv.lastSet hj
      have hinv' := h.elems _ i' e' he'
      have hmem' := StripeElem.slot_mem hinv'.installed.length e'.setSel_lt hj'
      rw [← hslot] at hmem'
      have hnodup := h.nodup t.active
      rw [List.nodup_flatMap] at hnodup
      by_cases hii : i = i'
      · subst hii
        obtain rfl : e = e' := Option.some.inj (he.symm.trans he')
        have hsets := StripeElem.slot_inj hinv.installed.length
          (hnodup.1 e (List.mem_of_getElem? he)) hinv.lastSet e.setSel_lt hj hj' hslot
        exact h.nextFree i e he hsets.1.symm
      · obtain ⟨hi, hgi⟩ := List.getElem?_eq_some_iff.mp he
        obtain ⟨hi', hgi'⟩ := List.getElem?_eq_some_iff.mp he'
        have hpair := List.pairwise_iff_getElem.mp hnodup.2
        rcases Nat.lt_or_gt_of_ne hii with hlt | hgt
        · have hdisj := hpair i i' hi hi' hlt
          rw [hgi, hgi'] at hdisj
          exact hdisj hmem hmem'
        · have hdisj := hpair i' i hi' hi hgt
          rw [hgi, hgi'] at hdisj
          exact hdisj hmem' hmem

/-- What a switch changes. -/
private theorem rabSwitch_spec (s : RabState) (plat : Platform) :
    (s.rabSwitch plat).mappingGetActive = s.switchTarget ∧
      (∀ m k, (s.rabSwitch plat).slice m k = s.slice m k) ∧
      (∀ m, (s.rabSwitch plat).ctrl.stripeReq m = if m = s.switchTarget then
        (s.ctrl.stripeReq m).map StripeElem.reset else s.ctrl.stripeReq m) ∧
      (s.rabSwitch plat).hw = (s.mappingSwitch plat.nSlicesPort1 s.switchTarget).hw := by
  refine ⟨rfl, fun _ _ => rfl, ?_, rfl⟩
  intro m
  change Function.update s.ctrl.stripeReq s.switchTarget
    ((s.ctrl.stripeReq s.switchTarget).map StripeElem.reset) m = _
  by_cases hm : m = s.switchTarget
  · rw [hm, Function.update_self, if_pos rfl]
  · rw [Function.update_of_ne hm, if_neg hm]

private theorem switch_elems {m i : Nat} {e' : StripeElem}
    (h : ((t.step plat .switch).elems m)[i]? = some e') : ∃ e, (t.elems m)[i]? = some e ∧
      e' = if m = t.rab.switchTarget then e.reset else e := by
  change ((t.rab.rabSwitch plat).ctrl.stripeReq m)[i]? = some e' at h
  rw [(rabSwitch_spec t.rab plat).2.2.1] at h
  by_cases hm : m = t.rab.switchTarget
  · rw [if_pos hm, List.getElem?_map, Option.map_eq_some_iff] at h
    obtain ⟨e, he, rfl⟩ := h
    exact ⟨e, he, by rw [if_pos hm]⟩
  · rw [if_neg hm] at h
    exact ⟨e', h, by rw [if_neg hm]⟩

private theorem switch_nextFree (h : t.Inv plat) :
    (t.step plat .switch).NextFree ↔ StripeCall.switch.KeepsBuffered t := by
  have hactive : (t.step plat .switch).active = t.rab.switchTarget := rfl
  have hlast : ∀ i, (t.step plat .switch).last t.rab.switchTarget i = ⟨0, none⟩ :=
    fun i => if_pos rfl
  constructor
  · intro hfree e he
    obtain ⟨i, hi⟩ := List.mem_iff_getElem?.mp he
    rw [← StripeElem.reset_setSel (h.elems _ i e hi).offset]
    have hget : ((t.step plat .switch).elems t.rab.switchTarget)[i]? = some e.reset := by
      change ((t.rab.rabSwitch plat).ctrl.stripeReq t.rab.switchTarget)[i]? = _
      rw [(rabSwitch_spec t.rab plat).2.2.1, if_pos rfl, List.getElem?_map]
      exact congrArg (Option.map StripeElem.reset) hi
    have hne := hfree i e.reset hget
    rwa [hactive, hlast] at hne
  · intro hok i e' he'
    rw [hactive] at he' ⊢
    obtain ⟨e, he, rfl⟩ := switch_elems he'
    rw [if_pos rfl, hlast]
    exact (StripeElem.reset_setSel (h.elems _ i e he).offset).mpr (hok e (List.mem_of_getElem? he))

private theorem switch_inv (h : t.Inv plat) (hok : StripeCall.switch.KeepsBuffered t) :
    (t.step plat .switch).Inv plat := by
  have hspec := rabSwitch_spec t.rab plat
  refine ⟨?_, ?_, (switch_nextFree h).mpr hok⟩
  · intro m i e' he'
    obtain ⟨e, he, rfl⟩ := switch_elems he'
    have hinv := (h.elems m i e he).of_slice hspec.2.1
    change StripeElem.Inv plat (t.rab.rabSwitch plat) m _
      (if m = t.rab.switchTarget then ⟨0, none⟩ else t.last m i)
    by_cases hm : m = t.rab.switchTarget
    · rw [if_pos hm, if_pos hm]
      exact hinv.reset
    · rw [if_neg hm, if_neg hm]
      exact hinv
  · intro m
    change (((t.rab.rabSwitch plat).ctrl.stripeReq m).flatMap StripeElem.sliceIdxs).Nodup
    rw [hspec.2.2.1]
    split
    · rw [List.flatMap_map]
      exact h.nodup m
    · exact h.nodup m

private theorem switch_buffered (h : t.Inv plat) :
    StripeCall.switch.Buffered plat t ↔ StripeCall.switch.KeepsBuffered t := by
  rw [← switch_nextFree h]
  refine and_iff_left ?_
  have hspec := rabSwitch_spec t.rab plat
  intro e' he' st hst j hj sl hsl hen
  obtain ⟨i, hi⟩ := List.mem_iff_getElem?.mp he'
  obtain ⟨e, he, rfl⟩ := switch_elems hi
  have hinst := (h.elems _ i e he).installed
  have hactive : (t.step plat .switch).active = t.rab.switchTarget := rfl
  rw [if_pos hactive] at hst hj hen ⊢
  have hget := StripeElem.getElem?_slot hinst.length e.nSets_pos hj
  rw [Nat.zero_mul, Nat.zero_add] at hget
  have hshows := hinst.first j _ st sl hget hst hsl
  change (t.rab.rabSwitch plat).hw .port1 (e.slot 0 j) = _
  rw [hactive] at hshows
  have hprot : ∀ flags : Flags, flags.prot.has hwEn = flags.has hwEn := by decide
  rw [hspec.2.2.2, RabState.mappingSwitch_hw, if_pos, hshows.addrStart, hshows.addrEnd,
    hshows.addrOffset, hshows.flagsHw]
  · rfl
  · refine ⟨hinst.bound _ (List.mem_of_getElem? hget), ?_⟩
    rw [hprot, hshows.flagsHw]
    exact hen

end

/-- After striped requests every element starts in order. -/
theorem Buffers.start_inv {plat : Platform} {s : RabState}
    (h : ∀ m, Striped plat s m (s.ctrl.stripeReq m)) : (Buffers.start s).Inv plat := by
  have helem : ∀ m, ∀ e ∈ s.ctrl.stripeReq m, e.Inv plat s m ⟨0, none⟩ := by
    intro m e he
    have hinst := (h m).installed e he
    obtain ⟨hoff, hidx⟩ := (h m).ready e he
    have hnone : ∀ p, (none : Option Nat) = some p → e.stripeIdx = (p + 1) % e.nStripes :=
      fun p hp => nomatch hp
    refine ⟨hinst, ?_, ?_, hnone, e.nSets_pos⟩
    · rw [hoff]
      exact e.nSets_pos
    · have hpos := hinst.pos
      omega
  refine ⟨fun m i e he => helem m e (List.mem_of_getElem? he), fun m => (h m).nodup, ?_⟩
  intro i e he
  have hmem := List.mem_of_getElem? he
  obtain ⟨hoff, hidx⟩ := (h _).ready e hmem
  change e.setSel ≠ 0
  rw [StripeElem.setSel_eq, hoff, hidx]
  rcases e.nSets_cases with hn | hn <;> rw [hn] <;> decide

/-- The arguments of `pulp_rab_req_striped`. -/
structure StripedArgs where
  stack : SliceReq
  id : Nat
  elements : List (StripeElemUser × UserPages)

/-- The state after a sequence of striped requests. -/
def afterRequests (plat : Platform) (requests : List StripedArgs) (s : RabState) : RabState :=
  ((driver plat).exec (Prog.session
    (requests.map fun r => rabReqStriped plat r.stack r.id r.elements)) s).2

theorem afterRequests_striped {plat : Platform} {s : RabState} (requests : List StripedArgs)
    (hs : ∀ m, s.ctrl.stripeReq m = []) (m : Nat) :
    Striped plat (afterRequests plat requests s) m
      ((afterRequests plat requests s).ctrl.stripeReq m) := by
  have hrun : (driver plat).Triple anyCall anyCall
      (fun s => ∀ m, Striped plat s m (s.ctrl.stripeReq m))
      (Prog.session (requests.map fun r => rabReqStriped plat r.stack r.id r.elements))
      fun _ s => ∀ m, Striped plat s m (s.ctrl.stripeReq m) := by
    apply Interp.Triple.session
    intro p hp
    obtain ⟨r, -, rfl⟩ := List.mem_map.mp hp
    exact triple_rabReqStriped r.stack r.id r.elements
  refine (hrun s ?_ (Interp.along_of_forall (fun _ _ => trivial) _ _)).2 m
  intro m
  rw [hs m]
  exact .nil plat s m

/-- After any striped requests, in any sequence of updates and switches, the transfers are
multi-buffered if and only if every update and every switch meets its condition. -/
theorem multi_buffered_iff (plat : Platform) (s : RabState) (hs : ∀ m, s.ctrl.stripeReq m = [])
    (requests : List StripedArgs) (calls : List StripeCall) :
    (buffering plat).Along (fun t c => c.Buffered plat t) (stripeProg calls)
        (Buffers.start (afterRequests plat requests s)) ↔
      (buffering plat).Along (fun t c => c.KeepsBuffered t) (stripeProg calls)
        (Buffers.start (afterRequests plat requests s)) := by
  refine Interp.along_iff ?_ ?_ (stripeProg calls)
    (Buffers.start_inv (afterRequests_striped requests hs))
  · intro t c ht hok
    cases c with
    | update elemMask => exact update_inv ht hok
    | switch => exact switch_inv ht hok
  · intro t c ht
    cases c with
    | update elemMask => exact update_buffered ht
    | switch => exact switch_buffered ht

instance decidableForallGetElem {α : Type} (xs : List α) (p : Nat → α → Prop) [∀ i x, Decidable (p i x)] :
    Decidable (∀ i x, xs[i]? = some x → p i x) :=
  decidable_of_iff (∀ i : Fin xs.length, p i xs[i])
    ⟨fun h i _ hx => by
      obtain ⟨hi, rfl⟩ := List.getElem?_eq_some_iff.mp hx
      exact h ⟨i, hi⟩, fun h i => h i xs[i] (List.getElem?_eq_getElem i.isLt)⟩

instance (t : Buffers) : ∀ c : StripeCall, Decidable (c.KeepsBuffered t)
  | .update elemMask => inferInstanceAs (Decidable (∀ i e, (t.elems t.active)[i]? = some e →
      elemMask.testBit i → 2 ≤ e.nStripes ∨ e.stripeIdx = 0))
  | .switch => inferInstanceAs (Decidable (∀ e ∈ _, _))

/-- A request for one element of `n` stripes of one page each. -/
def pageStripes (n : Nat) : StripedArgs :=
  ⟨.blank, 0, [(⟨0, .input, 7, pageSize, n, fun j => 0x10000 + pageSize * j,
    fun j => 0x10000 + pageSize * (j + 1)⟩, ⟨true, n, fun i => 16 + i⟩)]⟩

theorem multi_buffered_two : (buffering .zedboard).Along (fun t c => c.Buffered .zedboard t)
    (stripeProg [.update 1, .update 1, .update 1, .switch, .switch, .update 1])
    (Buffers.start (afterRequests .zedboard [pageStripes 2] (RabState.reset .zedboard))) :=
  (multi_buffered_iff .zedboard (RabState.reset .zedboard) (fun _ => rfl) [pageStripes 2] _).mpr
    (by decide +kernel)

/-- The first update of an element with one stripe reads outside its stripe table. -/
theorem one_stripe_not_buffered : ¬ (buffering .zedboard).Along (fun t c => c.Buffered .zedboard t)
    (stripeProg [.update 1]) (Buffers.start (afterRequests .zedboard [pageStripes 1]
      ((driver .zedboard).exec (rabSetup .zedboard .blank) (RabState.reset .zedboard)).2)) := by
  intro h
  obtain ⟨s, hs, -⟩ := h.1.2
  have hnone : ((Buffers.start (afterRequests .zedboard [pageStripes 1] ((driver .zedboard).exec
      (rabSetup .zedboard .blank) (RabState.reset .zedboard)).2)).rab.rabUpdate 1).isNone := by
    decide +kernel
  rw [hs] at hnone
  cases hnone

end Hero.Rab
