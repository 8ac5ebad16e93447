import Hero.Driver.Rab.Coherence
import Hero.Driver.Rab.Failure

/-!
# Default mappings

The initialisation clears all slots and takes the first ones for the default mappings, whatever is
live.
-/

namespace Hero.Rab

open Driver Flags Interp

/-- The default mappings of Port 0 -/
def nDefaultsPort0 : Nat := 3

/-- The default mappings of Port 1 -/
def Platform.nDefaultsPort1 : Platform → Nat
  | .ariane => 2
  | _ => 1

/-- `pulp_rab_l1_init` -/
def L1Tlb.init (l1 : L1Tlb) : L1Tlb where
  port0 k := (l1.port0 k).cleared
  mappings m := {
    slices := fun k => ((l1.mappings m).slices k).cleared
    pagePtrs := fun _ => none
    pagePtrRefCntrs := fun _ => 0 }
  mappingActive := 0

namespace RabState


/-- `pulp_rab_init` up to the default mappings -/
def initManagement (plat : Platform) (s : RabState) : RabState :=
  { s with
    l1 := s.l1.init
    ctrl := { s.ctrl with
      nSlicesReservedForHost := plat.nSlicesPort1
      mhDate := 0
      mhAcp := false
      mhLvl := 0 } }

end RabState

/-- A default mapping. -/
structure L1EntryPort0.IsDefault (e : L1EntryPort0) : Prop where
  fixed : e.fixed = true
  dateExp : e.dateExp = maxDate
  flagsHw : e.flagsHw = hwEn ||| hwRead ||| hwWrite

/-- The first `a` slots of Port 0 and the first `b m` slots of each mapping hold default mappings, and
the others are as the initialisation has found them, but cleared. -/
structure Placed (plat : Platform) (s₀ : RabState) (a : Nat) (b : Nat → Nat) (s : RabState) : Prop where
  port0 : ∀ k < a, (s.l1.port0 k).IsDefault ∧ Agrees (s.hw .port0 k) (s.l1.port0 k)
  port0Rest : ∀ k, a ≤ k → s.l1.port0 k = (s₀.l1.port0 k).cleared ∧ s.hw .port0 k = s₀.hw .port0 k
  slice : ∀ m, ∀ k < b m, (s.slice m k).IsDefault
  sliceRest : ∀ m k, b m ≤ k → s.slice m k = (s₀.slice m k).cleared
  hw : ∀ k < b 0, Agrees (s.hw .port1 k) (s.slice 0 k).toL1EntryPort0
  hwRest : ∀ k, b 0 ≤ k → s.hw .port1 k = s₀.hw .port1 k
  pagePtr : ∀ m i, s.pagePtr m i = none
  refCntr : ∀ m i, b m ≤ i → s.refCntr m i = 0
  active : s.l1.mappingActive = 0
  socMh : s.ctrl.socMhIsEna = s₀.ctrl.socMhIsEna
  reserved : s.ctrl.nSlicesReservedForHost = plat.nSlicesPort1
  pins : ∀ p, s.pins p = s₀.pins p

/-- What all requests for default mappings have in common. -/
structure SliceReq.FixedConst (req : SliceReq) : Prop where
  fixed : req.flagsDrv.has drvFixed = true
  const : req.flagsDrv.has drvConst = true
  dateCur : req.dateCur = maxDate
  dateExp : req.dateExp = maxDate
  flagsHw : req.flagsHw = hwEn ||| hwRead ||| hwWrite

/-- A request for a default mapping, with its type. -/
structure SliceReq.ForDefault (req : SliceReq) : Prop extends req.FixedConst where
  every : req.flagsDrv.has drvEvery = true

section

variable {plat : Platform} {s₀ s : RabState} {req : SliceReq} {a : Nat} {b : Nat → Nat}

private theorem SliceReq.ForDefault.withSlice (h : req.ForDefault) (k : Nat) :
    SliceReq.ForDefault { req with rabSlice := k } :=
  ⟨⟨h.fixed, h.const, h.dateCur, h.dateExp, h.flagsHw⟩, h.every⟩

private theorem SliceReq.ForDefault.isDefault (h : req.ForDefault) :
    req.entry.toL1EntryPort0.IsDefault :=
  ⟨h.fixed, h.dateExp, h.flagsHw⟩

private theorem not_expired_default {e : L1EntryPort0} (h : e.IsDefault) : ¬ Expired maxDate e.dateExp := by
  rw [h.dateExp]
  decide

private theorem expired_cleared (e : L1EntryPort0) : Expired maxDate e.cleared.dateExp :=
  Or.inl (by change maxDate > 0; decide)

private theorem agrees_entry (req : SliceReq) : Agrees ⟨req.addrStart / pageSize, req.addrEnd / pageSize,
    req.addrOffset / pageSize, req.flagsHw⟩ req.entry.toL1EntryPort0 :=
  ⟨Iff.rfl, fun _ => ⟨rfl, rfl, rfl⟩⟩

private theorem replace_entry0 (k : Nat) : ((s.sliceFree req).sliceSetup req none).l1.port0 k =
    if req.rabPort = .port0 ∧ k = req.rabSlice then req.entry.toL1EntryPort0 else s.l1.port0 k := by
  rw [RabState.sliceSetup_entry0, RabState.sliceFree_entry0]
  split <;> rfl

/-- What `pulp_rab_slice_get` finds for a default mapping. -/
private theorem sliceGet_default {n : Nat} (hreq : req.ForDefault) (ha : a < n)
    (hmanaged : s.sliceIsManagedByHost { req with rabSlice := a } = true)
    (hfree : Expired maxDate (s.entry { req with rabSlice := a }).dateExp)
    (htaken : ∀ k < a, (s.entry { req with rabSlice := k }).IsDefault) : s.sliceGet req n = some a := by
  have hcheck : ∀ k, s.sliceCheck { req with rabSlice := k } = true ↔
      Expired maxDate (s.entry { req with rabSlice := k }).dateExp := by
    intro k
    have hiff : s.sliceCheck { req with rabSlice := k } = true ↔
      Expired req.dateCur (s.entry { req with rabSlice := k }).dateExp := sliceCheck_fixed_iff hreq.fixed
    have hdate : ∀ exp, Expired req.dateCur exp ↔ Expired maxDate exp := by
      intro exp
      rw [hreq.dateCur]
    rw [hiff, hdate]
  rw [RabState.sliceGet, List.find?_range_eq_some]
  refine ⟨?_, List.mem_range.mpr ha, ?_⟩
  · rw [Bool.and_eq_true]
    exact ⟨(hcheck a).mpr hfree, hmanaged⟩
  · intro k hk
    rw [Bool.not_eq_true', Bool.and_eq_false_iff]
    left
    rw [← Bool.not_eq_true, hcheck]
    exact not_expired_default (htaken k hk)

private theorem Placed.sliceGet_port0 (h : Placed plat s₀ a b s) (hreq : req.ForDefault)
    (hport : req.rabPort = .port0) (ha : a < nSlicesPort0) :
    s.sliceGet req (req.rabPort.nSlices plat) = some a := by
  have hentry : ∀ k, s.entry { req with rabSlice := k } = s.l1.port0 k := by
    intro k
    simp [RabState.entry, hport]
  rw [hport]
  apply sliceGet_default hreq ha
  · simp [RabState.sliceIsManagedByHost, hport]
  · rw [hentry, (h.port0Rest a le_rfl).1]
    exact expired_cleared _
  · intro k hk
    rw [hentry]
    exact (h.port0 k hk).1

private theorem Placed.sliceGet_port1 (h : Placed plat s₀ a b s) (hreq : req.ForDefault)
    (hport : req.rabPort = .port1) (hb : b req.rabMapping < plat.nSlicesPort1) :
    s.sliceGet req (req.rabPort.nSlices plat) = some (b req.rabMapping) := by
  have hentry : ∀ k, s.entry { req with rabSlice := k } = (s.slice req.rabMapping k).toL1EntryPort0 := by
    intro k
    simp [RabState.entry, hport]
  rw [hport]
  apply sliceGet_default hreq hb
  · simp [RabState.sliceIsManagedByHost, h.reserved, hb]
  · rw [hentry, h.sliceRest _ _ le_rfl]
    exact expired_cleared _
  · intro k hk
    rw [hentry]
    exact h.slice _ k hk

private theorem Placed.pagePtrsGetField (h : Placed plat s₀ a b s) {m : Nat}
    (hb : b m < plat.nSlicesPort1) :
    ∃ i ≤ b m, s.pagePtrsGetField plat.nSlicesPort1 m = some i ∧ s.refCntr m i = 0 := by
  cases hget : s.pagePtrsGetField plat.nSlicesPort1 m with
  | none =>
    rw [RabState.pagePtrsGetField, List.find?_eq_none] at hget
    have hno := hget (b m) (List.mem_range.mpr hb)
    simp [h.refCntr m (b m) le_rfl] at hno
  | some i =>
    refine ⟨i, ?_, rfl, (RabState.pagePtrsGetField_spec hget).2⟩
    rw [RabState.pagePtrsGetField, List.find?_range_eq_some] at hget
    by_contra hlt
    have hno := hget.2.2 (b m) (by omega)
    simp [h.refCntr m (b m) le_rfl] at hno

/-- Setting up a default mapping of Port 0 in the first free slot. -/
private theorem Placed.replace_port0 (h : Placed plat s₀ a b s) (hreq : req.ForDefault)
    (hport : req.rabPort = .port0) (hslot : req.rabSlice = a) :
    Placed plat s₀ (a + 1) b ((s.sliceFree req).sliceSetup req none) := by
  have hne : ¬ req.rabPort = .port1 := by simp [hport]
  have hslice : ∀ m k, ((s.sliceFree req).sliceSetup req none).slice m k = s.slice m k := by
    intro m k
    rw [RabState.sliceSetup_slice, if_neg fun hno => hne hno.1, RabState.sliceFree_slice,
      if_neg fun hno => hne hno.2.1]
  have htakes : ¬ ((s.sliceFree req).takesRef req = true) := by simp [RabState.takesRef, hport]
  have hhw : ∀ p k, ((s.sliceFree req).sliceSetup req none).hw p k =
      if p = .port0 ∧ k = a then ⟨req.addrStart / pageSize, req.addrEnd / pageSize,
        req.addrOffset / pageSize, req.flagsHw⟩ else s.hw p k := by
    intro p k
    rw [RabState.sliceSetup_hw, RabState.sliceFree_hw, hport, hslot]
    by_cases hk : p = .port0 ∧ k = a
    · rw [if_pos hk, if_pos ⟨by simp [RabState.configures, hport], hk⟩]
    · rw [if_neg hk, if_neg fun hno => hk hno.2, if_neg fun hno => hk hno.2]
  constructor
  · intro k hk
    rw [replace_entry0, hhw, hport, hslot]
    by_cases hka : k = a
    · rw [if_pos ⟨rfl, hka⟩, if_pos ⟨rfl, hka⟩]
      exact ⟨hreq.isDefault, agrees_entry req⟩
    · rw [if_neg fun hno => hka hno.2, if_neg fun hno => hka hno.2]
      exact h.port0 k (by omega)
  · intro k hk
    rw [replace_entry0, hhw, hslot, if_neg (by omega), if_neg (by omega)]
    exact h.port0Rest k (by omega)
  · intro m k hk
    rw [hslice]
    exact h.slice m k hk
  · intro m k hk
    rw [hslice]
    exact h.sliceRest m k hk
  · intro k hk
    rw [hslice, hhw, if_neg (by simp)]
    exact h.hw k hk
  · intro k hk
    rw [hhw, if_neg (by simp)]
    exact h.hwRest k hk
  · intro m i
    rw [RabState.sliceSetup_pagePtr, if_neg fun hno => htakes hno.1, RabState.sliceFree_pagePtr]
    split
    · rfl
    · exact h.pagePtr m i
  · intro m i hi
    rw [RabState.sliceSetup_refCntr, if_neg fun hno => htakes hno.1, RabState.sliceFree_refCntr,
      if_neg (by simp [RabState.unrefs, hport])]
    exact h.refCntr m i hi
  · rw [((s.sliceFree req).sliceSetup_frame req none).1, (s.sliceFree_frame req).1]
    exact h.active
  · rw [replace_ctrl]
    exact h.socMh
  · rw [replace_ctrl]
    exact h.reserved
  · intro p
    rw [RabState.pins, ((s.sliceFree req).sliceSetup_frame req none).2.2, RabState.sliceFree_put,
      (s.sliceFree_frame req).2.2.1, ← h.pins p]
    simp [RabState.released, RabState.pagesOld, hport, RabState.pins]

/-- Setting up a default mapping of Port 1 in the first free slot of a mapping. -/
private theorem Placed.replace_port1 (h : Placed plat s₀ a b s) (hreq : req.ForDefault)
    (hport : req.rabPort = .port1) (hslot : req.rabSlice = b req.rabMapping)
    (hi : req.pagePtrIdx ≤ b req.rabMapping)
    (hzero : s.refCntr req.rabMapping req.pagePtrIdx = 0) :
    (s.sliceFree req).sliceSetupRefused req = false ∧
      Placed plat s₀ a (Function.update b req.rabMapping (b req.rabMapping + 1))
        ((s.sliceFree req).sliceSetup req none) := by
  have hpages : s.pagesOld req = none := by
    rw [RabState.pagesOld, hport]
    exact h.pagePtr _ _
  have hold : s.slice req.rabMapping req.rabSlice = (s₀.slice req.rabMapping req.rabSlice).cleared :=
    h.sliceRest _ _ hslot.ge
  -- the field of an empty slot is the first one, whose counter freeing the slot may lower
  have hcntr : ∀ m i, (s.sliceFree req).refCntr m i = s.refCntr m i ∨ i = 0 ∧ s.refCntr m i ≠ 0 := by
    intro m i
    rw [RabState.sliceFree_refCntr]
    split
    · next hun =>
      obtain ⟨hun, rfl, rfl⟩ := hun
      simp only [RabState.unrefs, hpages, hold] at hun
      rw [hold]
      right
      refine ⟨rfl, ?_⟩
      simp_all
    · exact Or.inl rfl
  have hfree : (s.sliceFree req).refCntr req.rabMapping req.pagePtrIdx = 0 := by
    rcases hcntr req.rabMapping req.pagePtrIdx with heq | ⟨-, hne⟩
    · rw [heq, hzero]
    · exact absurd hzero hne
  have hrefused : (s.sliceFree req).sliceSetupRefused req = false := by
    simp [RabState.sliceSetupRefused, hfree]
  have hslice : ∀ m k, ((s.sliceFree req).sliceSetup req none).slice m k =
      if m = req.rabMapping ∧ k = b req.rabMapping then req.entry else s.slice m k := by
    intro m k
    rw [replace_slice hport, hslot]
  have hconf : (s.sliceFree req).configures req = true ↔ req.rabMapping = 0 := by
    simp [RabState.configures, RabState.takesRef, hport, hrefused, (s.sliceFree_frame req).1, h.active,
      eq_comm]
  have hclears : s.clearsHw req = true → req.rabMapping = 0 := by
    intro hclears
    rw [RabState.clearsHw, if_pos (Or.inr ⟨hport, hreq.const⟩), h.active] at hclears
    exact (of_decide_eq_true (Bool.and_eq_true_iff.mp hclears).2).symm
  have hhw : ∀ p k, ((s.sliceFree req).sliceSetup req none).hw p k =
      if req.rabMapping = 0 ∧ p = .port1 ∧ k = b req.rabMapping then ⟨req.addrStart / pageSize,
        req.addrEnd / pageSize, req.addrOffset / pageSize, req.flagsHw⟩ else s.hw p k := by
    intro p k
    rw [RabState.sliceSetup_hw, RabState.sliceFree_hw, hport, hslot]
    by_cases hk : req.rabMapping = 0 ∧ p = .port1 ∧ k = b req.rabMapping
    · rw [if_pos hk, if_pos ⟨hconf.mpr hk.1, hk.2⟩]
    · rw [if_neg hk, if_neg fun hno => hk ⟨hconf.mp hno.1, hno.2⟩,
        if_neg fun hno => hk ⟨hclears hno.1, hno.2⟩]
  refine ⟨hrefused, ?_⟩
  constructor
  · intro k hk
    rw [hhw, if_neg (by simp), replace_entry0, if_neg (by simp [hport])]
    exact h.port0 k hk
  · intro k hk
    rw [hhw, if_neg (by simp), replace_entry0, if_neg (by simp [hport])]
    exact h.port0Rest k hk
  · intro m k hk
    rw [hslice]
    by_cases hm : m = req.rabMapping
    · subst hm
      rw [Function.update_self] at hk
      by_cases hkb : k = b req.rabMapping
      · rw [if_pos ⟨rfl, hkb⟩]
        exact hreq.isDefault
      · rw [if_neg fun hno => hkb hno.2]
        exact h.slice _ k (by omega)
    · rw [Function.update_of_ne hm] at hk
      rw [if_neg fun hno => hm hno.1]
      exact h.slice m k hk
  · intro m k hk
    rw [hslice]
    by_cases hm : m = req.rabMapping
    · subst hm
      rw [Function.update_self] at hk
      rw [if_neg (by omega)]
      exact h.sliceRest _ k (by omega)
    · rw [Function.update_of_ne hm] at hk
      rw [if_neg fun hno => hm hno.1]
      exact h.sliceRest m k hk
  · intro k hk
    rw [hslice, hhw]
    by_cases hm : req.rabMapping = 0
    · rw [hm, Function.update_self] at hk
      by_cases hkb : k = b req.rabMapping
      · rw [if_pos ⟨hm, rfl, hkb⟩, if_pos ⟨hm.symm, hkb⟩]
        exact agrees_entry req
      · rw [if_neg fun hno => hkb hno.2.2, if_neg fun hno => hkb hno.2]
        exact h.hw k (by rw [hm] at hkb; omega)
    · rw [Function.update_of_ne (Ne.symm hm)] at hk
      rw [if_neg fun hno => hm hno.1, if_neg fun hno => hm hno.1.symm]
      exact h.hw k hk
  · intro k hk
    rw [hhw]
    by_cases hm : req.rabMapping = 0
    · rw [hm, Function.update_self] at hk
      rw [hm, if_neg (by omega)]
      exact h.hwRest k (by omega)
    · rw [Function.update_of_ne (Ne.symm hm)] at hk
      rw [if_neg fun hno => hm hno.1]
      exact h.hwRest k hk
  · intro m i
    rw [RabState.sliceSetup_pagePtr, if_pos hreq.const]
    split
    · rfl
    · rw [RabState.sliceFree_pagePtr]
      split
      · rfl
      · exact h.pagePtr m i
  · intro m i hge
    rw [RabState.sliceSetup_refCntr]
    by_cases hm : m = req.rabMapping
    · subst hm
      rw [Function.update_self] at hge
      rw [if_neg (by omega)]
      rcases hcntr req.rabMapping i with heq | ⟨hi0, -⟩
      · rw [heq]
        exact h.refCntr _ i (by omega)
      · omega
    · rw [Function.update_of_ne hm] at hge
      rw [if_neg fun hno => hm hno.2.1]
      rcases hcntr m i with heq | ⟨-, hne⟩
      · rw [heq]
        exact h.refCntr m i hge
      · exact absurd (h.refCntr m i hge) hne
  · rw [((s.sliceFree req).sliceSetup_frame req none).1, (s.sliceFree_frame req).1]
    exact h.active
  · rw [replace_ctrl]
    exact h.socMh
  · rw [replace_ctrl]
    exact h.reserved
  · intro p
    rw [RabState.pins, ((s.sliceFree req).sliceSetup_frame req none).2.2, RabState.sliceFree_put,
      (s.sliceFree_frame req).2.2.1, ← h.pins p]
    simp [RabState.released, hpages, RabState.pins]

/-- What a request for a default mapping leaves. -/
private def Installed (plat : Platform) (s₀ : RabState) (a : Nat) (b : Nat → Nat) (port : Port)
    (m : Nat) (r : Except Err SliceReq) (s : RabState) : Prop :=
  Placed plat s₀ a b s ∧ ∃ req, r = .ok req ∧ req.ForDefault ∧ req.rabPort = port ∧ req.rabMapping = m

/-- Taking the free slot that is found. -/
private theorem triple_take_default (hreq : req.ForDefault) {k : Nat} {b' : Nat → Nat} {a' : Nat}
    (hget : s.sliceGet req (req.rabPort.nSlices plat) = some k)
    (hrefused : (s.sliceFree { req with rabSlice := k }).sliceSetupRefused { req with rabSlice := k } =
      false)
    (hplaced : Placed plat s₀ a' b' ((s.sliceFree { req with rabSlice := k }).sliceSetup
      { req with rabSlice := k } none)) :
    (driver plat).Triple always always (fun s' => s' = s)
      ((sliceGet plat req).bind fun req => (sliceReplace req none).bind fun _ => Prog.ret req)
      (Installed plat s₀ a' b' req.rabPort req.rabMapping) := by
  apply Triple.bind (R := fun req' s' => s' = s ∧ req' = { req with rabSlice := k })
  · apply triple_sliceGet
    · rintro s' k' rfl hk'
      cases hget.symm.trans hk'
      exact ⟨rfl, rfl⟩
    · rintro s' rfl hnone
      cases hget.symm.trans hnone
  · intro req'
    apply Triple.of_states
    rintro s' ⟨rfl, rfl⟩
    apply Triple.bind (R := fun _ s'' => Placed plat s₀ a' b' s'')
    · apply triple_replace_to.conseq fun _ h => h
      rintro r s'' ⟨rfl, hok⟩
      rw [hok hrefused]
      exact hplaced
    · intro _
      apply Triple.ret
      intro s'' hs''
      exact ⟨hs'', _, rfl, hreq.withSlice k, rfl, rfl⟩

private theorem installed_port0 (h : Placed plat s₀ a b s) (hreq : req.ForDefault)
    (hport : req.rabPort = .port0) (hm : req.rabMapping = 0) (ha : a < nSlicesPort0) :
    (driver plat).Triple always always (fun s' => s' = s) (reqMappings plat none 0 req)
      (Installed plat s₀ (a + 1) b .port0 0) := by
  have hget := h.sliceGet_port0 hreq hport ha
  have hplaced : Placed plat s₀ (a + 1) b ((s.sliceFree { req with rabSlice := a }).sliceSetup
      { req with rabSlice := a } none) := h.replace_port0 (hreq.withSlice a) hport rfl
  have htake := triple_take_default hreq hget (by simp [RabState.sliceSetupRefused, hport]) hplaced
  rw [hport, hm] at htake
  change (driver plat).Triple _ _ _ ((reqMapping plat none 0 req 0).bind fun req =>
    (reqMapping plat none 0 req 1).bind Prog.ret) _
  rw [reqMapping_port0 hport, if_pos hm]
  apply Triple.bind (R := fun req' s' => Installed plat s₀ (a + 1) b .port0 0 (.ok req') s')
  · apply htake.conseq fun _ h => h
    intro r s' hs'
    obtain ⟨hs', req', rfl, hreq'⟩ := hs'
    exact ⟨hs', req', rfl, hreq'⟩
  · intro req'
    apply Triple.of_states
    rintro s' ⟨hs', _, heq, hreq', hport', hm'⟩
    cases heq
    rw [reqMapping_port0 hport', if_neg (by omega)]
    apply Triple.ret
    rintro s'' rfl
    exact ⟨hs', req', rfl, hreq', hport', hm'⟩

private theorem installed_mapping (h : Placed plat s₀ a b s) (hreq : req.ForDefault)
    (hport : req.rabPort = .port1) {m : Nat} (hb : b m < plat.nSlicesPort1) :
    (driver plat).Triple always always (fun s' => s' = s) (reqMapping plat none 0 req m)
      (Installed plat s₀ a (Function.update b m (b m + 1)) .port1 m) := by
  obtain ⟨i, hle, hi, hzero⟩ := h.pagePtrsGetField hb
  rw [reqMapping_first hport hreq.every]
  apply Triple.bind (R := fun req' s' => s' = s ∧ req' = { req with rabMapping := m, pagePtrIdx := i })
  · apply triple_pagePtrsGetField
    · rintro s' i' rfl hi'
      cases hi.symm.trans hi'
      exact ⟨rfl, rfl⟩
    · rintro s' rfl hnone
      cases hi.symm.trans hnone
  · intro req'
    apply Triple.of_states
    rintro s' ⟨rfl, rfl⟩
    have hreq' : SliceReq.ForDefault { req with rabMapping := m, pagePtrIdx := i } :=
      ⟨⟨hreq.fixed, hreq.const, hreq.dateCur, hreq.dateExp, hreq.flagsHw⟩, hreq.every⟩
    have hget := h.sliceGet_port1 hreq' hport hb
    have hplaced : _ ∧ Placed plat s₀ a (Function.update b m (b m + 1)) _ :=
      h.replace_port1 (hreq'.withSlice (b m)) hport rfl hle hzero
    rw [← hport]
    exact triple_take_default hreq' hget hplaced.1 hplaced.2

private theorem installed_port1 (h : Placed plat s₀ a b s) (hreq : req.ForDefault)
    (hport : req.rabPort = .port1) (hb : ∀ m < nMappingsPort1, b m < plat.nSlicesPort1) :
    (driver plat).Triple always always (fun s' => s' = s) (reqMappings plat none 0 req)
      (Installed plat s₀ a (Function.update (Function.update b 0 (b 0 + 1)) 1 (b 1 + 1)) .port1 1) := by
  change (driver plat).Triple _ _ _ ((reqMapping plat none 0 req 0).bind fun req =>
    (reqMapping plat none 0 req 1).bind Prog.ret) _
  apply Triple.bind (R := fun req' s' =>
    Installed plat s₀ a (Function.update b 0 (b 0 + 1)) .port1 0 (.ok req') s')
  · apply (installed_mapping h hreq hport (hb 0 (by decide))).conseq fun _ h => h
    rintro r s' ⟨hs', req', rfl, hreq'⟩
    exact ⟨hs', req', rfl, hreq'⟩
  · intro req'
    apply Triple.of_states
    rintro s' ⟨hs', _, heq, hreq', hport', -⟩
    cases heq
    apply Triple.bind (R := fun req'' s'' => Installed plat s₀ a
      (Function.update (Function.update b 0 (b 0 + 1)) 1 (b 1 + 1)) .port1 1 (.ok req'') s'')
    · have hnext : Function.update b 0 (b 0 + 1) 1 < plat.nSlicesPort1 := hb 1 (by decide)
      apply (installed_mapping hs' hreq' hport' hnext).conseq fun _ h => h
      rintro r s'' ⟨hs'', req'', rfl, hreq''⟩
      exact ⟨hs'', req'', rfl, hreq''⟩
    · intro req''
      exact Triple.ret fun _ h => h

private theorem withType_forDefault (h : req.FixedConst) : req.withType.ForDefault := by
  have hset : ∀ y : Flags,
      (y.has drvFixed = true → (y.set (drvConst ||| drvEvery)).has drvFixed = true ∧
        (y.set drvEvery).has drvFixed = true) ∧
      (y.has drvConst = true → (y.set (drvConst ||| drvEvery)).has drvConst = true ∧
        (y.set drvEvery).has drvConst = true) ∧
      (y.set (drvConst ||| drvEvery)).has drvEvery = true ∧ (y.set drvEvery).has drvEvery = true := by
    decide
  obtain ⟨hfixed, hconst, hevery⟩ := hset req.flagsDrv
  have hfixed := hfixed h.fixed
  have hconst := hconst h.const
  refine ⟨⟨?_, ?_, h.dateCur, h.dateExp, h.flagsHw⟩, ?_⟩
  · rw [SliceReq.withType]
    split
    · exact hfixed.1
    · exact hfixed.2
  · rw [SliceReq.withType]
    split
    · exact hconst.1
    · exact hconst.2
  · rw [SliceReq.withType]
    split
    · exact hevery.1
    · exact hevery.2

/-- A request of `pulp_rab_setup` as it is made for the mappings. -/
private theorem setupConst_eq (plat : Platform) (h : req.FixedConst) (port : Port) (addrStart sizeB : Nat) :
    ∃ req', setupConst plat req port addrStart sizeB = reqMappings plat none 0 req' ∧
      req'.ForDefault ∧ req'.rabPort = port ∧ req'.rabMapping = req.rabMapping := by
  have hbase : SliceReq.FixedConst
      { req with rabPort := port, addrStart := addrStart, addrEnd := u32 (addrStart + sizeB) } :=
    ⟨h.fixed, h.const, h.dateCur, h.dateExp, h.flagsHw⟩
  have hdefault := withType_forDefault hbase
  refine ⟨_, if_pos hdefault.const, ?_, rfl, rfl⟩
  exact ⟨⟨hdefault.fixed, hdefault.const, hdefault.dateCur, hdefault.dateExp, hdefault.flagsHw⟩,
    hdefault.every⟩

private theorem setupConst_port0 (h : Placed plat s₀ a b s) (hreq : req.FixedConst)
    (hm : req.rabMapping = 0) (ha : a < nSlicesPort0) (addrStart sizeB : Nat) :
    (driver plat).Triple always always (fun s' => s' = s)
      (setupConst plat req .port0 addrStart sizeB) (Installed plat s₀ (a + 1) b .port0 0) := by
  obtain ⟨req', heq, hreq', hport, hm'⟩ := setupConst_eq plat hreq .port0 addrStart sizeB
  rw [heq]
  exact installed_port0 h hreq' hport (hm'.trans hm) ha

private theorem setupConst_port1 (h : Placed plat s₀ a b s) (hreq : req.FixedConst)
    (hb : ∀ m < nMappingsPort1, b m < plat.nSlicesPort1) (addrStart sizeB : Nat) :
    (driver plat).Triple always always (fun s' => s' = s)
      (setupConst plat req .port1 addrStart sizeB)
      (Installed plat s₀ a (Function.update (Function.update b 0 (b 0 + 1)) 1 (b 1 + 1)) .port1 1) := by
  obtain ⟨req', heq, hreq', hport, -⟩ := setupConst_eq plat hreq .port1 addrStart sizeB
  rw [heq]
  exact installed_port1 h hreq' hport hb

/-- `pulp_rab_l1_init` leaves no default mapping and no list of pages. -/
private theorem placed_initManagement (plat : Platform) (s : RabState) :
    Placed plat s 0 (fun _ => 0) (s.initManagement plat) :=
  ⟨fun _ hk => absurd hk (Nat.not_lt_zero _), fun _ _ => ⟨rfl, rfl⟩,
    fun _ _ hk => absurd hk (Nat.not_lt_zero _), fun _ _ _ => rfl,
    fun _ hk => absurd hk (Nat.not_lt_zero _), fun _ _ => rfl, fun _ _ => rfl, fun _ _ _ => rfl, rfl, rfl,
    rfl, fun _ => rfl⟩

/-- The rule for what follows a request for a default mapping. -/
private theorem triple_installed_bind {p : Op SliceReq} {f : SliceReq → Op Unit} {port : Port} {m : Nat}
    {Q : Except Err Unit → RabState → Prop}
    (hp : (driver plat).Triple always always (fun s' => s' = s) p (Installed plat s₀ a b port m))
    (hf : ∀ req' s', Placed plat s₀ a b s' → req'.FixedConst → req'.rabMapping = m →
      (driver plat).Triple always always (fun u => u = s') (f req') Q) :
    (driver plat).Triple always always (fun s' => s' = s) (p.bind f) Q := by
  apply Triple.bind (R := fun req' s' => Installed plat s₀ a b port m (.ok req') s')
  · apply hp.conseq fun _ h => h
    rintro r s' ⟨hs', req', rfl, hreq'⟩
    exact ⟨hs', req', rfl, hreq'⟩
  · intro req'
    apply Triple.of_states
    rintro s' ⟨hs', _, heq, hreq', -, hm⟩
    cases heq
    exact hf req' s' hs' hreq'.toFixedConst hm

/-- `pulp_rab_setup` never fails on cleared slots. -/
theorem triple_rabSetup (plat : Platform) (stack : SliceReq) (s : RabState) :
    (driver plat).Triple always always (fun s' => s' = s.initManagement plat) (rabSetup plat stack)
      fun r s' => r = .ok () ∧
        ∃ b, Placed plat s nDefaultsPort0 b s' ∧ ∀ m < nMappingsPort1, b m = plat.nDefaultsPort1 := by
  have hslices : 2 ≤ plat.nSlicesPort1 := by cases plat <;> decide
  have hflags : Flags.has (drvFixed ||| drvConst) drvFixed = true ∧
      Flags.has (drvFixed ||| drvConst) drvConst = true := by decide
  have hstart : SliceReq.FixedConst { stack with
      flagsDrv := drvFixed ||| drvConst
      flagsHw := hwEn ||| hwRead ||| hwWrite
      rabMapping := 0
      dateExp := maxDate
      dateCur := maxDate } := ⟨hflags.1, hflags.2, rfl, rfl, rfl⟩
  apply triple_installed_bind
    (setupConst_port0 (placed_initManagement plat s) hstart rfl (by decide) _ _)
  intro req s hs hreq hm
  apply triple_installed_bind (setupConst_port0 hs hreq hm (by decide) _ _)
  intro req s hs hreq hm
  apply triple_installed_bind (setupConst_port0 hs hreq hm (by decide) _ _)
  intro req s hs hreq hm
  apply triple_installed_bind (setupConst_port1 hs hreq (fun m _ => by omega) _ _)
  intro req s hs hreq _
  have hplaced : ∀ m < nMappingsPort1,
      Function.update (Function.update (fun _ => 0) 0 1) 1 1 m = 1 := by decide
  by_cases hplat : plat = .ariane
  · rw [if_pos hplat]
    have hnext : SliceReq.FixedConst { req with addrOffset := 0x60030000 } :=
      ⟨hreq.fixed, hreq.const, hreq.dateCur, hreq.dateExp, hreq.flagsHw⟩
    apply triple_installed_bind
      (setupConst_port1 hs hnext (fun m hm => by rw [hplaced m hm]; omega) _ _)
    intro req s hs hreq _
    apply Triple.ret
    rintro s' rfl
    refine ⟨rfl, _, hs, ?_⟩
    rw [hplat]
    decide
  · rw [if_neg hplat]
    apply Triple.ret
    rintro s' rfl
    refine ⟨rfl, _, hs, ?_⟩
    intro m hm
    rw [show plat.nDefaultsPort1 = 1 by cases plat <;> first | rfl | exact absurd rfl hplat]
    exact hplaced m hm

end

end Hero.Rab
