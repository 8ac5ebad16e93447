import Hero.Driver.Rab.Operations

/-!
# Rules for the operations of the driver

One rule for each operation that other operations are made of, for any interpretation of the calls.
-/

namespace Hero.Rab

open Driver Flags

variable {τ : Type} {I : Interp RabState Call τ} {ok good : τ → Call → Prop} {P : τ → Prop}
  {plat : Platform} {req : SliceReq} {pages : Option PageArray}

/-- The two searches read the state and fail or go on with what is found. -/
theorem sliceGet_eq (plat : Platform) (req : SliceReq) : sliceGet plat req = .read fun s =>
    (s.sliceGet req (req.rabPort.nSlices plat)).elim (.fail .noSlice)
      fun k => .ret { req with rabSlice := k } := by
  apply congrArg Prog.read
  funext s
  simp only [Prog.bind]
  cases s.sliceGet req (req.rabPort.nSlices plat) with
  | none => rfl
  | some k => rfl

theorem pagePtrsGetField_eq (plat : Platform) (req : SliceReq) : pagePtrsGetField plat req = .read fun s =>
    (s.pagePtrsGetField plat.nSlicesPort1 req.rabMapping).elim (.fail .eio)
      fun i => .ret { req with pagePtrIdx := i } := by
  apply congrArg Prog.read
  funext s
  simp only [Prog.bind]
  cases s.pagePtrsGetField plat.nSlicesPort1 req.rabMapping with
  | none => rfl
  | some i => rfl

theorem exec_sliceGet (t : τ) : I.exec (sliceGet plat req) t =
    ((I.view t).sliceGet req (req.rabPort.nSlices plat)).elim (.error .noSlice, t)
      fun k => (.ok { req with rabSlice := k }, t) := by
  rw [sliceGet_eq, Interp.exec]
  cases (I.view t).sliceGet req (req.rabPort.nSlices plat) <;> rfl

theorem exec_pagePtrsGetField (t : τ) : I.exec (pagePtrsGetField plat req) t =
    ((I.view t).pagePtrsGetField plat.nSlicesPort1 req.rabMapping).elim (.error .eio, t)
      fun i => (.ok { req with pagePtrIdx := i }, t) := by
  rw [pagePtrsGetField_eq, Interp.exec]
  cases (I.view t).pagePtrsGetField plat.nSlicesPort1 req.rabMapping <;> rfl

theorem triple_sliceGet {Q : Except Err SliceReq → τ → Prop}
    (hsome : ∀ t k, P t → (I.view t).sliceGet req (req.rabPort.nSlices plat) = some k →
      Q (.ok { req with rabSlice := k }) t)
    (hnone : ∀ t, P t → (I.view t).sliceGet req (req.rabPort.nSlices plat) = none →
      Q (.error .noSlice) t) : I.Triple ok good P (sliceGet plat req) Q := by
  rw [sliceGet_eq]
  refine Interp.Triple.read fun s => ?_
  cases hk : s.sliceGet req (req.rabPort.nSlices plat) with
  | none => exact .fail fun t ht => hnone t ht.1 (by rw [ht.2, hk])
  | some k =>
    apply Interp.Triple.ret
    intro t ht
    exact hsome t k ht.1 (by rw [ht.2, hk])

theorem triple_pagePtrsGetField {Q : Except Err SliceReq → τ → Prop}
    (hsome : ∀ t i, P t →
      (I.view t).pagePtrsGetField plat.nSlicesPort1 req.rabMapping = some i →
      Q (.ok { req with pagePtrIdx := i }) t)
    (hnone : ∀ t, P t →
      (I.view t).pagePtrsGetField plat.nSlicesPort1 req.rabMapping = none → Q (.error .eio) t) :
    I.Triple ok good P (pagePtrsGetField plat req) Q := by
  rw [pagePtrsGetField_eq]
  refine Interp.Triple.read fun s => ?_
  cases hi : s.pagePtrsGetField plat.nSlicesPort1 req.rabMapping with
  | none => exact .fail fun t ht => hnone t ht.1 (by rw [ht.2, hi])
  | some i =>
    apply Interp.Triple.ret
    intro t ht
    exact hsome t i ht.1 (by rw [ht.2, hi])

theorem triple_sliceSetup {Q : Except Err Unit → τ → Prop}
    (hgood : ∀ t, P t → ok t (.sliceSetup req pages) → good t (.sliceSetup req pages))
    (h : ∀ t, P t → ok t (.sliceSetup req pages) →
      Q (if (I.view t).sliceSetupRefused req then .error .eio else .ok ())
        (I.step t (.sliceSetup req pages))) :
    I.Triple ok good P (sliceSetup req pages) Q := by
  refine Interp.Triple.read fun s => ?_
  show I.Triple ok good _ (Prog.call (.sliceSetup req pages)
    (if s.sliceSetupRefused req then Prog.fail Err.eio else Prog.ret ())) Q
  apply Interp.Triple.call fun t ht hok => hgood t ht.1 hok
  cases hr : s.sliceSetupRefused req with
  | true =>
    apply Interp.Triple.fail
    intro t' ht'
    obtain ⟨t, ht, hok, rfl⟩ := ht'
    have hq := h t ht.1 hok
    rwa [ht.2, hr] at hq
  | false =>
    apply Interp.Triple.ret
    intro t' ht'
    obtain ⟨t, ht, hok, rfl⟩ := ht'
    have hq := h t ht.1 hok
    rwa [ht.2, hr] at hq

/-- Freeing and setting up a slice; `R` holds in between. -/
theorem triple_sliceReplace {R : τ → Prop} {Q : Except Err Unit → τ → Prop}
    (hfree : ∀ t, P t → ok t (.sliceFree req) →
      good t (.sliceFree req) ∧ R (I.step t (.sliceFree req)))
    (hsetup : I.Triple ok good R (sliceSetup req pages) Q) :
    I.Triple ok good P (sliceReplace req pages) Q := by
  apply Interp.Triple.call fun t ht hok => (hfree t ht hok).1
  apply hsetup.conseq ?_ fun _ _ h => h
  intro t' ht'
  obtain ⟨t, ht, hok, rfl⟩ := ht'
  exact (hfree t ht hok).2

theorem triple_memGetUserPages {user : UserPages} {addrStart nPages : Nat}
    {Q : Except Err PageArray → τ → Prop}
    (hgood : ∀ t, P t → ok t (.getUserPages nPages (min user.got nPages)) →
      good t (.getUserPages nPages (min user.got nPages)))
    (hpages : ∀ t, P t → ok t (.getUserPages nPages (min user.got nPages)) →
      Q (.ok ⟨(I.view t).kernel.nextArray, addrStart, nPages⟩)
        (I.step t (.getUserPages nPages (min user.got nPages))))
    (hnone : ∀ t, P t → Q (.error .enomem) t) :
    I.Triple ok good P (memGetUserPages user addrStart nPages) Q := by
  unfold memGetUserPages
  cases user.alloc with
  | false => exact .fail hnone
  | true =>
    refine Interp.Triple.read fun s => ?_
    apply Interp.Triple.call fun t ht hok => hgood t ht.1 hok
    apply Interp.Triple.ret
    intro t' ht'
    obtain ⟨t, ht, hok, rfl⟩ := ht'
    rw [← ht.2]
    exact hpages t ht.1 hok

/-- The comparison of dates in `pulp_rab_slice_check` -/
def Expired (cur exp : Nat) : Prop := cur > exp ∨ cur = 0 ∧ exp = maxDateMh

instance (cur exp : Nat) : Decidable (Expired cur exp) := inferInstanceAs (Decidable (_ ∨ _))

theorem sliceCheck_of_not_expired {s : RabState} (hport : req.rabPort = .port1)
    (h : ¬ Expired req.dateCur (s.slice req.rabMapping req.rabSlice).dateExp) :
    s.sliceCheck req = false := by
  rw [Expired, not_or, not_and] at h
  obtain ⟨hgt, hzero⟩ := h
  have hzero' : ¬ (req.dateCur = 0 ∧ maxDateMh = (s.slice req.rabMapping req.rabSlice).dateExp) :=
    fun hz => hzero hz.1 hz.2.symm
  simp [RabState.sliceCheck, RabState.entry, hport, hgt, hzero']

theorem expired_of_sliceCheck {s : RabState} (hport : req.rabPort = .port1) (h : s.sliceCheck req) :
    Expired req.dateCur (s.slice req.rabMapping req.rabSlice).dateExp := by
  by_contra hno
  rw [sliceCheck_of_not_expired hport hno] at h
  cases h

/-- What `pulp_rab_slice_get` finds is a slice in range that the host manages and that has expired. -/
theorem RabState.sliceGet_spec {s : RabState} {n k : Nat} (h : s.sliceGet req n = some k) :
    k < n ∧ s.sliceCheck { req with rabSlice := k } ∧
      s.sliceIsManagedByHost { req with rabSlice := k } := by
  unfold RabState.sliceGet at h
  have hmem := List.mem_of_find?_eq_some h
  have hp := List.find?_some h
  rw [Bool.and_eq_true_iff] at hp
  exact ⟨List.mem_range.mp hmem, hp⟩

theorem RabState.pagePtrsGetField_spec {s : RabState} {n m i : Nat}
    (h : s.pagePtrsGetField n m = some i) : i < n ∧ s.refCntr m i = 0 := by
  unfold RabState.pagePtrsGetField at h
  exact ⟨List.mem_range.mp (List.mem_of_find?_eq_some h), by simpa using List.find?_some h⟩

section

variable {s : RabState}

theorem sliceCheck_unfixed_iff (hport : req.rabPort = .port1) (hfixed : req.flagsDrv.has drvFixed = false) :
    s.sliceCheck req = true ↔ Expired req.dateCur (s.slice req.rabMapping req.rabSlice).dateExp ∧
      (s.slice req.rabMapping req.rabSlice).fixed = false := by
  simp only [RabState.sliceCheck, RabState.entry, hport, hfixed, Expired]
  simp [eq_comm (a := maxDateMh)]

theorem sliceCheck_fixed_iff (hfixed : req.flagsDrv.has drvFixed = true) :
    s.sliceCheck req = true ↔ Expired req.dateCur (s.entry req).dateExp := by
  simp only [RabState.sliceCheck, hfixed, Expired]
  simp [eq_comm (a := maxDateMh)]

theorem RabState.sliceGet_first {n k : Nat} (h : s.sliceGet req n = some k) {r : Nat} (hr : r < k)
    (hmanaged : s.sliceIsManagedByHost { req with rabSlice := r } = true) :
    s.sliceCheck { req with rabSlice := r } = false := by
  rw [RabState.sliceGet, List.find?_range_eq_some] at h
  have hno := h.2.2 r hr
  simpa [hmanaged] using hno

theorem RabState.sliceGet_none {n : Nat} (h : s.sliceGet req n = none) {r : Nat} (hr : r < n)
    (hmanaged : s.sliceIsManagedByHost { req with rabSlice := r } = true) :
    s.sliceCheck { req with rabSlice := r } = false := by
  rw [RabState.sliceGet, List.find?_eq_none] at h
  have hno := h r (List.mem_range.mpr hr)
  simpa [hmanaged] using hno

theorem replace_slice (hp : req.rabPort = .port1) (m k : Nat) :
    ((s.sliceFree req).sliceSetup req pages).slice m k =
      if m = req.rabMapping ∧ k = req.rabSlice then req.entry else s.slice m k := by
  rw [RabState.sliceSetup_slice]
  by_cases h : m = req.rabMapping ∧ k = req.rabSlice
  · rw [if_pos ⟨hp, h⟩, if_pos h]
  · rw [if_neg fun h' => h h'.2, if_neg h, RabState.sliceFree_slice, if_neg fun h' => h h'.2.2]

theorem replace_ctrl : ((s.sliceFree req).sliceSetup req pages).ctrl = s.ctrl := by
  rw [((s.sliceFree req).sliceSetup_frame req pages).2.1, (s.sliceFree_frame req).2.1]

end

/-- Calls on slices and pages alone. -/
def Call.OnSlices : Call → Prop
  | .getUserPages _ _ | .sliceFree _ | .sliceSetup _ _ => True
  | _ => False

theorem Call.OnSlices.ctrl {s : RabState} {c : Call} (hc : c.OnSlices) :
    (s.step plat c).ctrl = s.ctrl := by
  cases c with
  | getUserPages nPages got => rfl
  | sliceFree req => exact (s.sliceFree_frame req).2.1
  | sliceSetup req pages => exact (s.sliceSetup_frame req pages).2.1
  | mappingSwitch m => cases hc
  | setStripeReq m elements => cases hc
  | setSocMh ena reserved => cases hc
  | setMh date acp lvl => cases hc
  | report err => cases hc

section

private theorem onSlices_pagePtrsGetField : (pagePtrsGetField plat req).Only Call.OnSlices := by
  rw [pagePtrsGetField_eq]
  intro s
  simp only
  cases s.pagePtrsGetField plat.nSlicesPort1 req.rabMapping <;> trivial

private theorem onSlices_sliceGet : (sliceGet plat req).Only Call.OnSlices := by
  rw [sliceGet_eq]
  intro s
  simp only
  cases s.sliceGet req (req.rabPort.nSlices plat) <;> trivial

private theorem onSlices_sliceReplace : (sliceReplace req pages).Only Call.OnSlices := by
  refine ⟨trivial, ?_⟩
  intro s
  change Prog.Only _ (Prog.call (Call.sliceSetup req pages)
    (if s.sliceSetupRefused req then Prog.fail Err.eio else Prog.ret ()))
  refine ⟨trivial, ?_⟩
  split <;> trivial

private theorem onSlices_take : ((sliceGet plat req).bind fun req =>
    (sliceReplace req pages).bind fun _ => Prog.ret req).Only Call.OnSlices :=
  onSlices_sliceGet.bind fun _ => onSlices_sliceReplace.bind fun _ => trivial

private theorem onSlices_reqMappings (i : Nat) : (reqMappings plat pages i req).Only Call.OnSlices := by
  apply Prog.Only.foldl
  intro req j _
  rw [reqMapping]
  generalize (if req.rabPort = .port1 ∧ req.flagsDrv.has drvEvery then
    { req with rabMapping := j } else req) = start
  split
  · split
    · exact onSlices_pagePtrsGetField.bind fun _ => onSlices_take
    · exact onSlices_take
  · trivial

theorem onSlices_rabReq (user : UserPages) : (rabReq plat user req).Only Call.OnSlices := by
  rw [rabReq]
  generalize req.withType = req
  split
  · exact onSlices_reqMappings 0
  · apply Prog.Only.bind
    · rw [memGetUserPages]
      split
      · intro s
        exact ⟨trivial, trivial⟩
      · trivial
    · intro pages
      exact Prog.Only.foldl (fun _ i _ => onSlices_reqMappings i) req

theorem onSlices_rabSetup (stack : SliceReq) : (rabSetup plat stack).Only Call.OnSlices := by
  rw [rabSetup]
  apply (onSlices_rabReq noPages).bind
  intro _
  apply (onSlices_rabReq noPages).bind
  intro _
  apply (onSlices_rabReq noPages).bind
  intro _
  apply (onSlices_rabReq noPages).bind
  intro _
  split
  · exact (onSlices_rabReq noPages).bind fun _ => trivial
  · trivial

end

section

/-- The request for the first mapping that is not there yet. -/
theorem reqMapping_first (hport : req.rabPort = .port1)
    (hevery : req.flagsDrv.has drvEvery = true) (j : Nat) : reqMapping plat pages 0 req j =
      (pagePtrsGetField plat { req with rabMapping := j }).bind fun req =>
        (sliceGet plat req).bind fun req => (sliceReplace req pages).bind fun _ => Prog.ret req := by
  have hstart : (if req.rabPort = .port1 ∧ req.flagsDrv.has drvEvery then
      { req with rabMapping := j } else req) = { req with rabMapping := j } := if_pos ⟨hport, hevery⟩
  rw [reqMapping]
  generalize (if req.rabPort = .port1 ∧ req.flagsDrv.has drvEvery then
    { req with rabMapping := j } else req) = start at hstart ⊢
  subst hstart
  rw [if_pos rfl, if_pos ⟨rfl, hport⟩]
  rfl

theorem reqMapping_port0 (hport : req.rabPort = .port0) (j : Nat) :
    reqMapping plat pages 0 req j = if req.rabMapping = j then
      (sliceGet plat req).bind fun req => (sliceReplace req pages).bind fun _ => Prog.ret req
      else Prog.ret req := by
  have hno : ¬ req.rabPort = .port1 := by simp [hport]
  have hstart : (if req.rabPort = .port1 ∧ req.flagsDrv.has drvEvery then
      { req with rabMapping := j } else req) = req := if_neg fun h => hno h.1
  rw [reqMapping]
  generalize (if req.rabPort = .port1 ∧ req.flagsDrv.has drvEvery then
    { req with rabMapping := j } else req) = start at hstart ⊢
  subst hstart
  split
  · rw [if_neg fun h => hno h.2]
    rfl
  · rfl

variable {s : RabState}

/-- What freeing and setting up a slice leaves. -/
theorem triple_replace_to : (driver plat).Triple Interp.always Interp.always (fun s' => s' = s)
    (sliceReplace req pages) fun r s' => s' = (s.sliceFree req).sliceSetup req pages ∧
      ((s.sliceFree req).sliceSetupRefused req = false → r = .ok ()) := by
  apply triple_sliceReplace (R := fun s' => s' = s.sliceFree req)
  · rintro s' rfl _
    exact ⟨trivial, rfl⟩
  · apply triple_sliceSetup fun _ _ _ => trivial
    rintro s' rfl _
    refine ⟨rfl, fun hrefused => ?_⟩
    change (s.sliceFree req).sliceSetupRefused req = false at hrefused
    rw [if_neg (by simp [driver, hrefused])]

end

/-- A condition on requests that the choice of a mapping, a slot and an index keeps. -/
def FreeChoice (G : SliceReq → Prop) : Prop := ∀ (req : SliceReq) (m k i : Nat), G req →
  G { req with rabMapping := m, rabSlice := k, pagePtrIdx := i }

/-- Replacing an expired slice that the host manages keeps `P`. -/
def ReplaceKeeps (G : SliceReq → Prop) (P : RabState → Prop) : Prop :=
  ∀ (s : RabState) (req : SliceReq) (pages : Option PageArray), G req →
    s.sliceCheck req = true → s.sliceIsManagedByHost req = true → P s →
      P ((s.sliceFree req).sliceSetup req pages)

/-- What a request keeps while it goes on, and when it fails. -/
def Goes (G : SliceReq → Prop) (P : RabState → Prop) (r : Except Err SliceReq) (s : RabState) : Prop :=
  P s ∧ match r with
    | .ok req => G req
    | .error _ => True

section

variable {G : SliceReq → Prop} {P : RabState → Prop}

private theorem triple_take (hG : FreeChoice G) (hP : ReplaceKeeps G P) (hreq : G req) :
    (driver plat).Triple Interp.always Interp.always P
      ((sliceGet plat req).bind fun req => (sliceReplace req pages).bind fun _ => Prog.ret req)
      (Goes G P) := by
  apply Interp.Triple.bind (R := fun req' s => P s ∧ G req' ∧ s.sliceCheck req' = true ∧
    s.sliceIsManagedByHost req' = true)
  · apply triple_sliceGet
    · intro s k hs hk
      exact ⟨hs, hG req req.rabMapping k req.pagePtrIdx hreq, (RabState.sliceGet_spec hk).2⟩
    · exact fun s hs _ => ⟨hs, trivial⟩
  intro req'
  apply Interp.Triple.of_states
  rintro s ⟨hs, hreq', hcheck, hhost⟩
  apply Interp.Triple.bind (R := fun _ => P)
  · apply triple_replace_to.conseq fun _ h => h
    rintro r s' ⟨rfl, -⟩
    have hs' := hP s req' pages hreq' hcheck hhost hs
    cases r with
    | ok _ => exact hs'
    | error e => exact ⟨hs', trivial⟩
  · intro _
    exact Interp.Triple.ret fun s' hs' => ⟨hs', hreq'⟩

theorem triple_reqMapping_keeps (hG : FreeChoice G) (hP : ReplaceKeeps G P) (hreq : G req) (i j : Nat) :
    (driver plat).Triple Interp.always Interp.always P (reqMapping plat pages i req j) (Goes G P) := by
  have hstart : G (if req.rabPort = .port1 ∧ req.flagsDrv.has drvEvery then
      { req with rabMapping := j } else req) := by
    split
    · exact hG req j req.rabSlice req.pagePtrIdx hreq
    · exact hreq
  rw [reqMapping]
  generalize (if req.rabPort = .port1 ∧ req.flagsDrv.has drvEvery then
    { req with rabMapping := j } else req) = start at hstart ⊢
  split
  · split
    · apply Interp.Triple.bind (R := fun req' s => P s ∧ G req')
      · apply triple_pagePtrsGetField
        · intro s i hs _
          exact ⟨hs, hG start start.rabMapping start.rabSlice i hstart⟩
        · exact fun s hs _ => ⟨hs, trivial⟩
      · intro req'
        apply Interp.Triple.of_states
        rintro s ⟨hs, hreq'⟩
        apply (triple_take hG hP hreq').conseq
        · rintro s' rfl
          exact hs
        · exact fun _ _ h => h
    · exact triple_take hG hP hstart
  · exact Interp.Triple.ret fun s hs => ⟨hs, hstart⟩

theorem triple_foldl_keeps {α : Type} {f : SliceReq → α → Op SliceReq}
    (hf : ∀ req x, G req →
      (driver plat).Triple Interp.always Interp.always P (f req x) (Goes G P))
    (hreq : G req) (xs : List α) :
    (driver plat).Triple Interp.always Interp.always P (Prog.foldl f req xs) (Goes G P) := by
  apply Interp.Triple.conseq (Interp.Triple.foldl (R := fun _ _ req' => Goes G P (.ok req')) xs ?_ ?_ req)
    (fun s hs => ⟨hs, hreq⟩) fun _ _ h => h
  · intro pre x post req' _
    apply Interp.Triple.of_states
    rintro s ⟨hs, hreq'⟩
    apply (hf req' x hreq').conseq
    · rintro s' rfl
      exact hs
    · intro r s' hs'
      cases r <;> exact hs'
  · exact fun _ _ h => h

theorem triple_segment_keeps (hG : FreeChoice G) (hP : ReplaceKeeps G P) (hreq : G req) (i : Nat) :
    (driver plat).Triple Interp.always Interp.always P (reqMappings plat pages i req) (Goes G P) :=
  triple_foldl_keeps (fun _ j hreq => triple_reqMapping_keeps hG hP hreq i j) hreq _

/-- A request keeps what every replacement of an expired slice keeps. -/
theorem triple_rabReq_keeps {date : Nat} (user : UserPages) (hdate : req.dateCur = date)
    (hpages : ∀ s n, P s → P (RabState.getUserPages s n))
    (hP : ReplaceKeeps (fun req => req.dateCur = date) P) :
    (driver plat).Triple Interp.always Interp.always P (rabReq plat user req) fun _ => P := by
  have hG : FreeChoice fun req => req.dateCur = date := fun _ _ _ _ h => h
  have hkeeps : ∀ (pages : Option PageArray) (i : Nat) (req : SliceReq), req.dateCur = date →
      (driver plat).Triple Interp.always Interp.always P (reqMappings plat pages i req)
        (Goes (fun req => req.dateCur = date) P) :=
    fun pages i req hreq => triple_segment_keeps hG hP hreq i
  rw [rabReq]
  have htype : req.withType.dateCur = date := hdate
  generalize req.withType = req at htype
  split
  · apply (hkeeps none 0 _ _).conseq (fun _ h => h) fun _ _ h => h.1
    exact htype
  · apply Interp.Triple.bind (R := fun _ => P)
    · exact triple_memGetUserPages (fun _ _ _ => trivial) (fun s hs _ => hpages s _ hs) fun _ hs => hs
    · intro pages
      apply Interp.Triple.conseq (Q := Goes (fun req => req.dateCur = date) P) ?_ (fun _ h => h)
        fun _ _ h => h.1
      apply triple_foldl_keeps ?_ htype
      intro req i hreq
      exact hkeeps _ i _ hreq

/-- `pulp_rab_free` keeps what freeing an expired slice keeps. -/
theorem triple_rabFree_keeps {date : Nat} (stack : SliceReq) (fixed : Bool)
    (hP : ∀ s req, req.dateCur = u8 date → s.sliceCheck req = true → P s → P (s.sliceFree req)) :
    (driver plat).Triple Interp.always Interp.always P (rabFree plat stack date fixed) fun _ => P := by
  have hfree : ∀ req : SliceReq, req.dateCur = u8 date →
      (driver plat).Triple Interp.always Interp.always P (freeExpired req) fun _ => P := by
    intro req hreq
    apply Interp.Triple.read
    intro s
    change (driver plat).Triple _ _ _ (if s.sliceCheck req then Prog.issue (.sliceFree req)
      else Prog.ret ()) _
    split
    · next hcheck =>
      apply Interp.Triple.issue fun _ _ _ => trivial
      rintro s' ⟨hs, rfl⟩ _
      exact hP s' req hreq hcheck hs
    · exact Interp.Triple.ret fun _ hs => hs.1
  apply Interp.Triple.bind_keeps
  · exact Interp.Triple.loop (fun _ k => hfree _ rfl) _ ()
  · intro _
    apply Interp.Triple.loop
    intro _ j
    apply Interp.Triple.loop
    intro _ k
    apply Interp.Triple.read
    intro s
    exact (hfree _ rfl).conseq (fun _ h => h.1) fun _ _ h => h

end

end Hero.Rab
