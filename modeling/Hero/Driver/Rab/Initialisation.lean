import Hero.Driver.Rab.DefaultMappings

/-!
# Initialisation over a live state

The initialisation overwrites all bookkeeping.  Nothing is lost exactly where nothing but default
mappings was there.
-/

namespace Hero.Rab

open Driver Flags Interp

/-- `pulp_rab_init`; the two request structures are uninitialised on entry. -/
def RabState.rabInit (plat : Platform) (stack stackDis : SliceReq) (s : RabState) : RabState :=
  ((driver plat).exec ((rabSetup plat stack).bind fun _ =>
    (rabSocMhDis plat stackDis).handle fun _ => Prog.ret ()) (s.initManagement plat)).2

/-- `pulp_rab_slice_get` accepts the slot for every later request. -/
def Available (s : RabState) (port : Port) (m k : Nat) : Prop :=
  ∀ req : SliceReq, 0 < req.dateCur → req.rabPort = port → req.rabMapping = m → req.rabSlice = k →
    s.sliceCheck req = true ∧ s.sliceIsManagedByHost req = true

/-- A slot of the shadow releases the page when it is freed. -/
def HeldBySlot (plat : Platform) (s : RabState) (p : Pin) : Prop :=
  ∃ m < nMappingsPort1, ∃ k < plat.nSlicesPort1, ∃ pages,
    s.pagePtr m (s.slice m k).pagePtrIdx = some pages ∧ p.array = pages.id ∧
      (s.slice m k).pageIdxStart ≤ p.idx ∧ p.idx ≤ (s.slice m k).pageIdxEnd

/-- The shadow describes the hardware, and nothing is lost. -/
structure Restarted (plat : Platform) (s : RabState) : Prop where
  hwPort0 : ∀ k < nSlicesPort0, Agrees (s.hw .port0 k) (s.l1.port0 k)
  hwPort1 : Coherent plat s
  pins : ∀ p, 0 < s.pins p → HeldBySlot plat s p
  port0 : ∀ k < nSlicesPort0, (s.l1.port0 k).IsDefault ∨ Available s .port0 0 k
  port1 : ∀ m < nMappingsPort1, ∀ k < plat.nSlicesPort1,
    (s.slice m k).IsDefault ∨ Available s .port1 m k

/-- Nothing is live but default mappings. -/
structure OnlyDefaults (plat : Platform) (s : RabState) : Prop where
  pins : ∀ p, s.pins p ≤ 0
  hwPort0 : ∀ k < nSlicesPort0, nDefaultsPort0 ≤ k → ¬ (s.hw .port0 k).flags.has hwEn
  hwPort1 : ∀ k < plat.nSlicesPort1, plat.nDefaultsPort1 ≤ k →
    s.ctrl.socMhIsEna = true ∨ ¬ (s.hw .port1 k).flags.has hwEn
  fixedPort0 : ∀ k < nSlicesPort0, nDefaultsPort0 ≤ k → (s.l1.port0 k).fixed = false
  fixedPort1 : ∀ m < nMappingsPort1, ∀ k < plat.nSlicesPort1, plat.nDefaultsPort1 ≤ k →
    (s.slice m k).fixed = false
  soc : plat.nDefaultsPort1 = 1 ∨ s.ctrl.socMhIsEna = false

section

variable {plat : Platform} {s₀ s : RabState} {a : Nat} {b : Nat → Nat}

/-- The request that frees slice `i` when the SoC stops handling misses. -/
def disReq (stack : SliceReq) (i : Nat) : SliceReq :=
  { stack with rabPort := .port1, rabMapping := 0, rabSlice := i, flagsDrv := drvConst }

/-- The loop of `pulp_rab_soc_mh_dis` -/
def disSlices (stack : SliceReq) (reserved : Nat) : Op Unit :=
  Prog.foldl (fun _ i => Prog.issue (.sliceFree (disReq stack i))) () (List.range' 1 (reserved - 1))

private theorem exec_socMhDis_disabled (stack : SliceReq) (hena : s.ctrl.socMhIsEna = false) :
    (driver plat).exec (rabSocMhDis plat stack) s = (.error .ealready, s) := by
  change (driver plat).exec (if s.ctrl.socMhIsEna = true then _ else _) s = _
  rw [if_neg (by simp [hena])]
  rfl

private theorem exec_socMhDis_enabled (stack : SliceReq) (hena : s.ctrl.socMhIsEna = true)
    (hok : ((driver plat).exec (disSlices stack s.ctrl.nSlicesReservedForHost) s).1 = .ok ()) :
    (driver plat).exec (rabSocMhDis plat stack) s = (.ok (),
      ((driver plat).exec (disSlices stack s.ctrl.nSlicesReservedForHost) s).2.step plat
        (.setSocMh false plat.nSlicesPort1)) := by
  change (driver plat).exec (if s.ctrl.socMhIsEna = true then
    (disSlices stack s.ctrl.nSlicesReservedForHost).bind fun _ =>
      Prog.issue (.setSocMh false plat.nSlicesPort1) else _) s = _
  rw [if_pos hena, exec_bind]
  generalize (driver plat).exec (disSlices stack s.ctrl.nSlicesReservedForHost) s = out at hok ⊢
  obtain ⟨r, u⟩ := out
  obtain rfl : r = .ok () := hok
  rfl

/-- What `pulp_rab_init` leaves if the SoC handled misses: the slices after the first are freed. -/
private structure Unplaced (plat : Platform) (s₀ : RabState) (n : Nat) (s : RabState) : Prop where
  port0 : s.l1.port0 = s₀.l1.port0
  hw0 : s.hw .port0 = s₀.hw .port0
  slice : ∀ m k, s.slice m k =
    if m = 0 ∧ 1 ≤ k ∧ k < n + 1 then (s₀.slice m k).cleared else s₀.slice m k
  hw : ∀ k, s.hw .port1 k =
    if 1 ≤ k ∧ k < n + 1 then (s₀.hw .port1 k).withFlags 0#8 else s₀.hw .port1 k
  pagePtr : ∀ m i, s.pagePtr m i = none
  active : s.l1.mappingActive = 0
  ctrl : s.ctrl = s₀.ctrl
  pins : ∀ p, s.pins p = s₀.pins p

private theorem Unplaced.free (h : Unplaced plat s₀ a s) (stack : SliceReq)
    (hreserved : s₀.ctrl.nSlicesReservedForHost = plat.nSlicesPort1) (ha : a + 1 < plat.nSlicesPort1) :
    Unplaced plat s₀ (a + 1) (s.sliceFree (disReq stack (a + 1))) := by
  have hmanaged : s.sliceIsManagedByHost (disReq stack (a + 1)) = true := by
    simp [RabState.sliceIsManagedByHost, disReq, h.ctrl, hreserved, ha]
  have hpages : s.pagesOld (disReq stack (a + 1)) = none := h.pagePtr _ _
  have hclears : s.clearsHw (disReq stack (a + 1)) = true := by
    have hconst : Flags.has drvConst drvConst = true := by decide
    rw [RabState.clearsHw, hmanaged, if_pos (Or.inr ⟨rfl, hconst⟩), h.active]
    rfl
  have hframe := s.sliceFree_frame (disReq stack (a + 1))
  constructor
  · funext k
    rw [RabState.sliceFree_entry0, if_neg fun hno => Port.noConfusion hno.1, h.port0]
  · funext k
    rw [RabState.sliceFree_hw, if_neg fun hno => Port.noConfusion hno.2.1, h.hw0]
  · intro m k
    rw [RabState.sliceFree_slice, h.slice]
    by_cases hk : m = 0 ∧ k = a + 1
    · rw [if_pos ⟨hmanaged, rfl, hk⟩, if_neg (by omega), if_pos (by omega)]
    · rw [if_neg fun hno => hk hno.2.2]
      by_cases hlt : m = 0 ∧ 1 ≤ k ∧ k < a + 1
      · rw [if_pos hlt, if_pos (by omega)]
      · rw [if_neg hlt, if_neg (by omega)]
  · intro k
    rw [RabState.sliceFree_hw, h.hw]
    by_cases hk : k = a + 1
    · rw [if_pos ⟨hclears, rfl, hk⟩, if_neg (by omega), if_pos (by omega)]
    · rw [if_neg fun hno => hk hno.2.2]
      by_cases hlt : 1 ≤ k ∧ k < a + 1
      · rw [if_pos hlt, if_pos (by omega)]
      · rw [if_neg hlt, if_neg (by omega)]
  · intro m i
    rw [RabState.sliceFree_pagePtr]
    split
    · rfl
    · exact h.pagePtr m i
  · rw [hframe.1, h.active]
  · rw [hframe.2.1, h.ctrl]
  · intro p
    rw [RabState.pins, RabState.sliceFree_put, hframe.2.2.1, ← h.pins p]
    simp [RabState.released, hpages, RabState.pins]

private theorem triple_disSlices (stack : SliceReq) (pages : ∀ m i, s.pagePtr m i = none)
    (hactive : s.l1.mappingActive = 0)
    (hreserved : s.ctrl.nSlicesReservedForHost = plat.nSlicesPort1) :
    (driver plat).Triple always always (fun s' => s' = s) (disSlices stack plat.nSlicesPort1)
      fun r s' => r = .ok () ∧ Unplaced plat s (plat.nSlicesPort1 - 1) s' := by
  have hstart : Unplaced plat s 0 s :=
    ⟨rfl, rfl, fun m k => by rw [if_neg (by omega)], fun k => by rw [if_neg (by omega)], pages, hactive,
      rfl, fun _ => rfl⟩
  apply Triple.conseq (Triple.foldl (R := fun pre _ _ s' => Unplaced plat s pre.length s') _ ?_ ?_ ())
    (fun s' hs' => hs' ▸ hstart) fun _ _ h => h
  · intro pre i post _ hxs
    have hlen := congrArg List.length hxs
    rw [List.length_range', List.length_append, List.length_cons] at hlen
    have hi : i = pre.length + 1 := by
      have hget := congrArg (fun xs => xs[pre.length]?) hxs
      simp only [List.getElem?_append_right le_rfl, Nat.sub_self, List.getElem?_cons_zero] at hget
      rw [List.getElem?_range' (by omega)] at hget
      cases hget
      omega
    apply Triple.issue fun _ _ _ => trivial
    intro s' hs' _
    rw [List.length_append, hi]
    exact hs'.free stack hreserved (by omega)
  · intro _ s' hs'
    rw [List.length_range'] at hs'
    exact ⟨rfl, hs'⟩

theorem available_iff {port : Port} {m k : Nat} {e : L1EntryPort0}
    (he : ∀ req : SliceReq, req.rabPort = port → req.rabMapping = m → req.rabSlice = k →
      s.entry req = e ∧ s.sliceIsManagedByHost req = true) :
    Available s port m k ↔ e.fixed = false ∧ e.dateExp = 0 := by
  constructor
  · intro h
    have hno : Flags.has 0#8 drvFixed = false := by decide
    have hentry := (he { SliceReq.blank with dateCur := 1, rabPort := port, rabMapping := m, rabSlice := k }
      rfl rfl rfl).1
    have hcheck := (h { SliceReq.blank with dateCur := 1, rabPort := port, rabMapping := m, rabSlice := k }
      Nat.one_pos rfl rfl rfl).1
    rw [RabState.sliceCheck, hentry] at hcheck
    simp [SliceReq.blank, hno] at hcheck
    exact ⟨hcheck.2, hcheck.1⟩
  · rintro ⟨hfixed, hdate⟩ req hpos hport hm hk
    refine ⟨?_, (he req hport hm hk).2⟩
    simp [RabState.sliceCheck, (he req hport hm hk).1, hfixed, hdate, hpos]

private theorem available_port0_iff (k : Nat) :
    Available s .port0 0 k ↔ (s.l1.port0 k).fixed = false ∧ (s.l1.port0 k).dateExp = 0 :=
  available_iff fun req hport _ hk => by
    simp [RabState.entry, RabState.sliceIsManagedByHost, hport, hk]

private theorem available_port1_iff (hena : s.ctrl.socMhIsEna = false) (m k : Nat) :
    Available s .port1 m k ↔ (s.slice m k).fixed = false ∧ (s.slice m k).dateExp = 0 :=
  available_iff fun req hport hm hk => by
    simp [RabState.entry, RabState.sliceIsManagedByHost, hport, hm, hk, hena]

private theorem not_isDefault_cleared (e : L1EntryPort0) : ¬ e.cleared.IsDefault := by
  intro h
  have := h.dateExp
  cases this

private theorem agrees_cleared (h : HwSlice) (e : L1EntryPort0) :
    Agrees h e.cleared ↔ ¬ h.flags.has hwEn = true := by
  have hno : Flags.has 0#8 hwEn = false := by decide
  simp [Agrees, L1EntryPort0.cleared, hno]

/-- Without lists of pages, no slot of the shadow releases a page. -/
private theorem not_heldBySlot (hpages : ∀ m i, s.pagePtr m i = none) (p : Pin) :
    ¬ HeldBySlot plat s p := by
  rintro ⟨m, -, k, -, pages, hptr, -⟩
  rw [hpages] at hptr
  cases hptr

private theorem Placed.restarted_iff (h : Placed plat s₀ nDefaultsPort0 b s)
    (hb : ∀ m < nMappingsPort1, b m = plat.nDefaultsPort1) (hena : s₀.ctrl.socMhIsEna = false) :
    Restarted plat s ↔ OnlyDefaults plat s₀ := by
  have hena' : s.ctrl.socMhIsEna = false := h.socMh.trans hena
  have hb0 : b 0 = plat.nDefaultsPort1 := hb 0 (by decide)
  constructor
  · intro hr
    refine ⟨?_, ?_, ?_, ?_, ?_, Or.inr hena⟩
    · intro p
      by_contra hpos
      exact not_heldBySlot h.pagePtr p (hr.pins p (by rw [h.pins]; omega))
    · intro k hk hge
      have hagrees := hr.hwPort0 k hk
      rw [(h.port0Rest k hge).1, (h.port0Rest k hge).2, agrees_cleared] at hagrees
      exact hagrees
    · intro k hk hge
      have hagrees := hr.hwPort1 k hk
      rw [h.active, h.sliceRest 0 k (hb0 ▸ hge), h.hwRest k (hb0 ▸ hge)] at hagrees
      exact Or.inr ((agrees_cleared _ _).mp hagrees)
    · intro k hk hge
      have hslot := hr.port0 k hk
      rw [available_port0_iff, (h.port0Rest k hge).1] at hslot
      exact (hslot.resolve_left (not_isDefault_cleared _)).1
    · intro m hm k hk hge
      have hslot := hr.port1 m hm k hk
      rw [available_port1_iff hena', h.sliceRest m k (hb m hm ▸ hge)] at hslot
      exact (hslot.resolve_left (not_isDefault_cleared _)).1
  · intro ho
    refine ⟨?_, ?_, ?_, ?_, ?_⟩
    · intro k hk
      by_cases hge : nDefaultsPort0 ≤ k
      · rw [(h.port0Rest k hge).1, (h.port0Rest k hge).2, agrees_cleared]
        exact ho.hwPort0 k hk hge
      · exact (h.port0 k (by omega)).2
    · intro k hk
      rw [h.active]
      by_cases hge : plat.nDefaultsPort1 ≤ k
      · rw [h.sliceRest 0 k (hb0 ▸ hge), h.hwRest k (hb0 ▸ hge)]
        refine (agrees_cleared _ _).mpr ((ho.hwPort1 k hk hge).resolve_left ?_)
        rw [hena]
        exact Bool.noConfusion
      · exact h.hw k (by omega)
    · intro p hpos
      have hle := ho.pins p
      rw [h.pins] at hpos
      omega
    · intro k hk
      by_cases hge : nDefaultsPort0 ≤ k
      · rw [available_port0_iff, (h.port0Rest k hge).1]
        exact Or.inr ⟨ho.fixedPort0 k hk hge, rfl⟩
      · exact Or.inl (h.port0 k (by omega)).1
    · intro m hm k hk
      have hbm := hb m hm
      by_cases hge : plat.nDefaultsPort1 ≤ k
      · rw [available_port1_iff hena', h.sliceRest m k (hbm ▸ hge)]
        exact Or.inr ⟨ho.fixedPort1 m hm k hk hge, rfl⟩
      · exact Or.inl (h.slice m k (by omega))

/-- The initialisation where the SoC handled misses. -/
private theorem Unplaced.restarted_iff {s' : RabState} (h : Placed plat s₀ nDefaultsPort0 b s)
    (hb : ∀ m < nMappingsPort1, b m = plat.nDefaultsPort1)
    (hun : Unplaced plat s (plat.nSlicesPort1 - 1) s') (hena : s₀.ctrl.socMhIsEna = true) :
    Restarted plat (s'.step plat (.setSocMh false plat.nSlicesPort1)) ↔ OnlyDefaults plat s₀ := by
  have hb0 : b 0 = plat.nDefaultsPort1 := hb 0 (by decide)
  have hpos : 1 ≤ plat.nDefaultsPort1 ∧ 1 < plat.nSlicesPort1 ∧
      (plat.nDefaultsPort1 = 1 ∨ plat.nDefaultsPort1 = 2) := by cases plat <;> decide
  have hena' : (s'.step plat (.setSocMh false plat.nSlicesPort1)).ctrl.socMhIsEna = false := rfl
  constructor
  · intro hr
    refine ⟨?_, ?_, ?_, ?_, ?_, ?_⟩
    · intro p
      by_contra hgt
      have hpins : (s'.step plat (.setSocMh false plat.nSlicesPort1)).pins p = s₀.pins p :=
        (hun.pins p).trans (h.pins p)
      exact not_heldBySlot hun.pagePtr p (hr.pins p (by rw [hpins]; omega))
    · intro k hk hge
      have hagrees := hr.hwPort0 k hk
      change Agrees (s'.hw .port0 k) (s'.l1.port0 k) at hagrees
      rw [hun.port0, hun.hw0, (h.port0Rest k hge).1, (h.port0Rest k hge).2, agrees_cleared] at hagrees
      exact hagrees
    · exact fun k _ _ => Or.inl hena
    · intro k hk hge
      have hslot := hr.port0 k hk
      rw [available_port0_iff] at hslot
      change (s'.l1.port0 k).IsDefault ∨ (s'.l1.port0 k).fixed = false ∧ _ at hslot
      rw [hun.port0, (h.port0Rest k hge).1] at hslot
      exact (hslot.resolve_left (not_isDefault_cleared _)).1
    · intro m hm k hk hge
      have hslot := hr.port1 m hm k hk
      rw [available_port1_iff hena'] at hslot
      change (s'.slice m k).IsDefault ∨ (s'.slice m k).fixed = false ∧ _ at hslot
      have hslice : s'.slice m k = (s₀.slice m k).cleared := by
        rw [hun.slice, h.sliceRest m k (hb m hm ▸ hge)]
        split <;> rfl
      rw [hslice] at hslot
      exact (hslot.resolve_left (not_isDefault_cleared _)).1
    · -- a second default mapping is freed, and marked as fixed
      rcases hpos.2.2 with hone | htwo
      · exact Or.inl hone
      · have hslot := hr.port1 0 (by decide) 1 hpos.2.1
        rw [available_port1_iff hena'] at hslot
        change (s'.slice 0 1).IsDefault ∨ (s'.slice 0 1).fixed = false ∧ _ at hslot
        have hfixed := (h.slice 0 1 (by omega)).fixed
        rw [hun.slice, if_pos (by omega)] at hslot
        rcases hslot with hdefault | ⟨hno, -⟩
        · exact absurd hdefault (not_isDefault_cleared _)
        · change (s.slice 0 1).fixed = false at hno
          rw [hfixed] at hno
          cases hno
  · intro ho
    have hone : plat.nDefaultsPort1 = 1 := by
      refine ho.soc.resolve_right ?_
      rw [hena]
      exact Bool.noConfusion
    refine ⟨?_, ?_, ?_, ?_, ?_⟩
    · intro k hk
      change Agrees (s'.hw .port0 k) (s'.l1.port0 k)
      rw [hun.port0, hun.hw0]
      by_cases hge : nDefaultsPort0 ≤ k
      · rw [(h.port0Rest k hge).1, (h.port0Rest k hge).2, agrees_cleared]
        exact ho.hwPort0 k hk hge
      · exact (h.port0 k (by omega)).2
    · intro k hk
      change Agrees (s'.hw .port1 k) (s'.slice s'.l1.mappingActive k).toL1EntryPort0
      rw [hun.active, hun.hw, hun.slice]
      by_cases hge : 1 ≤ k
      · rw [if_pos (by omega), if_pos (by omega)]
        have hno : ¬ Flags.has 0#8 hwEn = true := by decide
        exact (agrees_cleared _ _).mpr hno
      · rw [if_neg (by omega), if_neg (by omega)]
        exact h.hw k (by omega)
    · intro p hgt
      have hpins : (s'.step plat (.setSocMh false plat.nSlicesPort1)).pins p = s₀.pins p :=
        (hun.pins p).trans (h.pins p)
      have hle := ho.pins p
      omega
    · intro k hk
      rw [available_port0_iff]
      change (s'.l1.port0 k).IsDefault ∨ (s'.l1.port0 k).fixed = false ∧ (s'.l1.port0 k).dateExp = 0
      rw [hun.port0]
      by_cases hge : nDefaultsPort0 ≤ k
      · rw [(h.port0Rest k hge).1]
        exact Or.inr ⟨ho.fixedPort0 k hk hge, rfl⟩
      · exact Or.inl (h.port0 k (by omega)).1
    · intro m hm k hk
      have hbm := hb m hm
      rw [available_port1_iff hena']
      change (s'.slice m k).IsDefault ∨ (s'.slice m k).fixed = false ∧ (s'.slice m k).dateExp = 0
      by_cases hge : plat.nDefaultsPort1 ≤ k
      · have hslice : s'.slice m k = (s₀.slice m k).cleared := by
          rw [hun.slice, h.sliceRest m k (hbm ▸ hge)]
          split <;> rfl
        rw [hslice]
        exact Or.inr ⟨ho.fixedPort1 m hm k hk hge, rfl⟩
      · rw [hun.slice, if_neg (by omega)]
        exact Or.inl (h.slice m k (by omega))

end

/-- The initialisation loses nothing if and only if nothing was live but default mappings. -/
theorem rabInit_restarted_iff (plat : Platform) (stack stackDis : SliceReq) (s : RabState) :
    Restarted plat (s.rabInit plat stack stackDis) ↔ OnlyDefaults plat s := by
  obtain ⟨-, hok, b, hplaced, hb⟩ := (triple_rabSetup plat stack s).run rfl
  rw [RabState.rabInit, exec_bind]
  generalize (driver plat).exec (rabSetup plat stack) (s.initManagement plat) = out at hok hplaced
  obtain ⟨r, s'⟩ := out
  obtain rfl : r = .ok () := hok
  change Restarted plat ((driver plat).exec _ s').2 ↔ _
  rw [exec_handle]
  cases hena : s.ctrl.socMhIsEna with
  | false =>
    rw [exec_socMhDis_disabled stackDis (hplaced.socMh.trans hena)]
    exact hplaced.restarted_iff hb hena
  | true =>
    have hdis : (driver plat).Triple always always (fun u => u = s')
        (disSlices stackDis s'.ctrl.nSlicesReservedForHost) fun r u =>
          r = .ok () ∧ Unplaced plat s' (plat.nSlicesPort1 - 1) u := by
      rw [show s'.ctrl.nSlicesReservedForHost = plat.nSlicesPort1 from hplaced.reserved]
      exact triple_disSlices stackDis hplaced.pagePtr hplaced.active hplaced.reserved
    obtain ⟨-, hok, hun⟩ := hdis.run rfl
    rw [exec_socMhDis_enabled stackDis (hplaced.socMh.trans hena) hok]
    exact Unplaced.restarted_iff hplaced hb hun hena

end Hero.Rab
