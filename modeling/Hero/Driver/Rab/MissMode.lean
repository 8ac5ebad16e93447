import Hero.Driver.Rab.Release
import Hero.Driver.Rab.MissReplacement
import Hero.Framework.Machine

/-!
# Miss-handling mode

Who handles misses, and which slices the host keeps while the SoC does.
-/

namespace Hero.Rab

open Driver Flags Interp

/-- A table of the page table hierarchy as the SoC sees it. -/
structure TableMapping where
  addrStart : Nat
  addrEnd : Nat
  addrOffset : Nat
  deriving DecidableEq, Repr

/-- The tables that are mapped for the SoC: the present ones of the second level, or the first level. -/
def PageTables.mappings (tables : PageTables) (static2nd : Bool) : List TableMapping :=
  if static2nd then
    (List.range tables.pmds.length).filterMap fun i => (tables.pmds.getD i none).map fun pmd =>
      ⟨pgdBaseAddr + i * tables.pmdSizeB, pgdBaseAddr + i * tables.pmdSizeB + (tables.pmdSizeB - 1),
        pmd⟩
  else [⟨pgdBaseAddr, pgdBaseAddr + (tables.pgdSizeB - 1), tables.pgdPa⟩]

/-- Static slices of the second level are only supported on two platforms. -/
def Platform.static2nd (plat : Platform) (static2nd : Bool) : Bool :=
  static2nd && (plat = .juno || plat = .te0808)

def tableFlags : Flags := hwCc ||| hwRead ||| hwEn

/-- The request for a table with the index of its list and the slice. -/
def tableReq (t : TableMapping) (i k : Nat) : SliceReq where
  dateCur := maxDate
  dateExp := maxDate
  pageIdxStart := 0
  pageIdxEnd := 0
  pagePtrIdx := i
  rabPort := .port1
  rabMapping := 0
  rabSlice := k
  flagsDrv := drvConst
  addrStart := t.addrStart
  addrEnd := t.addrEnd
  addrOffset := t.addrOffset
  flagsHw := tableFlags

/-- The request with which `rab_is_ready_for_soc_mh` checks and frees a slice. -/
def readyReq (stackReady : SliceReq) (k : Nat) : SliceReq :=
  { stackReady with dateCur := maxDateMh, rabMapping := 0, rabPort := .port1, rabSlice := k }

/-- What the driver is asked to do; dates have 8 bits. -/
inductive ModeCall where
  | socMhEna (stackReq stackReady : SliceReq) (tables : PageTables) (static2nd : Bool)
  | socMhDis (stack : SliceReq)
  | mhEna (acp : Bool) (lvl : Nat)
  | mhDis
  | req (user : UserPages) (req : SliceReq)
  | free (stack : SliceReq) (date : Nat) (fixed : Bool)

def ModeCall.prog (plat : Platform) : ModeCall → Op Unit
  | socMhEna stackReq stackReady tables static2nd =>
    rabSocMhEna plat stackReq stackReady tables static2nd
  | socMhDis stack => rabSocMhDis plat stack
  | mhEna acp lvl => rabMhEna acp lvl
  | mhDis => rabMhDis
  | req user r => (rabReq plat user { r with dateCur := u8 r.dateCur }).bind fun _ => return ()
  | free stack date fixed => rabFree plat stack date fixed

/-- What the SoC has been given by the last successful `pulp_rab_soc_mh_ena`: the number of slices
that are left to the host, and the tables. -/
structure Given where
  reserved : Nat
  tables : List TableMapping

namespace RabState

variable (plat : Platform) (s : RabState)

/-- A slice holds a table. -/
structure HoldsTable (t : TableMapping) (k : Nat) : Prop where
  addrStart : (s.slice 0 k).addrStart = t.addrStart
  addrEnd : (s.slice 0 k).addrEnd = t.addrEnd
  addrOffset : (s.slice 0 k).addrOffset = t.addrOffset
  flagsHw : (s.slice 0 k).flagsHw = tableFlags
  dateExp : (s.slice 0 k).dateExp = maxDate

/-- A table is enabled in hardware. -/
def EnablesTable (t : TableMapping) (k : Nat) : Prop :=
  s.hw .port1 k =
    ⟨t.addrStart / pageSize, t.addrEnd / pageSize, t.addrOffset / pageSize, tableFlags⟩

/-- A slice is free for the SoC. -/
def FreeForSoc (k : Nat) : Prop :=
  s.slice 0 k = (s.slice 0 k).cleared ∧ (s.hw .port1 k).flags = 0#8

/-- The host manages the first slices, which hold the tables, and the others are free. -/
structure GivenTo (g : Given) : Prop where
  reserved : s.ctrl.nSlicesReservedForHost = g.reserved
  managed : ∀ req : SliceReq, req.rabPort = .port1 →
    (s.sliceIsManagedByHost req = true ↔ req.rabSlice < g.reserved)
  tables : ∀ t ∈ g.tables, ∃ k < g.reserved, s.HoldsTable t k
  rest : ∀ k, g.reserved ≤ k → k < plat.nSlicesPort1 → s.FreeForSoc k

/-- The slices that are not reserved for the host have expired. -/
def ReadyForSocMh (stackReady : SliceReq) (reserved : Nat) : Prop :=
  ∀ k < plat.nSlicesPort1, reserved ≤ k → s.sliceCheck (readyReq stackReady k) = true

instance (stackReady : SliceReq) (reserved : Nat) :
    Decidable (s.ReadyForSocMh plat stackReady reserved) :=
  inferInstanceAs (Decidable (∀ k < _, _ → _))

/-- The reserved slices that a table can take. -/
def tableSlots (reserved : Nat) : Finset Nat :=
  (Finset.range plat.nSlicesPort1).filter fun k =>
    k < reserved ∧ s.sliceCheck (tableReq ⟨0, 0, 0⟩ 0 k) = true

/-- There are a reserved slice and a list of pages for every table. -/
structure FitsTables (reserved : Nat) (tables : List TableMapping) : Prop where
  slots : tables.length ≤ (s.tableSlots plat reserved).card
  fields : tables.length ≤ (freeFields plat s 0).card
  lists : ∀ i ∈ freeFields plat s 0, s.pagePtr 0 i = none

instance (reserved : Nat) (tables : List TableMapping) :
    Decidable (s.FitsTables plat reserved tables) :=
  decidable_of_iff (tables.length ≤ (s.tableSlots plat reserved).card ∧
    tables.length ≤ (freeFields plat s 0).card ∧ ∀ i ∈ freeFields plat s 0, s.pagePtr 0 i = none)
    ⟨fun h => ⟨h.1, h.2.1, h.2.2⟩, fun h => ⟨h.slots, h.fields, h.lists⟩⟩

end RabState

/-- What a call that fails may not change: the mode, the number of slices reserved for the host and
the slices that have not expired. -/
structure Unchanged (stackReady : SliceReq) (s s' : RabState) : Prop where
  socMhIsEna : s'.ctrl.socMhIsEna = s.ctrl.socMhIsEna
  reserved : s'.ctrl.nSlicesReservedForHost = s.ctrl.nSlicesReservedForHost
  slices : ∀ m k, (m = 0 → s.sliceCheck (readyReq stackReady k) = false) →
    s'.slice m k = s.slice m k
  hw : ∀ k, s.sliceCheck (readyReq stackReady k) = false → s'.hw .port1 k = s.hw .port1 k

/-- The driver and what it has given to the SoC. -/
structure Mode where
  rab : RabState
  given : Option Given

namespace Mode

variable (plat : Platform) (w : Mode)

/-- The result of a call. -/
def outcome (c : ModeCall) : Except Err Unit × RabState := (driver plat).exec (c.prog plat) w.rab

def givenAfter (c : ModeCall) : Option Given :=
  match c, (w.outcome plat c).1 with
  | .socMhEna _ _ tables static2nd, .ok _ =>
    some ⟨reservedForHost plat (plat.static2nd static2nd) tables,
      tables.mappings (plat.static2nd static2nd)⟩
  | .socMhDis _, _ => none
  | _, _ => w.given

def step (c : ModeCall) : Mode := ⟨(w.outcome plat c).2, w.givenAfter plat c⟩

end Mode

/-- Calls to the driver, one after the other. -/
def modes (plat : Platform) : Machine Mode ModeCall Empty := fun w c => some (w.step plat c, [])

/-- The mode is the one that the last successful calls have set, the slices are split accordingly, and
a call that fails changes nothing. -/
structure ModeCall.Consistent (plat : Platform) (w : Mode) (c : ModeCall) : Prop where
  socMhIsEna : (w.step plat c).rab.ctrl.socMhIsEna = (w.step plat c).given.isSome
  given : ∀ g ∈ (w.step plat c).given, (w.step plat c).rab.GivenTo plat g
  enabled : ∀ stackReq stackReady tables static2nd,
    c = .socMhEna stackReq stackReady tables static2nd → (w.outcome plat c).1 = .ok () →
      ∀ t ∈ tables.mappings (plat.static2nd static2nd),
        ∃ k < reservedForHost plat (plat.static2nd static2nd) tables,
          (w.step plat c).rab.HoldsTable t k ∧ (w.step plat c).rab.EnablesTable t k
  failed : ∀ stackReq stackReady tables static2nd e,
    c = .socMhEna stackReq stackReady tables static2nd → (w.outcome plat c).1 = .error e →
      Unchanged stackReady w.rab (w.step plat c).rab

/-- A call of `pulp_rab_soc_mh_ena` is refused at once, or it succeeds, or it finds the number of
reserved slices that it sets (and takes no slice that `rab_is_ready_for_soc_mh` would not free). -/
def ModeCall.Fits (plat : Platform) (w : Mode) : ModeCall → Prop
  | .socMhEna _ stackReady tables static2nd =>
    let reserved := reservedForHost plat (plat.static2nd static2nd) tables
    w.rab.ctrl.socMhIsEna = true ∨
      w.rab.ReadyForSocMh plat stackReady reserved ∧
        w.rab.FitsTables plat reserved (tables.mappings (plat.static2nd static2nd)) ∨
      w.rab.ctrl.nSlicesReservedForHost = reserved ∧
        (w.rab.ReadyForSocMh plat stackReady reserved →
          ∀ k ∈ w.rab.tableSlots plat reserved,
            w.rab.sliceCheck (readyReq stackReady k) = true)
  | _ => True

instance (plat : Platform) (w : Mode) : ∀ c : ModeCall, Decidable (c.Fits plat w)
  | .socMhEna _ _ _ _ => inferInstanceAs (Decidable (_ ∨ _ ∧ _ ∨ _ ∧ (_ → _)))
  | .socMhDis _ => isTrue trivial
  | .mhEna _ _ => isTrue trivial
  | .mhDis => isTrue trivial
  | .req _ _ => isTrue trivial
  | .free _ _ _ => isTrue trivial

/-- The driver after its initialisation. -/
def Mode.start (plat : Platform) (stack : SliceReq) : Mode :=
  ⟨((driver plat).exec (rabSetup plat stack) (RabState.reset plat)).2, none⟩

/-- The state of the driver fits what the SoC has been given. -/
structure ModeInv (plat : Platform) (given : Option Given) (s : RabState) : Prop where
  active : s.l1.mappingActive = 0
  socMhIsEna : s.ctrl.socMhIsEna = given.isSome
  given : ∀ g ∈ given, s.GivenTo plat g

section

variable {plat : Platform} {s s' : RabState} {given : Option Given} {g : Given} {req : SliceReq}
  {pages : Option PageArray} {date : Nat}

theorem RabState.HoldsTable.congr {t : TableMapping} {k : Nat} (h : s.HoldsTable t k)
    (hslice : s'.slice 0 k = s.slice 0 k) : s'.HoldsTable t k := by
  constructor
  · rw [hslice, h.addrStart]
  · rw [hslice, h.addrEnd]
  · rw [hslice, h.addrOffset]
  · rw [hslice, h.flagsHw]
  · rw [hslice, h.dateExp]

/-- What has been given to the SoC stays so if slices with tables and the free ones stay as they are. -/
theorem RabState.GivenTo.of_frame (h : s.GivenTo plat g) (hctrl : s'.ctrl = s.ctrl)
    (hslice : ∀ k, ((s.slice 0 k).dateExp = maxDate ∨ g.reserved ≤ k) → s'.slice 0 k = s.slice 0 k)
    (hhw : ∀ k, g.reserved ≤ k → (s.hw .port1 k).flags = 0#8 → (s'.hw .port1 k).flags = 0#8) :
    s'.GivenTo plat g := by
  constructor
  · rw [hctrl, h.reserved]
  · intro req hport
    have hsame : s'.sliceIsManagedByHost req = s.sliceIsManagedByHost req := by
      simp only [RabState.sliceIsManagedByHost, hctrl]
    rw [hsame]
    exact h.managed req hport
  · intro t ht
    obtain ⟨k, hk, hholds⟩ := h.tables t ht
    exact ⟨k, hk, hholds.congr (hslice k (.inl hholds.dateExp))⟩
  · intro k hk hlt
    obtain ⟨hcleared, hflags⟩ := h.rest k hk hlt
    refine ⟨?_, hhw k hk hflags⟩
    rw [hslice k (.inr hk)]
    exact hcleared

/-- Dates of 8 bits do not expire a table. -/
private theorem not_expired_table (hdate : date ≤ maxDate) : ¬ Expired date maxDate := by
  intro h
  cases h with
  | inl h => exact absurd h (Nat.not_lt.mpr hdate)
  | inr h => exact absurd h.2 (by decide)

/-- A slice that has expired and that the host manages is neither a table nor free for the SoC. -/
private theorem RabState.GivenTo.not_taken (h : s.GivenTo plat g) (hdate : date ≤ maxDate)
    (hreq : req.dateCur = date) (hport : req.rabPort = .port1) (hm : req.rabMapping = 0)
    (hcheck : s.sliceCheck req = true) (hhost : s.sliceIsManagedByHost req = true) {k : Nat}
    (hk : (s.slice 0 k).dateExp = maxDate ∨ g.reserved ≤ k) : k ≠ req.rabSlice := by
  intro heq
  subst heq
  cases hk with
  | inl hexp =>
    have hexpired := expired_of_sliceCheck hport hcheck
    rw [hreq, hm, hexp] at hexpired
    exact not_expired_table hdate hexpired
  | inr hk => exact absurd ((h.managed req hport).mp hhost) (Nat.not_lt.mpr hk)

theorem ModeInv.getUserPages (h : ModeInv plat given s) (n : Nat) :
    ModeInv plat given (s.getUserPages n) where
  active := h.active
  socMhIsEna := h.socMhIsEna
  given g hg := (h.given g hg).of_frame rfl (fun _ _ => rfl) fun _ _ hflags => hflags

/-- Freeing an expired slice keeps the mode. -/
theorem ModeInv.sliceFree (h : ModeInv plat given s) (hdate : date ≤ maxDate)
    (hreq : req.dateCur = date) (hcheck : s.sliceCheck req = true) :
    ModeInv plat given (s.sliceFree req) := by
  have hframe := s.sliceFree_frame req
  constructor
  · rw [hframe.1, h.active]
  · rw [hframe.2.1, h.socMhIsEna]
  · intro g hg
    have hgiven := h.given g hg
    apply hgiven.of_frame hframe.2.1
    · intro k hk
      rw [RabState.sliceFree_slice, if_neg]
      intro hno
      obtain ⟨hhost, hport, hm, hslot⟩ := hno
      exact hgiven.not_taken hdate hreq hport hm.symm hcheck hhost hk hslot
    · intro k _ hflags
      rw [RabState.sliceFree_hw]
      split
      · rfl
      · exact hflags

/-- Replacing an expired slice keeps the mode. -/
theorem ModeInv.replace (hdate : date ≤ maxDate) :
    ReplaceKeeps (fun req => req.dateCur = date) (ModeInv plat given) := by
  intro s req pages hreq hcheck hhost h
  have hframe := (s.sliceFree req).sliceSetup_frame req pages
  have hfree := s.sliceFree_frame req
  constructor
  · rw [hframe.1, hfree.1, h.active]
  · rw [replace_ctrl, h.socMhIsEna]
  · intro g hg
    have hgiven := h.given g hg
    apply hgiven.of_frame replace_ctrl
    · intro k hk
      rw [RabState.sliceSetup_slice, RabState.sliceFree_slice]
      have hne : ¬ (req.rabPort = .port1 ∧ 0 = req.rabMapping ∧ k = req.rabSlice) := by
        intro hno
        obtain ⟨hport, hm, hslot⟩ := hno
        exact hgiven.not_taken hdate hreq hport hm.symm hcheck hhost hk hslot
      rw [if_neg hne, if_neg fun hno => hne hno.2]
    · intro k hk hflags
      have hne : ¬ (Port.port1 = req.rabPort ∧ k = req.rabSlice) := by
        intro hno
        obtain ⟨hport, hslot⟩ := hno
        have hlt := (hgiven.managed req hport.symm).mp hhost
        omega
      rw [RabState.sliceSetup_hw, if_neg fun hno => hne hno.2, RabState.sliceFree_hw,
        if_neg fun hno => hne hno.2]
      exact hflags

private theorem u8_le_maxDate (n : Nat) : u8 n ≤ maxDate := Nat.le_of_lt_succ (Nat.mod_lt n (by decide))

private theorem mode_setMh (date : Nat) (acp : Bool) (lvl : Nat) (h : ModeInv plat given s) :
    ModeInv plat given (s.step plat (.setMh date acp lvl)) where
  active := h.active
  socMhIsEna := h.socMhIsEna
  given g hg := by
    have hgiven := h.given g hg
    refine ⟨hgiven.reserved, hgiven.managed, ?_, fun k hk hlt => hgiven.rest k hk hlt⟩
    intro t ht
    obtain ⟨k, hk, hholds⟩ := hgiven.tables t ht
    exact ⟨k, hk, hholds.congr rfl⟩

private theorem mode_rabMhEna (acp : Bool) (lvl : Nat) :
    (driver plat).Triple always always (ModeInv plat given) (rabMhEna acp lvl)
      fun _ => ModeInv plat given :=
  Triple.issue (fun _ _ _ => trivial) fun _ hs _ => mode_setMh 1 acp lvl hs

private theorem mode_rabMhDis :
    (driver plat).Triple always always (ModeInv plat given) rabMhDis fun _ => ModeInv plat given := by
  apply Triple.read
  intro s
  exact Triple.issue (fun _ _ _ => trivial) fun _ hs _ => mode_setMh _ _ _ hs.1

private theorem mode_rabReq (user : UserPages) (req : SliceReq) :
    (driver plat).Triple always always (ModeInv plat given)
      ((rabReq plat user { req with dateCur := u8 req.dateCur }).bind fun _ => Prog.ret ())
      fun _ => ModeInv plat given :=
  Triple.bind_keeps (triple_rabReq_keeps user rfl (fun _ n hs => hs.getUserPages n)
    (ModeInv.replace (u8_le_maxDate _))) fun _ => Triple.ret fun _ hs => hs

private theorem mode_rabFree (stack : SliceReq) (date : Nat) (fixed : Bool) :
    (driver plat).Triple always always (ModeInv plat given) (rabFree plat stack date fixed)
      fun _ => ModeInv plat given :=
  triple_rabFree_keeps stack fixed fun _ _ hreq hcheck hs =>
    hs.sliceFree (u8_le_maxDate date) hreq hcheck

/-- After `pulp_rab_soc_mh_dis` the SoC has nothing. -/
private theorem mode_rabSocMhDis (stack : SliceReq) :
    (driver plat).Triple always always (ModeInv plat given) (rabSocMhDis plat stack)
      fun _ => ModeInv plat none := by
  apply Triple.read
  intro s
  change (driver plat).Triple _ _ _ (if s.ctrl.socMhIsEna = true then
    (Prog.foldl (fun _ i => Prog.issue (.sliceFree (disReq stack i))) ()
      (List.range' 1 (s.ctrl.nSlicesReservedForHost - 1))).bind fun _ =>
        Prog.issue (.setSocMh false plat.nSlicesPort1) else Prog.fail Err.ealready) _
  split
  · apply Triple.bind (R := fun _ s' => s'.l1.mappingActive = 0)
    · apply Triple.conseq (Q := fun r s' => r = .ok () ∧ s'.l1.mappingActive = 0)
        (P := fun s' => s'.l1.mappingActive = 0)
      · apply Triple.each (R := fun _ (s' : RabState) => s'.l1.mappingActive = 0)
        intro pre i post _
        apply Triple.issue fun _ _ _ => trivial
        intro s' hs' _
        refine ⟨rfl, ?_⟩
        exact (s'.sliceFree_frame (disReq stack i)).1.trans hs'
      · exact fun s' hs' => hs'.1.active
      · rintro r s' ⟨rfl, hs'⟩
        exact hs'
    · intro _
      exact Triple.issue (fun _ _ _ => trivial) fun s' hs' _ => ⟨hs', rfl, fun g hg => by cases hg⟩
  · next hena =>
    apply Triple.fail
    rintro s' ⟨hs', rfl⟩
    have hflag := hs'.socMhIsEna
    refine ⟨hs'.active, ?_, fun g hg => by cases hg⟩
    change s'.ctrl.socMhIsEna = false
    exact Bool.not_eq_true _ ▸ hena

theorem mode_start (plat : Platform) (stack : SliceReq) :
    ModeInv plat (Mode.start plat stack).given (Mode.start plat stack).rab := by
  have hkeeps : ∀ (s : RabState) (c : Call),
      (s.l1.mappingActive = 0 ∧ s.ctrl.socMhIsEna = false) → c.OnSlices →
        ((driver plat).step s c).l1.mappingActive = 0 ∧
          ((driver plat).step s c).ctrl.socMhIsEna = false := by
    intro s c hs hc
    have hctrl : ((driver plat).step s c).ctrl = s.ctrl := hc.ctrl
    refine ⟨?_, by rw [hctrl, hs.2]⟩
    cases c with
    | getUserPages nPages got => exact hs.1
    | sliceFree req => exact (s.sliceFree_frame req).1.trans hs.1
    | sliceSetup req pages => exact (s.sliceSetup_frame req pages).1.trans hs.1
    | mappingSwitch m => cases hc
    | setStripeReq m elements => cases hc
    | setSocMh ena reserved => cases hc
    | setMh date acp lvl => cases hc
    | report err => cases hc
  have hstart : (Mode.start plat stack).rab.l1.mappingActive = 0 ∧
      (Mode.start plat stack).rab.ctrl.socMhIsEna = false :=
    exec_of_only (onSlices_rabSetup stack) hkeeps ⟨rfl, rfl⟩
  exact ⟨hstart.1, hstart.2, fun g hg => by cases hg⟩

end

end Hero.Rab
