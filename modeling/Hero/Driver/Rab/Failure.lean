import Hero.Driver.Rab.StripedRequest

/-!
# Requests that fail

A request that cannot be completed leaves no trace only if it fails before it has pinned a page and
taken a slice.
-/

namespace Hero.Rab

open Driver Flags Interp

/-- How often a page was pinned and not released. -/
def RabState.pins (s : RabState) (p : Pin) : Int := s.kernel.pinned.count p - s.kernel.put.count p

/-- A slice of Port 1 that had expired at a date and was released since. -/
structure ReleasedSlice (date : Nat) (s s' : RabState) (m k : Nat) : Prop where
  expired : Expired date (s.slice m k).dateExp
  cleared : s'.slice m k = (s.slice m k).cleared

/-- Slices that had expired at a date may have been released; nothing else has changed. -/
structure NoTrace (date : Nat) (s s' : RabState) : Prop where
  port0 : ∀ k, s'.l1.port0 k = s.l1.port0 k ∨
    Expired date (s.l1.port0 k).dateExp ∧ s'.l1.port0 k = (s.l1.port0 k).cleared
  slice : ∀ m k, s'.slice m k = s.slice m k ∨ ReleasedSlice date s s' m k
  refCntr : ∀ m i, s'.refCntr m i = s.refCntr m i ∨ s'.refCntr m i < s.refCntr m i ∧
    ∃ k, ReleasedSlice date s s' m k ∧ (s.slice m k).pagePtrIdx = i
  pagePtr : ∀ m i, s'.pagePtr m i = s.pagePtr m i ∨ s'.pagePtr m i = none ∧
    ∃ k, ReleasedSlice date s s' m k ∧ (s.slice m k).pagePtrIdx = i
  hwPort0 : ∀ k, s'.hw .port0 k = s.hw .port0 k ∨
    Expired date (s.l1.port0 k).dateExp ∧ s'.hw .port0 k = (s.hw .port0 k).withFlags 0#8
  hwPort1 : ∀ k, s'.hw .port1 k = s.hw .port1 k ∨
    (∃ m, ReleasedSlice date s s' m k) ∧ s'.hw .port1 k = (s.hw .port1 k).withFlags 0#8
  pins : ∀ p, s'.pins p = s.pins p ∨ s'.pins p < s.pins p ∧ ∃ m k,
    ReleasedSlice date s s' m k ∧ ∃ pages, s.pagePtr m (s.slice m k).pagePtrIdx = some pages ∧
      p.array = pages.id

/-- The number of pages a request is for. -/
def SliceReq.len (req : SliceReq) : Nat := memGetNumPages req.addrStart (sub32 req.addrEnd req.addrStart)

section

variable (plat : Platform) (s : RabState) (user : UserPages) (req : SliceReq)

/-- What `pulp_rab_req` returns and leaves behind. -/
def reqOutcome : Except Err SliceReq × RabState := (driver plat).exec (rabReq plat user req) s

/-- The request is constant. -/
def SliceReq.isConst : Bool := req.withType.flagsDrv.has drvConst

/-- All pages are pinned, and every segment is set up in every mapping. -/
def Completes : Prop :=
  (∃ r, (reqOutcome plat s user req).1 = .ok r) ∧ (req.isConst = true ∨ req.len ≤ user.got)

/-- The request as it is made for the first mapping. -/
def SliceReq.first : SliceReq :=
  match req.rabPort with
  | .port0 => req.withType
  | .port1 => { req.withType with rabMapping := 0 }

/-- There is no free list of pages or no free slice in the first mapping. -/
def Unavailable : Prop :=
  req.rabPort = .port1 ∧ s.pagePtrsGetField plat.nSlicesPort1 0 = none ∨
    s.sliceGet req.first (req.rabPort.nSlices plat) = none

/-- The request fails before it has pinned a page and taken a slice. -/
def StopsEarly : Prop :=
  if req.isConst then Unavailable plat s req
  else user.alloc = false ∨ min user.got req.len = 0 ∧ Unavailable plat s req

/-- The request has pages to pin, or it does not expire at its own date. -/
def Lasts : Prop :=
  req.isConst ≠ true ∧ min user.got req.len ≠ 0 ∨ ¬ Expired req.dateCur req.dateExp

/-- An error is returned and there is no trace. -/
def FailsClean : Prop :=
  (∃ e, (reqOutcome plat s user req).1 = .error e) ∧
    NoTrace req.dateCur s (reqOutcome plat s user req).2

end

/-- A request for every mapping of Port 1. -/
structure SliceReq.Plain (date : Nat) (req : SliceReq) : Prop where
  port : req.rabPort = .port1
  dateCur : req.dateCur = date
  every : req.flagsDrv.has drvEvery = true

section

variable {plat : Platform} {s : RabState} {user : UserPages} {req : SliceReq} {date : Nat}
  {pages : Option PageArray} {P : RabState → Prop}

private theorem plain_freeChoice : FreeChoice (SliceReq.Plain date) :=
  fun _ _ _ _ h => ⟨h.port, h.dateCur, h.every⟩

/-- A loop keeps what its first step establishes. -/
private theorem triple_foldl_first {α : Type} {f : SliceReq → α → Op SliceReq} {x : α}
    (hfirst : (driver plat).Triple always always (fun s' => s' = s) (f req x)
      (Goes (SliceReq.Plain date) P))
    (hf : ∀ req x, req.Plain date →
      (driver plat).Triple always always P (f req x) (Goes (SliceReq.Plain date) P))
    (xs : List α) : (driver plat).Triple always always (fun s' => s' = s) (Prog.foldl f req (x :: xs))
      (Goes (SliceReq.Plain date) P) := by
  change (driver plat).Triple _ _ _ ((f req x).bind fun req => Prog.foldl f req xs) _
  apply Triple.bind (R := fun req' s' => Goes (SliceReq.Plain date) P (.ok req') s')
  · apply hfirst.conseq fun _ h => h
    intro r s' hs'
    cases r <;> exact hs'
  · intro req'
    apply Triple.of_states
    rintro s' ⟨hs', hreq'⟩
    apply (triple_foldl_keeps hf hreq' xs).conseq
    · rintro s'' rfl
      exact hs'
    · exact fun _ _ h => h

/-- Nothing that the kernel has pinned is released. -/
private theorem replaceKeeps_kernel (A B : List Pin) : ReplaceKeeps (SliceReq.Plain date) fun s =>
    s.kernel.pinned = A ∧ s.kernel.put = B := by
  rintro s req pages hreq - - ⟨hA, hB⟩
  have hnone : s.released req = [] := by
    rw [RabState.released, if_neg]
    simp [hreq.every]
  have hkernel := ((s.sliceFree req).sliceSetup_frame req pages).2.2
  refine ⟨?_, ?_⟩
  · rw [hkernel, (s.sliceFree_frame req).2.2.1, hA]
  · rw [hkernel, RabState.sliceFree_put, hnone, List.append_nil, hB]

/-- A slice that does not expire at the date of the request is kept. -/
private theorem replaceKeeps_slice {E : L1EntryPort1 → Prop} (k : Nat)
    (hE : ∀ e, E e → ¬ Expired date e.dateExp) : ReplaceKeeps (SliceReq.Plain date) fun s => E (s.slice 0 k) := by
  intro s req pages hreq hcheck _ hs
  have hexpired := expired_of_sliceCheck hreq.port hcheck
  rw [replace_slice hreq.port, if_neg]
  · exact hs
  · rintro ⟨hm, rfl⟩
    rw [hreq.dateCur, ← hm] at hexpired
    exact hE _ hs hexpired

/-- Without a free list of pages or a free slice, nothing is done. -/
private theorem triple_unavailable (hport : req.rabPort = .port1)
    (hevery : req.flagsDrv.has drvEvery = true)
    (h : s.pagePtrsGetField plat.nSlicesPort1 0 = none ∨
      s.sliceGet { req with rabMapping := 0 } plat.nSlicesPort1 = none) :
    (driver plat).Triple always always (fun s' => s' = s) (reqMappings plat pages 0 req)
      fun r s' => s' = s ∧ ∃ e, r = .error e := by
  change (driver plat).Triple _ _ _ ((reqMapping plat pages 0 req 0).bind _) _
  apply Triple.bind (R := fun _ _ => False) ?_ fun _ _ hno => hno.elim
  rw [reqMapping_first hport hevery]
  apply Triple.bind (R := fun req' s' => s' = s ∧ req'.rabPort = .port1 ∧
    s.sliceGet req' plat.nSlicesPort1 = none)
  · apply triple_pagePtrsGetField
    · rintro s' i rfl hi
      rcases h with h | h
      · cases h.symm.trans hi
      · exact ⟨rfl, hport, h⟩
    · rintro s' rfl -
      exact ⟨rfl, _, rfl⟩
  · intro req'
    apply Triple.bind (R := fun _ _ => False) ?_ fun _ _ hno => hno.elim
    apply triple_sliceGet
    · rintro s' k ⟨rfl, hport', hnone⟩ hk
      rw [hport'] at hk
      cases hnone.symm.trans hk
    · rintro s' ⟨rfl, -⟩ -
      exact ⟨rfl, _, rfl⟩

/-- A slice of a request that has not expired at a date. -/
private def Lasting (date : Nat) (e : L1EntryPort1) : Prop :=
  ¬ Expired date e.dateExp ∧ e.flagsDrv.has drvEvery = true

/-- With a free list of pages and a free slice in the first mapping, the slice is set up and kept. -/
private theorem triple_available (hreq : req.Plain date) (hexp : ¬ Expired date req.dateExp)
    {i k : Nat} (hi : s.pagePtrsGetField plat.nSlicesPort1 0 = some i)
    (hk : s.sliceGet { req with rabMapping := 0 } plat.nSlicesPort1 = some k) :
    (driver plat).Triple always always (fun s' => s' = s) (reqMappings plat pages 0 req)
      (Goes (SliceReq.Plain date) fun s => Lasting date (s.slice 0 k)) := by
  have hkeeps : ReplaceKeeps (SliceReq.Plain date) fun s => Lasting date (s.slice 0 k) :=
    replaceKeeps_slice k fun _ he => he.1
  apply triple_foldl_first ?_ (fun _ j hreq => triple_reqMapping_keeps plain_freeChoice hkeeps hreq 0 j) [1]
  rw [reqMapping_first hreq.port hreq.every]
  apply Triple.bind (R := fun req' s' => s' = s ∧ SliceReq.Plain date req' ∧ req'.rabMapping = 0 ∧
    req'.dateExp = req.dateExp ∧ s.sliceGet req' plat.nSlicesPort1 = some k)
  · apply triple_pagePtrsGetField
    · rintro s' i' rfl -
      exact ⟨rfl, ⟨hreq.port, hreq.dateCur, hreq.every⟩, rfl, rfl, hk⟩
    · rintro s' rfl hnone
      cases hi.symm.trans hnone
  · intro req'
    apply Triple.bind (R := fun req'' s' => s' = s ∧ SliceReq.Plain date req'' ∧
      req''.rabMapping = 0 ∧ req''.dateExp = req.dateExp ∧ req''.rabSlice = k)
    · apply triple_sliceGet
      · rintro s' k' ⟨rfl, hreq', hm, hdate, hget⟩ hk'
        rw [hreq'.port] at hk'
        cases hget.symm.trans hk'
        exact ⟨rfl, ⟨hreq'.port, hreq'.dateCur, hreq'.every⟩, hm, hdate, rfl⟩
      · rintro s' ⟨rfl, hreq', -, -, hget⟩ hnone
        rw [hreq'.port] at hnone
        cases hget.symm.trans hnone
    · intro req''
      apply Triple.of_states
      rintro s' ⟨rfl, hreq'', hm, hdate, hslice⟩
      apply Triple.bind (R := fun _ s'' => Lasting date (s''.slice 0 k))
      · apply triple_replace_to.conseq fun _ h => h
        rintro r s'' ⟨rfl, -⟩
        have hlasting : Lasting date
            (((s'.sliceFree req'').sliceSetup req'' pages).slice 0 k) := by
          rw [replace_slice hreq''.port, if_pos ⟨hm.symm, hslice.symm⟩]
          refine ⟨?_, hreq''.every⟩
          change ¬ Expired date req''.dateExp
          rwa [hdate]
        cases r with
        | ok _ => exact hlasting
        | error e => exact ⟨hlasting, trivial⟩
      · intro _
        exact Triple.ret fun s'' hs'' => ⟨hs'', hreq''⟩

/-- What a request for Port 0 leaves where it finds no slice. -/
private def Port0Outcome (plat : Platform) (s : RabState) (req : SliceReq)
    (r : Except Err SliceReq) (s' : RabState) : Prop :=
  match r with
  | .ok req' => req'.rabPort = .port0 ∧ req'.rabMapping = req.rabMapping
  | .error _ => s' = s ∧ s.sliceGet req (req.rabPort.nSlices plat) = none

private theorem triple_take_port0 (hport : req.rabPort = .port0) :
    (driver plat).Triple always always (fun s' => s' = s)
      ((sliceGet plat req).bind fun req => (sliceReplace req pages).bind fun _ => Prog.ret req)
      (Port0Outcome plat s req) := by
  apply Triple.bind (R := fun req' _ => req'.rabPort = .port0 ∧ req'.rabMapping = req.rabMapping)
  · apply triple_sliceGet
    · intro s' k _ _
      exact ⟨hport, rfl⟩
    · rintro s' rfl hnone
      exact ⟨rfl, hnone⟩
  · intro req'
    apply Triple.of_states
    rintro s' hreq'
    apply Triple.bind (R := fun _ _ => True)
    · apply triple_replace_to.conseq fun _ h => h
      rintro r s'' ⟨-, hok⟩
      rw [hok (by simp [RabState.sliceSetupRefused, hreq'.1])]
      trivial
    · intro _
      exact Triple.ret fun _ _ => hreq'

/-- A request for Port 0 fails only if it finds no slice, and then nothing is done. -/
private theorem triple_reqMappings_port0 (hport : req.rabPort = .port0) :
    (driver plat).Triple always always (fun s' => s' = s) (reqMappings plat pages 0 req)
      (Port0Outcome plat s req) := by
  change (driver plat).Triple _ _ _ ((reqMapping plat pages 0 req 0).bind fun req =>
    (reqMapping plat pages 0 req 1).bind Prog.ret) _
  rw [reqMapping_port0 hport]
  by_cases hzero : req.rabMapping = 0
  · rw [if_pos hzero]
    apply Triple.bind (R := fun req' _ => req'.rabPort = .port0 ∧ req'.rabMapping = req.rabMapping)
    · apply (triple_take_port0 hport).conseq fun _ h => h
      intro r s' hs'
      cases r <;> exact hs'
    · intro req'
      apply Triple.of_states
      rintro s' ⟨hport', hmapping⟩
      rw [reqMapping_port0 hport', if_neg (by omega)]
      exact Triple.ret fun _ _ => ⟨hport', hmapping⟩
  · rw [if_neg hzero]
    change (driver plat).Triple _ _ _ ((reqMapping plat pages 0 req 1).bind Prog.ret) _
    rw [reqMapping_port0 hport]
    split
    · apply Triple.bind (R := fun req' _ => req'.rabPort = .port0 ∧ req'.rabMapping = req.rabMapping)
      · apply (triple_take_port0 hport).conseq fun _ h => h
        intro r s' hs'
        cases r <;> exact hs'
      · intro req'
        exact Triple.ret fun _ h => h
    · exact Triple.ret fun _ _ => ⟨hport, rfl⟩

end

section

variable {plat : Platform} {s : RabState} {user : UserPages} {req : SliceReq}

theorem withType_every (req : SliceReq) : req.withType.flagsDrv.has drvEvery = true := by
  have h : ∀ y : Flags, (y.set (drvConst ||| drvEvery)).has drvEvery = true ∧
      (y.set drvEvery).has drvEvery = true := by decide
  rw [SliceReq.withType]
  split
  · exact (h _).1
  · exact (h _).2

theorem isConst_of_port0 (hport : req.rabPort = .port0) : req.isConst = true := by
  have h : ∀ y : Flags, (y.set (drvConst ||| drvEvery)).has drvConst = true := by decide
  rw [SliceReq.isConst, SliceReq.withType, if_pos (Or.inl hport)]
  exact h _

/-- A constant request as it is made for the mappings. -/
def SliceReq.constant (plat : Platform) (req : SliceReq) : SliceReq :=
  { req.withType with addrOffset := plat.constOffset req.withType.addrStart req.withType.addrOffset }

theorem rabReq_const (hconst : req.isConst = true) :
    rabReq plat user req = reqMappings plat none 0 (req.constant plat) :=
  if_pos hconst

theorem rabReq_pages (hconst : ¬ req.isConst = true) : rabReq plat user req =
    (memGetUserPages user req.addrStart req.len).bind fun pages =>
      Prog.foldl (fun req' i => reqMappings plat (some pages) i (req'.forSegment
        ((memMapSg user.pfn req.len req.addrStart req.addrEnd).vec i))) req.withType
        (List.range (memMapSg user.pfn req.len req.addrStart req.addrEnd).n) :=
  if_neg hconst

private theorem first_port0 (hport : req.rabPort = .port0) : req.first = req.withType := by
  rw [SliceReq.first]
  split
  · rfl
  · next h => rw [hport] at h; cases h

private theorem first_port1 (hport : req.rabPort = .port1) :
    req.first = { req.withType with rabMapping := 0 } := by
  rw [SliceReq.first]
  split
  · next h => rw [hport] at h; cases h
  · rfl

private theorem noTrace_of_same {date : Nat} {s' : RabState} (hl1 : s'.l1 = s.l1) (hhw : s'.hw = s.hw)
    (hpins : ∀ p, s'.pins p = s.pins p) : NoTrace date s s' := by
  refine ⟨?_, ?_, ?_, ?_, ?_, ?_, ?_⟩
  · exact fun k => Or.inl (by rw [hl1])
  · exact fun m k => Or.inl (by rw [RabState.slice, hl1, RabState.slice])
  · exact fun m i => Or.inl (by rw [RabState.refCntr, hl1, RabState.refCntr])
  · exact fun m i => Or.inl (by rw [RabState.pagePtr, hl1, RabState.pagePtr])
  · exact fun k => Or.inl (by rw [hhw])
  · exact fun k => Or.inl (by rw [hhw])
  · exact fun p => Or.inl (hpins p)

private theorem noTrace_getUserPages {date n : Nat} (hn : n = 0) : NoTrace date s (s.getUserPages n) := by
  subst hn
  refine noTrace_of_same rfl rfl ?_
  intro p
  simp [RabState.pins, RabState.getUserPages]

/-- The loop body of `pulp_rab_req`, for one segment. -/
def reqSegment (plat : Platform) (s : RabState) (user : UserPages) (req req' : SliceReq)
    (i : Nat) : Op SliceReq :=
  reqMappings plat (some ⟨s.kernel.nextArray, req.addrStart, req.len⟩) i
    (req'.forSegment ((memMapSg user.pfn req.len req.addrStart req.addrEnd).vec i))

theorem reqOutcome_pages (plat : Platform) (s : RabState) (hconst : ¬ req.isConst = true)
    (halloc : user.alloc = true) :
    ∃ is, reqOutcome plat s user req = (driver plat).exec
      (Prog.foldl (reqSegment plat s user req) req.withType (0 :: is))
      (s.getUserPages (min user.got req.len)) := by
  obtain ⟨n, hn⟩ := Nat.exists_eq_succ_of_ne_zero
    (memMapSg_pos user.pfn req.len req.addrStart req.addrEnd).ne'
  refine ⟨List.range' 1 n, ?_⟩
  rw [reqOutcome, rabReq_pages hconst, hn, List.range_eq_range', List.range'_succ, exec_bind,
    memGetUserPages, if_pos halloc]
  rfl

theorem reqOutcome_enomem (hconst : ¬ req.isConst = true) (halloc : user.alloc = false) :
    reqOutcome plat s user req = (.error .enomem, s) := by
  rw [reqOutcome, rabReq_pages hconst, exec_bind, memGetUserPages, if_neg (by simp [halloc])]
  rfl

theorem port1_of_not_const (hconst : ¬ req.isConst = true) : req.rabPort = .port1 := by
  cases hport : req.rabPort with
  | port0 => exact absurd (isConst_of_port0 hport) hconst
  | port1 => rfl

private theorem Unavailable.first (h : Unavailable plat s req) (hport : req.rabPort = .port1) :
    s.pagePtrsGetField plat.nSlicesPort1 0 = none ∨
      s.sliceGet { req.withType with rabMapping := 0 } plat.nSlicesPort1 = none := by
  rw [Unavailable, first_port1 hport, hport] at h
  exact h.imp And.right id

private theorem expired_first (hport : req.rabPort = .port1) {k : Nat}
    (hk : s.sliceGet { req.withType with rabMapping := 0 } plat.nSlicesPort1 = some k) :
    Expired req.dateCur (s.slice 0 k).dateExp := by
  have hcheck := (RabState.sliceGet_spec hk).2.1
  have hexpired := fun hport => expired_of_sliceCheck hport hcheck
  exact hexpired hport

private theorem available_first (h : ¬ Unavailable plat s req) (hport : req.rabPort = .port1) :
    (∃ i, s.pagePtrsGetField plat.nSlicesPort1 0 = some i) ∧
      ∃ k, s.sliceGet { req.withType with rabMapping := 0 } plat.nSlicesPort1 = some k := by
  rw [Unavailable, first_port1 hport, hport, not_or] at h
  exact ⟨Option.ne_none_iff_exists'.mp fun hno => h.1 ⟨rfl, hno⟩, Option.ne_none_iff_exists'.mp h.2⟩

/-- Whether a request for Port 0 fails, and what it leaves then. -/
private theorem reqOutcome_port0 (plat : Platform) (s : RabState) (user : UserPages)
    (hport : req.rabPort = .port0) :
    Port0Outcome plat s (req.constant plat) (reqOutcome plat s user req).1
      (reqOutcome plat s user req).2 := by
  have htriple : (driver plat).Triple always always (fun s' => s' = s)
      (reqMappings plat none 0 (req.constant plat)) (Port0Outcome plat s (req.constant plat)) :=
    triple_reqMappings_port0 hport
  rw [reqOutcome, rabReq_const (isConst_of_port0 hport)]
  exact (htriple.run rfl).2

private theorem Completes.of_port0 (hport : req.rabPort = .port0) {r : SliceReq}
    (hr : (reqOutcome plat s user req).1 = .ok r) : Completes plat s user req :=
  ⟨⟨r, hr⟩, Or.inl (isConst_of_port0 hport)⟩

private theorem failsClean_of_stopsEarly (h : ¬ Completes plat s user req)
    (hstop : StopsEarly plat s user req) : FailsClean plat s user req := by
  rw [FailsClean]
  cases hport : req.rabPort with
  | port0 =>
    have houtcome := reqOutcome_port0 plat s user hport
    cases hr : (reqOutcome plat s user req).1 with
    | ok r => exact absurd (Completes.of_port0 hport hr) h
    | error e =>
      rw [hr] at houtcome
      refine ⟨⟨e, rfl⟩, ?_⟩
      rw [houtcome.1]
      exact noTrace_of_same rfl rfl fun _ => rfl
  | port1 =>
    by_cases hconst : req.isConst = true
    · rw [StopsEarly, if_pos hconst] at hstop
      have htriple : (driver plat).Triple always always (fun s' => s' = s)
          (reqMappings plat none 0 (req.constant plat)) fun r s' => s' = s ∧ ∃ e, r = .error e :=
        triple_unavailable hport (withType_every req) (hstop.first hport)
      obtain ⟨hsame, herror⟩ := (htriple.run rfl).2
      rw [reqOutcome, rabReq_const hconst]
      refine ⟨herror, ?_⟩
      rw [hsame]
      exact noTrace_of_same rfl rfl fun _ => rfl
    · rw [StopsEarly, if_neg hconst] at hstop
      cases halloc : user.alloc with
      | false =>
        rw [reqOutcome_enomem hconst halloc]
        exact ⟨⟨_, rfl⟩, noTrace_of_same rfl rfl fun _ => rfl⟩
      | true =>
        rw [halloc] at hstop
        obtain ⟨hzero, hun⟩ := hstop.resolve_left Bool.noConfusion
        obtain ⟨is, his⟩ := reqOutcome_pages plat s hconst halloc
        have hfirst : (driver plat).Triple always always
            (fun s' => s' = s.getUserPages (min user.got req.len))
            (reqSegment plat s user req req.withType 0)
            fun r s' => s' = s.getUserPages (min user.got req.len) ∧ ∃ e, r = .error e :=
          triple_unavailable (s := s.getUserPages (min user.got req.len)) hport (withType_every req)
            (hun.first hport)
        have htriple : (driver plat).Triple always always
            (fun s' => s' = s.getUserPages (min user.got req.len))
            (Prog.foldl (reqSegment plat s user req) req.withType (0 :: is))
            fun r s' => s' = s.getUserPages (min user.got req.len) ∧ ∃ e, r = .error e := by
          change (driver plat).Triple _ _ _ ((reqSegment plat s user req req.withType 0).bind _) _
          apply Triple.bind (R := fun _ _ => False) ?_ fun _ _ hno => hno.elim
          apply hfirst.conseq fun _ h => h
          rintro r s' ⟨hs', e, rfl⟩
          exact ⟨hs', e, rfl⟩
        obtain ⟨hsame, herror⟩ := (htriple.run rfl).2
        rw [his]
        refine ⟨herror, ?_⟩
        rw [hsame]
        exact noTrace_getUserPages hzero

private theorem segment_keeps {date : Nat} {P : RabState → Prop} (hP : ReplaceKeeps (SliceReq.Plain date) P)
    {req' : SliceReq} (hreq : req'.Plain date) (i : Nat) :
    (driver plat).Triple always always P (reqSegment plat s user req req' i) (Goes (SliceReq.Plain date) P) := by
  have hseg : (req'.forSegment
      ((memMapSg user.pfn req.len req.addrStart req.addrEnd).vec i)).Plain date :=
    ⟨hreq.port, hreq.dateCur, hreq.every⟩
  exact triple_segment_keeps plain_freeChoice hP hseg i

/-- Pages that were pinned stay pinned. -/
private theorem trace_of_pinned (hconst : ¬ req.isConst = true) (halloc : user.alloc = true)
    (hpin : min user.got req.len ≠ 0) : ¬ NoTrace req.dateCur s (reqOutcome plat s user req).2 := by
  obtain ⟨is, his⟩ := reqOutcome_pages plat s hconst halloc
  have hport := port1_of_not_const hconst
  have hplain : req.withType.Plain req.dateCur := ⟨hport, rfl, withType_every req⟩
  have htriple : (driver plat).Triple always always
      (fun s' => s'.kernel.pinned = (s.getUserPages (min user.got req.len)).kernel.pinned ∧
        s'.kernel.put = s.kernel.put)
      (Prog.foldl (reqSegment plat s user req) req.withType (0 :: is)) (Goes (SliceReq.Plain req.dateCur) _) :=
    triple_foldl_keeps (fun req' i hreq' => segment_keeps (replaceKeeps_kernel _ _) hreq' i) hplain _
  obtain ⟨⟨hpinned, hput⟩, -⟩ := (htriple.run ⟨rfl, rfl⟩).2
  rw [← his] at hpinned hput
  intro htrace
  have hpins : (reqOutcome plat s user req).2.pins ⟨s.kernel.nextArray, 0⟩ >
      s.pins ⟨s.kernel.nextArray, 0⟩ := by
    have hmem : Pin.mk s.kernel.nextArray 0 ∈
        (List.range (min user.got req.len)).map (Pin.mk s.kernel.nextArray) :=
      List.mem_map.mpr ⟨0, List.mem_range.mpr (by omega), rfl⟩
    have hcount := List.count_pos_iff.mpr hmem
    rw [RabState.pins, RabState.pins, hpinned, hput]
    change _ < ((s.kernel.pinned ++ _).count _ : Int) - _
    rw [List.count_append]
    omega
  rcases htrace.pins ⟨s.kernel.nextArray, 0⟩ with heq | ⟨hlt, -⟩
  · omega
  · omega

/-- A slice that was set up stays set up. -/
private theorem trace_of_lasting {date k : Nat} {s' : RabState}
    (hk : Expired date (s.slice 0 k).dateExp) (hs' : Lasting date (s'.slice 0 k)) :
    ¬ NoTrace date s s' := by
  intro htrace
  rcases htrace.slice 0 k with heq | hreleased
  · rw [heq] at hs'
    exact hs'.1 hk
  · have hevery := hs'.2
    rw [hreleased.cleared] at hevery
    have hno : ¬ Flags.has 0#8 drvEvery = true := by decide
    exact hno hevery

private theorem stopsEarly_of_failsClean (hlasts : Lasts user req)
    (hclean : FailsClean plat s user req) : StopsEarly plat s user req := by
  obtain ⟨⟨e, herror⟩, htrace⟩ := hclean
  rw [StopsEarly]
  split
  · next hconst =>
    cases hport : req.rabPort with
    | port0 =>
      have houtcome := reqOutcome_port0 plat s user hport
      rw [herror] at houtcome
      rw [Unavailable, first_port0 hport]
      exact Or.inr houtcome.2
    | port1 =>
      by_contra hun
      obtain ⟨⟨i, hi⟩, k, hk⟩ := available_first hun hport
      have hexp : ¬ Expired req.dateCur req.dateExp := hlasts.resolve_left fun h => h.1 hconst
      have hplain : (req.constant plat).Plain req.dateCur := ⟨hport, rfl, withType_every req⟩
      have htriple : (driver plat).Triple always always (fun s' => s' = s)
          (reqMappings plat none 0 (req.constant plat))
          (Goes (SliceReq.Plain req.dateCur) fun s => Lasting req.dateCur (s.slice 0 k)) :=
        triple_available hplain hexp hi hk
      refine trace_of_lasting (expired_first hport hk) ?_ htrace
      rw [reqOutcome, rabReq_const hconst]
      exact (htriple.run rfl).2.1
  · next hconst =>
    cases halloc : user.alloc with
    | false => exact Or.inl rfl
    | true =>
      by_contra hno
      rw [not_or, not_and] at hno
      have hzero : min user.got req.len = 0 := by
        by_contra hpin
        exact trace_of_pinned hconst halloc hpin htrace
      have hexp : ¬ Expired req.dateCur req.dateExp := hlasts.resolve_left fun h => h.2 hzero
      have hport := port1_of_not_const hconst
      obtain ⟨⟨i, hi⟩, k, hk⟩ := available_first (hno.2 hzero) hport
      obtain ⟨is, his⟩ := reqOutcome_pages plat s hconst halloc
      have hfirst : (driver plat).Triple always always
          (fun s' => s' = s.getUserPages (min user.got req.len))
          (reqSegment plat s user req req.withType 0)
          (Goes (SliceReq.Plain req.dateCur) fun s => Lasting req.dateCur (s.slice 0 k)) := by
        have hseg : (req.withType.forSegment
            ((memMapSg user.pfn req.len req.addrStart req.addrEnd).vec 0)).Plain req.dateCur :=
          ⟨hport, rfl, withType_every req⟩
        exact triple_available hseg hexp hi hk
      have htriple := triple_foldl_first hfirst
        (fun req' i hreq' => segment_keeps (replaceKeeps_slice k fun _ he => he.1) hreq' i) is
      refine trace_of_lasting (expired_first hport hk) ?_ htrace
      rw [his]
      exact (htriple.run rfl).2.1

end

/-- A request for eight pages of user space. -/
def eightPages : SliceReq :=
  { SliceReq.blank with
    dateCur := 1, dateExp := 2, rabPort := .port1, addrStart := 0x10000, addrEnd := 0x18000
    flagsHw := 7#8 }

private theorem not_completes_of_error {plat : Platform} {s : RabState} {user : UserPages}
    {req : SliceReq} (h : (reqOutcome plat s user req).1.toBool = false) :
    ¬ Completes plat s user req := by
  rintro ⟨⟨r, hr⟩, -⟩
  rw [hr] at h
  cases h

end Hero.Rab
