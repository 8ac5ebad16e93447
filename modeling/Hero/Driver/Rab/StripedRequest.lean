import Hero.Driver.Rab.Rules

/-!
# Striped requests

What a striped request leaves behind: every element has slices of its own that nothing but a manual
free takes away, and its first stripe is in the shadow of its first set.
-/

namespace Hero.Rab

open Driver Flags

/-- Slices with the latest expiration date keep their shadow entries. -/
def RabState.KeepsLocked (s s' : RabState) : Prop :=
  ∀ m k, (s.slice m k).dateExp = maxDate → s'.slice m k = s.slice m k

namespace RabState.KeepsLocked

variable {s s' s'' : RabState}

theorem refl (s : RabState) : s.KeepsLocked s := fun _ _ _ => rfl

theorem trans (h : s.KeepsLocked s') (h' : s'.KeepsLocked s'') : s.KeepsLocked s'' := by
  intro m k hk
  rw [h' m k (by rw [h m k hk]; exact hk), h m k hk]

theorem dateExp (h : s.KeepsLocked s') {m k : Nat} (hk : (s.slice m k).dateExp = maxDate) :
    (s'.slice m k).dateExp = maxDate := by
  rw [h m k hk, hk]

end RabState.KeepsLocked

/-- A shadow entry holds a slice of a stripe. -/
structure L1EntryPort1.Shows (e : L1EntryPort1) (sl : StripeSlice) (flagsHw : Flags) : Prop where
  addrStart : e.addrStart = sl.addrStart
  addrEnd : e.addrEnd = sl.addrEnd
  addrOffset : e.addrOffset = sl.addrOffset
  flagsHw : e.flagsHw = flagsHw

/-- An element has slices for all its sets, and the shadow holds its first stripe. -/
structure StripeElem.Installed (plat : Platform) (s : RabState) (m : Nat) (e : StripeElem) :
    Prop where
  nStripes : e.nStripes = e.stripes.length
  pos : 0 < e.nStripes
  length : e.sliceIdxs.length = e.type.nSets * e.nSlicesPerStripe
  bound : ∀ k ∈ e.sliceIdxs, k < plat.nSlicesPort1
  locked : ∀ k ∈ e.sliceIdxs, (s.slice m k).dateExp = maxDate
  first : ∀ (i k : Nat) (st : Stripe) (sl : StripeSlice), e.sliceIdxs[i]? = some k →
    e.stripes[0]? = some st → st.sliceConfigs[i]? = some sl → (s.slice m k).Shows sl e.flagsHw

theorem StripeElem.Installed.keeps {plat : Platform} {s s' : RabState} {m : Nat} {e : StripeElem}
    (h : e.Installed plat s m) (hs : s.KeepsLocked s') : e.Installed plat s' m := by
  refine ⟨h.nStripes, h.pos, h.length, h.bound, ?_, ?_⟩
  · intro k hk
    exact hs.dateExp (h.locked k hk)
  · intro i k st sl hk hst hsl
    rw [hs m k (h.locked k (List.mem_of_getElem? hk))]
    exact h.first i k st sl hk hst hsl

/-- The element starts with the second stripe in the second set. -/
def StripeElem.Ready (e : StripeElem) : Prop := e.setOffset = 0 ∧ e.stripeIdx = 1

/-- The elements of mapping `m` are installed and have no slice in common. -/
structure Striped (plat : Platform) (s : RabState) (m : Nat) (elems : List StripeElem) : Prop where
  installed : ∀ e ∈ elems, e.Installed plat s m
  ready : ∀ e ∈ elems, e.Ready
  nodup : (elems.flatMap StripeElem.sliceIdxs).Nodup

theorem Striped.nil (plat : Platform) (s : RabState) (m : Nat) : Striped plat s m [] :=
  ⟨by simp, by simp, List.nodup_nil⟩

theorem Striped.keeps {plat : Platform} {s s' : RabState} {m : Nat} {elems : List StripeElem}
    (h : Striped plat s m elems) (hs : s.KeepsLocked s') : Striped plat s' m elems :=
  ⟨fun e he => (h.installed e he).keeps hs, h.ready, h.nodup⟩

section

variable {s : RabState} {req : SliceReq} {pages : Option PageArray}

variable {flagsHw : Flags} {first : Stripe} {j : Nat}

/-- Only the addresses and the flags of the request depend on the slice. -/
theorem forStripe_frame (req : SliceReq) (flagsHw : Flags) (first : Stripe) (j : Nat) :
    (req.forStripe flagsHw first j).rabPort = req.rabPort ∧
    (req.forStripe flagsHw first j).rabMapping = req.rabMapping ∧
    (req.forStripe flagsHw first j).dateCur = req.dateCur ∧
    (req.forStripe flagsHw first j).dateExp = req.dateExp ∧
    (req.forStripe flagsHw first j).pagePtrIdx = req.pagePtrIdx ∧
    (req.forStripe flagsHw first j).pageIdxStart = req.pageIdxStart ∧
    (req.forStripe flagsHw first j).pageIdxEnd = req.pageIdxEnd := by
  unfold SliceReq.forStripe
  cases first.sliceConfigs[j]? <;> exact ⟨rfl, rfl, rfl, rfl, rfl, rfl, rfl⟩

theorem forStripe_shows {sl : StripeSlice} (h : first.sliceConfigs[j]? = some sl) (k : Nat) :
    ({ req.forStripe flagsHw first j with rabSlice := k } : SliceReq).entry.Shows sl flagsHw := by
  simp only [SliceReq.forStripe, h]
  exact ⟨rfl, rfl, rfl, rfl⟩

/-- A slice that expires last is not taken for a striped element. -/
theorem sliceCheck_striped (hport : req.rabPort = .port1) (hcur : req.dateCur = 1)
    (h : s.sliceCheck req) : (s.slice req.rabMapping req.rabSlice).dateExp ≠ maxDate := by
  intro hmax
  simp [RabState.sliceCheck, RabState.entry, hport, hcur, hmax, maxDate] at h

end

/-- The slices taken so far for one element, from the state `s0` on. -/
private structure Taken (plat : Platform) (s0 : RabState) (m : Nat) (flagsHw : Flags)
    (first : Stripe) (req : SliceReq) (idxs : List Nat) (s : RabState) : Prop where
  port : req.rabPort = .port1
  mapping : req.rabMapping = m
  dateCur : req.dateCur = 1
  dateExp : req.dateExp = maxDate
  keeps : s0.KeepsLocked s
  ctrl : s.ctrl = s0.ctrl
  nodup : idxs.Nodup
  bound : ∀ k ∈ idxs, k < plat.nSlicesPort1
  locked : ∀ k ∈ idxs, (s.slice m k).dateExp = maxDate
  fresh : ∀ k ∈ idxs, (s0.slice m k).dateExp ≠ maxDate
  first : ∀ (i k : Nat) (sl : StripeSlice), idxs[i]? = some k →
    first.sliceConfigs[i]? = some sl → (s.slice m k).Shows sl flagsHw

/-- The condition on calls that restricts none. -/
abbrev anyCall : RabState → Call → Prop := fun _ _ => True

section

variable {plat : Platform} {s0 : RabState} {m : Nat} {flagsHw : Flags} {first : Stripe}
  {req : SliceReq} {idxs : List Nat} {pages : PageArray}

/-- Taking one more slice. -/
private theorem Taken.snoc {s : RabState} {k : Nat} (h : Taken plat s0 m flagsHw first req idxs s)
    (hk : s.sliceGet (req.forStripe flagsHw first idxs.length)
      ((req.forStripe flagsHw first idxs.length).rabPort.nSlices plat) = some k) :
    let req' := { req.forStripe flagsHw first idxs.length with rabSlice := k }
    Taken plat s0 m flagsHw first req' (idxs ++ [k])
      ((s.sliceFree req').sliceSetup req' (some pages)) := by
  intro req'
  obtain ⟨hport, hmapping, hcur, hexp, -, -, -⟩ :=
    forStripe_frame req flagsHw first idxs.length
  obtain ⟨hlt, hcheck, -⟩ := RabState.sliceGet_spec hk
  rw [hport, h.port] at hlt
  have hport' : req'.rabPort = .port1 := hport.trans h.port
  have hmapping' : req'.rabMapping = m := hmapping.trans h.mapping
  have hdate : (s.slice m k).dateExp ≠ maxDate := by
    have hne := sliceCheck_striped hport' (hcur.trans h.dateCur) hcheck
    rwa [hmapping'] at hne
  have hslice : ∀ m' k', ((s.sliceFree req').sliceSetup req' (some pages)).slice m' k' =
      if m' = m ∧ k' = k then req'.entry else s.slice m' k' := by
    intro m' k'
    rw [replace_slice hport', hmapping']
  have hnot : k ∉ idxs := fun hmem => hdate (h.locked k hmem)
  refine ⟨hport', hmapping', hcur.trans h.dateCur, hexp.trans h.dateExp, ?_, ?_, ?_, ?_, ?_, ?_, ?_⟩
  · apply h.keeps.trans
    intro m' k' hlocked
    rw [hslice, if_neg]
    intro heq
    obtain ⟨rfl, rfl⟩ := heq
    exact hdate hlocked
  · rw [replace_ctrl, h.ctrl]
  · rw [List.nodup_append]
    refine ⟨h.nodup, List.nodup_singleton k, ?_⟩
    intro a ha b hb hab
    rw [List.mem_singleton] at hb
    exact hnot (hb ▸ hab ▸ ha)
  · intro k' hk'
    rw [List.mem_append, List.mem_singleton] at hk'
    rcases hk' with hk' | rfl
    · exact h.bound k' hk'
    · exact hlt
  · intro k' hk'
    rw [hslice]
    by_cases heq : k' = k
    · rw [if_pos ⟨rfl, heq⟩]
      exact hexp.trans h.dateExp
    · rw [if_neg fun h' => heq h'.2]
      rw [List.mem_append, List.mem_singleton] at hk'
      exact h.locked k' (hk'.resolve_right heq)
  · intro k' hk'
    rw [List.mem_append, List.mem_singleton] at hk'
    rcases hk' with hk' | rfl
    · exact h.fresh k' hk'
    · intro hmax
      apply hdate
      exact h.keeps.dateExp hmax
  · intro i k' sl hi hsl
    rw [hslice]
    by_cases hlen : i < idxs.length
    · rw [List.getElem?_append_left hlen] at hi
      have hne : k' ≠ k := fun heq => hnot (heq ▸ List.mem_of_getElem? hi)
      rw [if_neg fun h' => hne h'.2]
      exact h.first i k' sl hi hsl
    · rw [List.getElem?_append_right (by omega)] at hi
      have hi' : i = idxs.length ∧ k = k' := by
        have hlt' := (List.getElem?_eq_some_iff.mp hi).1
        rw [List.length_singleton] at hlt'
        have h0 : i - idxs.length = 0 := by omega
        rw [h0] at hi
        exact ⟨by omega, Option.some.inj hi⟩
      obtain ⟨rfl, rfl⟩ := hi'
      rw [if_pos ⟨rfl, rfl⟩]
      exact forStripe_shows hsl k

private theorem triple_reqStripedSlices (n : Nat)
    (hport : req.rabPort = .port1) (hmapping : req.rabMapping = m) (hcur : req.dateCur = 1)
    (hexp : req.dateExp = maxDate) :
    (driver plat).Triple anyCall anyCall (fun s => s = s0)
      (reqStripedSlices plat pages flagsHw first req n)
      fun r s => match r with
        | .ok (req', idxs) => Taken plat s0 m flagsHw first req' idxs s ∧ idxs.length = n
        | .error _ => s0.KeepsLocked s ∧ s.ctrl = s0.ctrl := by
  refine Interp.Triple.conseq (Interp.Triple.foldl
    (R := fun pre _ x s => Taken plat s0 m flagsHw first x.1 x.2 s ∧ x.2.length = pre.length)
    (List.range n) ?_ ?_ (req, [])) ?_ fun _ _ h => h
  · intro pre j post x hsplit
    obtain ⟨req, idxs⟩ := x
    have hj : j = pre.length := by
      have hget := congrArg (fun l => l[pre.length]?) hsplit
      simp only [List.getElem?_append_right le_rfl, Nat.sub_self, List.getElem?_cons_zero] at hget
      have hlt : pre.length < n := by
        have hlen := congrArg List.length hsplit
        simp only [List.length_range, List.length_append, List.length_cons] at hlen
        omega
      rw [List.getElem?_range hlt] at hget
      exact (Option.some.inj hget).symm
    apply Interp.Triple.bind (R := fun req' s => Taken plat s0 m flagsHw first req idxs s ∧
      idxs.length = pre.length ∧ ∃ k, req' = { req.forStripe flagsHw first j with rabSlice := k } ∧
        s.sliceGet (req.forStripe flagsHw first j)
          ((req.forStripe flagsHw first j).rabPort.nSlices plat) = some k)
    · apply triple_sliceGet
      · intro s k hs hk
        exact ⟨hs.1, hs.2, k, rfl, hk⟩
      · intro s hs _
        exact ⟨hs.1.keeps, hs.1.ctrl⟩
    · intro req'
      apply Interp.Triple.bind (R := fun _ s => Taken plat s0 m flagsHw first req'
        (idxs ++ [req'.rabSlice]) s ∧ idxs.length = pre.length)
      · apply triple_sliceReplace (R := fun s' => idxs.length = pre.length ∧
          Taken plat s0 m flagsHw first req' (idxs ++ [req'.rabSlice])
            (s'.sliceSetup req' (some pages)))
        · intro s hs _
          obtain ⟨htaken, hlen, k, rfl, hk⟩ := hs
          refine ⟨trivial, hlen, ?_⟩
          rw [hj, ← hlen] at hk ⊢
          exact htaken.snoc hk
        · apply triple_sliceSetup fun _ _ _ => trivial
          intro s hs _
          split
          · next heq =>
            exact ⟨hs.2, hs.1⟩
          · next heq => exact ⟨hs.2.keeps, hs.2.ctrl⟩
      · intro _
        apply Interp.Triple.ret
        intro s hs
        exact ⟨hs.1, by simp [hs.2]⟩
  · intro x s hs
    exact ⟨hs.1, by simpa using hs.2⟩
  · intro s hs
    subst hs
    exact ⟨⟨hport, hmapping, hcur, hexp, .refl s, rfl, List.nodup_nil, by simp, by simp, by simp,
      by simp⟩, rfl⟩

/-- The elements of a request set up so far, from the state `s0` on. -/
private structure Prepared (plat : Platform) (s0 : RabState) (m : Nat) (elems : List StripeElem)
    (s : RabState) : Prop where
  keeps : s0.KeepsLocked s
  ctrl : s.ctrl = s0.ctrl
  striped : Striped plat s m elems

private theorem Prepared.snoc {s s' : RabState} {elems : List StripeElem} {e : StripeElem}
    (h : Prepared plat s0 m elems s) (ht : Taken plat s m flagsHw first req idxs s')
    (he : e.Installed plat s' m) (hready : e.Ready) (hidxs : e.sliceIdxs = idxs) :
    Prepared plat s0 m (elems ++ [e]) s' := by
  have hold := h.striped.keeps ht.keeps
  refine ⟨h.keeps.trans ht.keeps, ht.ctrl.trans h.ctrl, ?_, ?_, ?_⟩
  · intro e' he'
    rcases List.mem_append.mp he' with he' | he'
    · exact hold.installed e' he'
    · rw [List.mem_singleton.mp he']
      exact he
  · intro e' he'
    rcases List.mem_append.mp he' with he' | he'
    · exact hold.ready e' he'
    · rw [List.mem_singleton.mp he']
      exact hready
  · rw [List.flatMap_append, List.flatMap_singleton, hidxs, List.nodup_append]
    refine ⟨hold.nodup, ht.nodup, ?_⟩
    intro a ha b hb hab
    obtain ⟨e', he', ha'⟩ := List.mem_flatMap.mp ha
    apply ht.fresh b hb
    rw [← hab]
    exact (h.striped.installed e' he').locked a ha'

private theorem triple_reqStripedElem (id : Nat) (x : SliceReq × List StripeElem)
    (elem : StripeElemUser × UserPages) :
    (driver plat).Triple anyCall anyCall (Prepared plat s0 (id % nMappingsPort1) x.2)
      (reqStripedElem plat id x elem)
      fun r s => match r with
        | .ok x' => x'.1.rabMapping = id % nMappingsPort1 ∧
            Prepared plat s0 (id % nMappingsPort1) x'.2 s
        | .error _ => s0.KeepsLocked s ∧ s.ctrl = s0.ctrl := by
  obtain ⟨req, elems⟩ := x
  obtain ⟨e, user⟩ := elem
  apply Interp.Triple.bind (R := fun _ => Prepared plat s0 (id % nMappingsPort1) elems)
  · apply triple_memGetUserPages fun _ _ _ => trivial
    · intro s hs _
      exact ⟨hs.keeps, hs.ctrl, hs.striped.keeps (.refl s)⟩
    · intro s hs
      exact ⟨hs.keeps, hs.ctrl⟩
  intro pages
  cases htable : stripeTable e user.pfn with
  | none =>
    apply Interp.Triple.fail
    intro s hs
    exact ⟨hs.keeps, hs.ctrl⟩
  | some table =>
    have hlen := stripeTable_length htable
    cases table with
    | nil =>
      apply Interp.Triple.fail
      intro s hs
      exact ⟨hs.keeps, hs.ctrl⟩
    | cons first rest =>
      apply Interp.Triple.bind (R := fun req s => Prepared plat s0 (id % nMappingsPort1) elems s ∧
        req.rabPort = .port1 ∧ req.rabMapping = id % nMappingsPort1 ∧ req.dateCur = 1 ∧
        req.dateExp = maxDate)
      · apply triple_pagePtrsGetField
        · intro s i hs _
          exact ⟨hs, rfl, rfl, rfl, rfl⟩
        · intro s hs _
          exact ⟨hs.keeps, hs.ctrl⟩
      intro req
      apply Interp.Triple.of_states
      intro s hs
      obtain ⟨hs, hport, hmapping, hcur, hexp⟩ := hs
      refine Interp.Triple.bind (R := fun x s' => Taken plat s (id % nMappingsPort1)
          (Flags.set (BitVec.ofNat 8 e.flags) hwRead) first x.1 x.2 s' ∧
          x.2.length = e.type.nSets * nSlicesPerStripe e.maxStripeSizeB)
        ((triple_reqStripedSlices (e.type.nSets * nSlicesPerStripe e.maxStripeSizeB) hport hmapping
          hcur hexp).conseq (fun _ h => h) ?_) ?_
      · intro r s' hr
        cases r with
        | error err => exact ⟨hs.keeps.trans hr.1, hr.2.trans hs.ctrl⟩
        | ok x => exact hr
      · intro x
        obtain ⟨req', idxs⟩ := x
        apply Interp.Triple.ret
        intro s' hs'
        obtain ⟨ht, hcount⟩ := hs'
        refine ⟨ht.mapping, hs.snoc ht ⟨hlen.symm, ?_, hcount, ht.bound, ht.locked, ?_⟩ ⟨rfl, rfl⟩ rfl⟩
        · rw [show e.nStripes = _ from hlen.symm]
          exact Nat.succ_pos _
        · intro i k st sl hk hst hsl
          cases hst
          exact ht.first i k sl hk hsl

/-- A striped request leaves its elements installed, and an element of an earlier request stays
installed whether the request succeeds or not. -/
theorem triple_rabReqStriped (stack : SliceReq) (id : Nat)
    (elements : List (StripeElemUser × UserPages)) :
    (driver plat).Triple anyCall anyCall (fun s => ∀ m, Striped plat s m (s.ctrl.stripeReq m))
      (rabReqStriped plat stack id elements)
      fun _ s => ∀ m, Striped plat s m (s.ctrl.stripeReq m) := by
  apply Interp.Triple.of_states
  intro s0 hs0
  have hkeeps : ∀ s : RabState, s0.KeepsLocked s ∧ s.ctrl = s0.ctrl →
      ∀ m, Striped plat s m (s.ctrl.stripeReq m) := by
    intro s hs m
    rw [hs.2]
    exact (hs0 m).keeps hs.1
  refine Interp.Triple.bind (R := fun x s => Prepared plat s0 (id % nMappingsPort1) x.2 s ∧
    (x.2 = [] ∨ x.1.rabMapping = id % nMappingsPort1)) ?_ ?_
  · refine Interp.Triple.conseq (Interp.Triple.foldl
      (R := fun _ _ x s => Prepared plat s0 (id % nMappingsPort1) x.2 s ∧
        (x.2 = [] ∨ x.1.rabMapping = id % nMappingsPort1))
      elements ?_ ?_ (stack, [])) ?_ fun _ _ h => h
    · intro pre elem post x _
      refine (triple_reqStripedElem id x elem).conseq (fun s h => h.1) ?_
      intro r s hr
      cases r with
      | error err => exact hkeeps s hr
      | ok x' => exact ⟨hr.2, .inr hr.1⟩
    · exact fun _ _ h => h
    · intro s hs
      subst hs
      exact ⟨⟨.refl s, rfl, .nil plat s _⟩, .inl rfl⟩
  · intro x
    obtain ⟨req, elems⟩ := x
    apply Interp.Triple.issue fun _ _ _ => trivial
    intro s hs _ m
    obtain ⟨hs, hmapping⟩ := hs
    suffices hstriped :
        Striped plat s m (Function.update s.ctrl.stripeReq req.rabMapping elems m) from
      hstriped.keeps (.refl s)
    by_cases hm : m = req.rabMapping
    · subst hm
      rw [Function.update_self]
      rcases hmapping with hnil | hmapping
      · change elems = [] at hnil
        subst hnil
        exact .nil plat s _
      · change req.rabMapping = _ at hmapping
        rw [hmapping]
        exact hs.striped
    · rw [Function.update_of_ne hm]
      exact hkeeps s ⟨hs.keeps, hs.ctrl⟩ m

end

end Hero.Rab
