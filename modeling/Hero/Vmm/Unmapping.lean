import Hero.Framework.Machine
import Hero.Vmm.Mapping

/-!
# Unmapping pages

With the second level of the RAB, in which the library is shipped, every page is translated by at
most one entry, but pages that are mapped cannot be unmapped.
-/

namespace Hero.Vmm

open Interp

/-- One request after the other, each to its end. -/
def session (c : Config) : Machine VmmState Request (Except Stop Unit) := fun s request =>
  let (result, s') := (vmm c).exec (request.prog c) s
  some (s', [result])

/-- Where a request reaches the end of the address space, page zero, with which the loop then goes on,
is not accessible. -/
def Request.Ends : Request → Prop
  | .mapPages walk addr nBytes =>
    vpn (addr + nBytes - 1#32) = BitVec.allOnes 20 → ∃ e, walk 0#20 = .error e
  | _ => True

namespace VmmState

variable (c : Config) (s : VmmState)

/-- No page is translated by two entries. -/
def Unique : Prop :=
  ∀ page slot slot', s.Serves c slot page → s.Serves c slot' page → slot = slot'

/-- A page that is mapped can be unmapped through any of its addresses, and then no entry is left. -/
def Removable : Prop :=
  ∀ addr, s.Mapped c (vpn addr) →
    ((vmm c).exec (unmapPage c addr) s).1 = .ok () ∧
      ¬ ((vmm c).exec (unmapPage c addr) s).2.Mapped c (vpn addr)

/-- Callers do not map a page that is already mapped. -/
def Respects : Request → Prop
  | .mapPage _ addr => ¬ s.Mapped c (vpn addr)
  | .mapPages _ addr nBytes =>
    ∀ page : Vpn, vpn addr ≤ page → page ≤ vpn (addr + nBytes - 1#32) → ¬ s.Mapped c page
  | _ => True

/-- All entries are in the second level, at most one for each page. -/
structure InL2 : Prop where
  slices : ∀ k, s.slices k = none
  unique : s.Unique c

end VmmState

open VmmState

section

variable {c : Config} {s s' : VmmState} {page : Vpn}

private theorem inL2_start : (start).InL2 c := by
  refine ⟨fun _ => rfl, ?_⟩
  intro page slot slot' hslot
  obtain ⟨⟨m, hm, -⟩, -⟩ := hslot
  cases slot <;> cases hm

private theorem InL2.of_entries (hs : s.InL2 c) {t : VmmState}
    (h : ∀ slot, t.entry slot = s.entry slot) : t.InL2 c := by
  refine ⟨fun k => (h (.slice k)).trans (hs.slices k), ?_⟩
  intro page slot slot' hslot hslot'
  rw [serves_congr h] at hslot hslot'
  exact hs.unique page slot slot' hslot hslot'

private theorem InL2.config (hlvl : c.lvl = .l2) (hs : s.InL2 c) {m : Mapping}
    (hm : ¬ s.Mapped c m.page) : (s.configPageRabEntry c m).InL2 c := by
  constructor
  · intro k
    have hvictim : ¬ Slot.slice k = s.victim c m.page := by
      rw [victim, hlvl]
      exact Slot.noConfusion
    have hentry : (s.configPageRabEntry c m).entry (.slice k) = s.slices k := by
      rw [configPageRabEntry_entry, if_neg hvictim]
      rfl
    exact hentry.trans (hs.slices k)
  · intro page slot slot' hslot hslot'
    rw [config_serves] at hslot hslot'
    split_ifs at hslot hslot' with h h'
    · rw [h, h']
    · exact absurd ⟨slot', hslot ▸ hslot'⟩ hm
    · exact absurd ⟨slot, hslot' ▸ hslot⟩ hm
    · exact hs.unique page slot slot' hslot hslot'

/-- The search among the slices finds nothing. -/
theorem unmapPage_fails (hs : s.InL2 c) (addr : VirtAddr) :
    (vmm c).exec (unmapPage c addr) s = (.error (.errno .enoent), s) := by
  have hnone : (List.range c.nSlices).find? (fun k => sliceContains addr (s.slices k)) = none := by
    rw [List.find?_eq_none]
    intro k _
    rw [hs.slices k]
    exact Bool.false_ne_true
  have hview : (vmm c).view s = s := rfl
  rw [unmapPage_eq, Interp.exec, hview, hnone]
  rfl

theorem removable_iff (hs : s.InL2 c) : s.Removable c ↔ ∀ page, ¬ s.Mapped c page := by
  constructor
  · intro hrem page hmapped
    have hpage : vpn (pageAddr page) = page := by
      apply BitVec.eq_of_toNat_eq
      rw [vpn_toNat, pageAddr_toNat]
      omega
    have hok := (hrem (pageAddr page) (by rw [hpage]; exact hmapped)).1
    rw [unmapPage_fails hs] at hok
    cases hok
  · intro hnone addr hmapped
    exact absurd hmapped (hnone _)

/-- A program that keeps all entries in the second level, at most one for each page. -/
private abbrev Keeps (c : Config) (P : VmmState → Prop) (p : Op Unit) : Prop :=
  (vmm c).Triple (fun _ _ => True) (fun _ _ => True) P p fun _ t => t.InL2 c

private theorem Keeps.exec {P : VmmState → Prop} {p : Op Unit} (hp : Keeps c P p) (hs : P s) :
    ((vmm c).exec p s).2.InL2 c :=
  (hp s hs (along_of_forall (fun _ _ => trivial) p s)).2

private theorem InL2.step_config (hlvl : c.lvl = .l2) (hs : s.InL2 c) {m : Mapping} {missed : Bool}
    (hm : ¬ s.Mapped c m.page) : ((vmm c).step s (.config m missed)).InL2 c := by
  have hconfig := InL2.config hlvl hs hm
  cases missed with
  | false => exact hconfig
  | true => exact InL2.of_entries hconfig fun slot => addToRecentlyMappedPages_entry

private theorem step_config_mapped {m : Mapping} {missed : Bool}
    (h : (s.step c (.config m missed)).Mapped c page) : s.Mapped c page ∨ page = m.page := by
  obtain ⟨slot, hslot⟩ := h
  rw [step_config_serves] at hslot
  split_ifs at hslot with hvictim
  · exact Or.inr hslot.symm
  · exact Or.inl ⟨slot, hslot⟩

private theorem keeps_mapPage (hlvl : c.lvl = .l2) (walk : PageWalk) (missed : Bool) (hs : s.InL2 c)
    (hpage : ¬ s.Mapped c page) :
    (vmm c).Triple (fun _ _ => True) (fun _ _ => True) (fun t => t = s) (mapPage walk missed page)
      fun _ t => t.InL2 c ∧ ∀ q, t.Mapped c q → s.Mapped c q ∨ q = page := by
  rw [mapPage]
  cases walk page with
  | error e =>
    apply Triple.fail
    rintro t rfl
    exact ⟨hs, fun q hq => Or.inl hq⟩
  | ok r =>
    apply Triple.issue fun _ _ _ => trivial
    rintro t rfl -
    exact ⟨InL2.step_config hlvl hs hpage, fun q hq => step_config_mapped hq⟩

private theorem keeps_unmapPage (addr : VirtAddr) : Keeps c (fun t => t.InL2 c) (unmapPage c addr) := by
  intro t ht _
  rw [unmapPage_fails ht]
  exact ⟨along_of_forall (fun _ _ => trivial) _ _, ht⟩

private theorem keeps_mapMissed (hlvl : c.lvl = .l2) (walk : PageWalk) :
    Keeps c (fun t => t.InL2 c) (mapMissed c walk page) := by
  apply Triple.read
  intro s₀
  change Keeps c _ (if (!s₀.pageHasRecentlyBeenMapped page && !s₀.pageIsMapped c page) = true then
    mapPage walk true page else Prog.ret ())
  split
  · next hmiss =>
    have hpage : ¬ s₀.Mapped c page := by
      intro hmapped
      have hyes := pageIsMapped_iff.mpr (Or.inr hmapped)
      rw [hyes, Bool.not_true, Bool.and_false] at hmiss
      cases hmiss
    rintro t ⟨ht, rfl⟩
    exact ((keeps_mapPage hlvl walk true ht hpage).conseq (fun _ hu => hu) fun _ _ hu => hu.1) t rfl
  · exact Triple.ret fun t ht => ht.1

private theorem keeps_handleMiss (hlvl : c.lvl = .l2) (walk : PageWalk) (miss : RabMiss) :
    Keeps c (fun t => t.InL2 c) (handleMiss c walk miss) := by
  apply Triple.bind (R := fun _ t => t.InL2 c)
  · apply (keeps_mapMissed hlvl walk).conseq (fun _ ht => ht)
    intro r t ht
    cases r <;> exact ht
  · intro _
    rw [wakeUp]
    split
    · exact Triple.ret fun t ht => ht
    · exact Triple.issue (fun _ _ _ => trivial) fun t ht _ => ht

private theorem keeps_handleRabMisses (hlvl : c.lvl = .l2) (mht : CoreId)
    (misses : List (RabMiss × PageWalk)) (n : Nat) :
    Keeps c (fun t => t.InL2 c) (handleRabMisses c mht n misses) := by
  induction misses generalizing n with
  | nil =>
    rw [handleRabMisses]
    split
    · exact Triple.ret fun t ht => ht
    · exact Triple.fail fun t ht => ht
  | cons miss misses ih =>
    rw [handleRabMisses]
    split_ifs
    · exact Triple.fail fun t ht => ht
    · exact ih n
    · apply Triple.bind (R := fun _ t => t.InL2 c)
      · apply (keeps_handleMiss hlvl miss.2 miss.1).conseq (fun t ht => ht)
        intro r t ht
        cases r <;> exact ht
      · intro _
        exact ih (n + 1)

private theorem pageAddr_le {p q : Vpn} : pageAddr p ≤ pageAddr q ↔ p ≤ q := by
  rw [BitVec.le_def, BitVec.le_def, pageAddr_toNat, pageAddr_toNat]
  omega

private theorem le_succ_or {page last q : Vpn} (hpage : page ≤ last) (hlast : page ≠ last)
    (hq : page + 1#20 ≤ q) : page ≤ q ∧ q ≠ page := by
  have := page.isLt
  have := last.isLt
  have hne : page.toNat ≠ last.toNat := fun h => hlast (BitVec.eq_of_toNat_eq h)
  rw [BitVec.le_def] at *
  rw [BitVec.toNat_add] at hq
  have hone : (1#20).toNat = 1 := rfl
  rw [hone, Nat.mod_eq_of_lt (by omega)] at hq
  refine ⟨by omega, ?_⟩
  rintro rfl
  omega

private theorem not_le_last {last q : Vpn} (hlast : last ≠ BitVec.allOnes 20)
    (hq : last + 1#20 ≤ q) : ¬ q ≤ last := by
  have := last.isLt
  have hne : last.toNat ≠ 2 ^ 20 - 1 := fun h => hlast (BitVec.eq_of_toNat_eq h)
  rw [BitVec.le_def] at *
  rw [BitVec.toNat_add] at hq
  have hone : (1#20).toNat = 1 := rfl
  rw [hone, Nat.mod_eq_of_lt (by omega)] at hq
  omega

/-- What the loop finds at a page: the rest is not mapped yet, or a whole round is over. -/
private def Ahead (c : Config) (last page : Vpn) (s : VmmState) : Prop :=
  (∀ q, page ≤ q → q ≤ last → ¬ s.Mapped c q) ∨ (last = BitVec.allOnes 20 ∧ page = 0#20)

private theorem Ahead.next {last : Vpn} {t : VmmState} (hs : ∀ q, page ≤ q → q ≤ last → ¬ s.Mapped c q)
    (hpage : page ≤ last) (ht : ∀ q, t.Mapped c q → s.Mapped c q ∨ q = page) :
    Ahead c last (page + 1#20) t := by
  by_cases hlast : page = last
  · subst hlast
    by_cases htop : page = BitVec.allOnes 20
    · subst htop
      exact Or.inr ⟨rfl, by decide⟩
    · exact Or.inl fun q hq hle => absurd hle (not_le_last htop hq)
  · refine Or.inl ?_
    intro q hq hle hmapped
    obtain ⟨hge, hne⟩ := le_succ_or hpage hlast hq
    rcases ht q hmapped with h | h
    · exact hs q hge hle h
    · exact hne h

/-- The loop maps pages that are not mapped yet; past the end of the address space it stops at page
zero. -/
private theorem keeps_mapLoop (hlvl : c.lvl = .l2) (walk : PageWalk) (last : Vpn)
    (hzero : last = BitVec.allOnes 20 → ∃ e, walk 0#20 = .error e) (n : Nat) (page : Vpn) :
    Keeps c (fun t => t.InL2 c ∧ Ahead c last page t) (mapLoop walk last n page) := by
  induction n generalizing page with
  | zero => exact Triple.fail fun t ht => ht.1
  | succ n ih =>
    rw [mapLoop]
    split
    · next hle =>
      rw [pageAddr_le] at hle
      apply Triple.of_states
      rintro s ⟨hs, hahead⟩
      apply Triple.bind (R := fun _ t => t.InL2 c ∧ Ahead c last (page + 1#20) t)
      · rcases hahead with hfree | ⟨hlast, rfl⟩
        · apply (keeps_mapPage hlvl walk false hs (hfree page (BitVec.le_refl _) hle)).conseq
            (fun _ ht => ht)
          intro r t ht
          cases r with
          | error e => exact ht.1
          | ok _ => exact ⟨ht.1, Ahead.next hfree hle ht.2⟩
        · obtain ⟨e, he⟩ := hzero hlast
          rw [mapPage, he]
          apply Triple.fail
          rintro t rfl
          exact hs
      · intro _
        exact ih (page + 1#20)
    · exact Triple.ret fun t ht => ht.1

private theorem keeps_request (hlvl : c.lvl = .l2) (request : Request) :
    Keeps c (fun t => t.InL2 c ∧ t.Respects c request ∧ request.Ends) (request.prog c) := by
  cases request with
  | mapPage walk addr =>
    apply Triple.of_states
    rintro t ⟨ht, hpage, -⟩
    exact (keeps_mapPage hlvl walk false ht hpage).conseq (fun _ hu => hu) fun _ _ hu => hu.1
  | mapPages walk addr nBytes =>
    change Keeps c _ (Hero.Vmm.mapPages c walk addr nBytes)
    rw [mapPages]
    split
    · exact Triple.fail fun t ht => ht.1
    · apply Triple.of_states
      rintro t ⟨ht, hfree, hzero⟩
      apply (keeps_mapLoop hlvl walk _ hzero _ _).conseq ?_ fun _ _ hu => hu
      rintro u rfl
      exact ⟨ht, Or.inl hfree⟩
  | unmapPage addr => exact (keeps_unmapPage addr).conseq (fun t ht => ht.1) fun _ _ hu => hu
  | handleRabMisses mht misses =>
    exact (keeps_handleRabMisses hlvl mht misses 0).conseq (fun t ht => ht.1) fun _ _ hu => hu
  | resetVmm =>
    exact Triple.issue (fun _ _ _ => trivial) fun t ht _ => InL2.of_entries ht.1 fun _ => resetVmm_entry

private theorem session_inL2 (hlvl : c.lvl = .l2) {requests : List Request} {h : List (Except Stop Unit)}
    (hok : Machine.Along (session c) (fun s r => s.Respects c r ∧ r.Ends) start requests)
    (hrun : Machine.run (session c) start requests = some (s, h)) : s.InL2 c := by
  apply Machine.run_invariant (fun s => s.InL2 c) (fun s r => s.Respects c r ∧ r.Ends) ?_ inL2_start hok hrun
  intro s request s' es hs hrequest hstep
  have hs' : ((vmm c).exec (request.prog c) s).2 = s' := by
    cases hstep
    rfl
  exact hs' ▸ Keeps.exec (keeps_request hlvl request) ⟨hs, hrequest⟩

/-- Where callers respect the interface and every loop ends, each page has at most one entry; exactly
while no page is mapped can all mapped pages be unmapped. -/
theorem vmm_unique_removable_iff (c : Config) (hlvl : c.lvl = .l2) (requests : List Request)
    (s : VmmState) (h : List (Except Stop Unit))
    (hok : Machine.Along (session c) (fun s r => s.Respects c r ∧ r.Ends) start requests)
    (hrun : Machine.run (session c) start requests = some (s, h)) :
    s.Unique c ∧ (s.Removable c ↔ ∀ page, ¬ s.Mapped c page) := by
  have hs := session_inL2 hlvl hok hrun
  exact ⟨hs.unique, removable_iff hs⟩

def mapOne : Request := .mapPage (fun _ => .ok (0x80001, false)) 0x1000#32

/-- The state after page one is mapped. -/
def mapOneEnd : VmmState := ((vmm shipped).exec (mapOne.prog shipped) start).2

private theorem mapOneEnd_mapped : mapOneEnd.Mapped shipped (vpn 0x1000#32) :=
  ⟨.l2 1 0, ⟨⟨1#20, 0x80001, false⟩, rfl, rfl⟩, rfl, by decide⟩

private theorem mapOne_respects :
    Machine.Along (session shipped) (fun s r => s.Respects shipped r ∧ r.Ends) start
      [mapOne, .unmapPage 0x1000#32] := by
  refine ⟨⟨?_, trivial⟩, fun _ _ _ => ⟨⟨trivial, trivial⟩, fun _ _ _ => trivial⟩⟩
  rintro ⟨slot, ⟨m, hm, -⟩, -⟩
  cases slot <;> cases hm

private theorem mapOne_run :
    Machine.run (session shipped) start [mapOne, .unmapPage 0x1000#32] =
      some (mapOneEnd, [.ok (), .error (.errno .enoent)]) := rfl

theorem vmm_unique_removable_mapOne : mapOneEnd.Unique shipped ∧
    (mapOneEnd.Removable shipped ↔ ∀ page, ¬ mapOneEnd.Mapped shipped page) :=
  vmm_unique_removable_iff shipped rfl [mapOne, .unmapPage 0x1000#32] mapOneEnd
    [.ok (), .error (.errno .enoent)] mapOne_respects mapOne_run

/-- The page that `map_page` has mapped is not found by `unmap_page`, and stays mapped. -/
theorem vmm_unmap_misses :
    Machine.Along (session shipped) (fun s r => s.Respects shipped r ∧ r.Ends) start
        [mapOne, .unmapPage 0x1000#32] ∧
      Machine.run (session shipped) start [mapOne, .unmapPage 0x1000#32] =
        some (mapOneEnd, [.ok (), .error (.errno .enoent)]) ∧
      mapOneEnd.Mapped shipped (vpn 0x1000#32) ∧ ¬ mapOneEnd.Removable shipped := by
  refine ⟨mapOne_respects, mapOne_run, mapOneEnd_mapped, ?_⟩
  intro hrem
  have hok := (hrem 0x1000#32 mapOneEnd_mapped).1
  cases hok

end

end Hero.Vmm
