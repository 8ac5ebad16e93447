import Hero.Vmm.Mapping

/-!
# Recently mapped pages

The miss handler does not look for pages in the list of recently mapped pages.  The list is right for
as long as no mapping replaces the only entry of a page in it.
-/

namespace Hero.Vmm

open Interp

/-- Requests one after the other. -/
def workload (c : Config) (requests : List Request) : Op Unit :=
  Prog.session (requests.map (Request.prog c))

namespace VmmState

variable (c : Config) (s : VmmState)

/-- Every valid page in the list is mapped. -/
def Sound : Prop :=
  ∀ i < nPe, s.recentlyMappedPages i ≠ 0#20 → s.Mapped c (s.recentlyMappedPages i)

/-- A core is woken up only if a slice of the host or an entry of the library translates its page. -/
def WakesMapped : Call → Prop
  | .wakeUpCore _ _ page => c.host page = true ∨ s.Mapped c page
  | _ => True

/-- The list stays right, and no core is woken up whose page is not mapped. -/
def Good (call : Call) : Prop := (s.step c call).Sound c ∧ s.WakesMapped c call

/-- The entry that a mapping takes is not the only one of a page that stays in the list. -/
def Spares : Call → Prop
  | .config m missed =>
    ∀ i < nPe, (missed = true → i ≠ s.rmpWptr) → s.recentlyMappedPages i ≠ 0#20 →
      s.recentlyMappedPages i ≠ m.page → s.Serves c (s.victim c m.page) (s.recentlyMappedPages i) →
        ∃ slot ≠ s.victim c m.page, s.Serves c slot (s.recentlyMappedPages i)
  | _ => True

end VmmState

open VmmState

section

variable {c : Config} {s : VmmState} {m : Mapping} {missed : Bool} {page : Vpn} {i : Nat}

private theorem configPageRabEntry_recent :
    (s.configPageRabEntry c m).recentlyMappedPages = s.recentlyMappedPages ∧
      (s.configPageRabEntry c m).rmpWptr = s.rmpWptr := by
  rw [configPageRabEntry, advance]
  cases c.lvl <;> cases s.victim c m.page <;> exact ⟨rfl, rfl⟩

private theorem step_config_recent : (s.step c (.config m missed)).recentlyMappedPages i =
    if missed = true ∧ i = s.rmpWptr then m.page else s.recentlyMappedPages i := by
  obtain ⟨hpages, hwptr⟩ := configPageRabEntry_recent (c := c) (s := s) (m := m)
  cases missed with
  | false =>
    change (s.configPageRabEntry c m).recentlyMappedPages i = _
    simp [hpages]
  | true =>
    change ((s.configPageRabEntry c m).addToRecentlyMappedPages m.page).recentlyMappedPages i = _
    simp [addToRecentlyMappedPages, hpages, hwptr, Function.update_apply]

private theorem step_config_mapped_self : (s.step c (.config m missed)).Mapped c m.page := by
  refine ⟨s.victim c m.page, ?_⟩
  rw [step_config_serves, if_pos rfl]

/-- A call that keeps the list right spares the pages in it. -/
private theorem good_spares {call : Call} (h : s.Good c call) : s.Spares c call := by
  cases call with
  | config m missed =>
    intro i hi hstays hvalid hne hserves
    have hsame : (s.step c (.config m missed)).recentlyMappedPages i = s.recentlyMappedPages i := by
      rw [step_config_recent, if_neg fun h => hstays h.1 h.2]
    have hmapped := h.1 i hi
    rw [hsame] at hmapped
    obtain ⟨slot, hslot⟩ := hmapped hvalid
    rw [step_config_serves] at hslot
    split_ifs at hslot with hvictim
    · exact absurd hslot.symm hne
    · exact ⟨slot, hvictim, hslot⟩
  | disable k page => trivial
  | wakeUpCore clusterId coreId page => trivial
  | reset => trivial

private theorem sound_config (hs : s.Sound c) (hspares : s.Spares c (.config m missed)) :
    (s.step c (.config m missed)).Sound c := by
  intro i hi
  rw [step_config_recent]
  split_ifs with hnew
  · intro _
    exact step_config_mapped_self
  · intro hvalid
    by_cases hpage : s.recentlyMappedPages i = m.page
    · rw [hpage]
      exact step_config_mapped_self
    obtain ⟨slot, hslot⟩ := hs i hi hvalid
    by_cases hvictim : slot = s.victim c m.page
    · subst hvictim
      obtain ⟨slot', hne, hslot'⟩ :=
        hspares i hi (fun h h' => hnew ⟨h, h'⟩) hvalid hpage hslot
      refine ⟨slot', ?_⟩
      rwa [step_config_serves, if_neg hne]
    · refine ⟨slot, ?_⟩
      rwa [step_config_serves, if_neg hvictim]

/-- Only the page of the slice that is disabled may no longer be mapped, and it is removed. -/
private theorem sound_disable (hs : s.Sound c) {k : Nat}
    (hk : ∀ m, s.slices k = some m → m.page = page) : (s.step c (.disable k page)).Sound c := by
  intro i hi
  change (if s.recentlyMappedPages i = page then 0#20 else s.recentlyMappedPages i) ≠ 0#20 →
    Mapped c _ (if s.recentlyMappedPages i = page then 0#20 else s.recentlyMappedPages i)
  split_ifs with hpage
  · intro h
    exact absurd rfl h
  · intro hvalid
    obtain ⟨slot, ⟨m, hm, hserved⟩, hplace⟩ := hs i hi hvalid
    have hslot : slot ≠ .slice k := by
      rintro rfl
      exact hpage (hserved.symm.trans (hk m hm))
    refine ⟨slot, ⟨m, ?_, hserved⟩, hplace⟩
    change ((s.setSlot (.slice k) none).removeFromRecentlyMappedPages page).entry slot = some m
    rw [removeFromRecentlyMappedPages_entry, setSlot_entry, if_neg hslot]
    exact hm

private theorem sound_resetVmm : s.resetVmm.Sound c := by
  intro i _ hvalid
  exact absurd rfl hvalid

private theorem pageHasRecentlyBeenMapped_iff : s.pageHasRecentlyBeenMapped page = true ↔
    ∃ i < nPe, s.recentlyMappedPages i = page ∧ page ≠ 0#20 := by
  simp only [pageHasRecentlyBeenMapped, List.any_eq_true, List.mem_range, Bool.and_eq_true,
    decide_eq_true_eq]
  apply exists_congr
  intro i
  apply and_congr_right
  intro _
  constructor
  · rintro ⟨rfl, hvalid⟩
    exact ⟨rfl, hvalid⟩
  · rintro ⟨rfl, hvalid⟩
    exact ⟨rfl, hvalid⟩

/-- A program that keeps the list right and wakes up no core whose page is not mapped, where its
mappings spare the pages in the list. -/
private abbrev KeepsList (c : Config) (p : Op Unit) (Q : VmmState → Prop) : Prop :=
  (vmm c).Triple (Spares c) (Good c) (Sound c) p fun r t => t.Sound c ∧ (r = .ok () → Q t)

private theorem keepsList_mapPage (walk : PageWalk) :
    KeepsList c (mapPage walk missed page) fun t => t.Mapped c page := by
  rw [mapPage]
  cases walk page with
  | error e =>
    apply Triple.fail
    intro t ht
    exact ⟨ht, fun h => by cases h⟩
  | ok r =>
    apply Triple.issue
    · intro t ht hspares
      exact ⟨sound_config ht hspares, trivial⟩
    · intro t ht hspares
      exact ⟨sound_config ht hspares, fun _ => step_config_mapped_self⟩

/-- The slice that is found contains the page that is forgotten. -/
private theorem keepsList_unmapPage (addr : VirtAddr) : KeepsList c (unmapPage c addr) fun _ => True := by
  rw [unmapPage_eq]
  apply Triple.read
  intro s
  cases hfind : (List.range c.nSlices).find? (fun k => sliceContains addr (s.slices k)) with
  | none => exact Triple.fail fun t ht => ⟨ht.1, fun _ => trivial⟩
  | some k =>
    have hsound : ∀ t, t.Sound c ∧ (vmm c).view t = s → (t.step c (.disable k (vpn addr))).Sound c := by
      rintro t ⟨ht, rfl⟩
      have hcontains : sliceContains addr (t.slices k) = true :=
        List.find?_some (p := fun k => sliceContains addr (t.slices k)) hfind
      obtain ⟨m, hm, hpage⟩ := sliceContains_iff.mp hcontains
      apply sound_disable ht
      intro m' hm'
      cases hm.symm.trans hm'
      exact hpage
    apply Triple.issue
    · intro t ht _
      exact ⟨hsound t ht, trivial⟩
    · intro t ht _
      exact ⟨hsound t ht, fun _ => trivial⟩

private theorem keepsList_mapMissed (walk : PageWalk) :
    KeepsList c (mapMissed c walk page) fun t => c.host page = true ∨ t.Mapped c page := by
  apply Triple.read
  intro s
  change (vmm c).Triple _ _ _ (if (!s.pageHasRecentlyBeenMapped page && !s.pageIsMapped c page) = true
    then mapPage walk true page else Prog.ret ()) _
  split
  · apply (keepsList_mapPage walk).conseq (fun t ht => ht.1)
    intro r t ht
    exact ⟨ht.1, fun hr => Or.inr (ht.2 hr)⟩
  · next hknown =>
    apply Triple.ret
    rintro t ⟨ht, rfl⟩
    refine ⟨ht, fun _ => ?_⟩
    rw [Bool.and_eq_true, Bool.not_eq_true', Bool.not_eq_true', not_and_or, Bool.not_eq_false,
      Bool.not_eq_false] at hknown
    rcases hknown with hrecent | hmapped
    · obtain ⟨i, hi, hpage, hvalid⟩ := pageHasRecentlyBeenMapped_iff.mp hrecent
      change t.recentlyMappedPages i = page at hpage
      subst hpage
      exact Or.inr (ht i hi hvalid)
    · exact pageIsMapped_iff.mp hmapped

private theorem keepsList_handleMiss (walk : PageWalk) (miss : RabMiss) :
    KeepsList c (handleMiss c walk miss) fun _ => True := by
  apply Triple.bind (R := fun _ t => t.Sound c ∧
    (c.host (vpn miss.virtAddr) = true ∨ t.Mapped c (vpn miss.virtAddr)))
  · apply (keepsList_mapMissed walk).conseq (fun _ ht => ht)
    intro r t ht
    cases r with
    | error e => exact ⟨ht.1, fun h => by cases h⟩
    | ok _ => exact ⟨ht.1, ht.2 rfl⟩
  · intro _
    rw [wakeUp]
    split
    · exact Triple.ret fun t ht => ⟨ht.1, fun _ => trivial⟩
    · exact Triple.issue (fun t ht _ => ht) fun t ht _ => ⟨ht.1, fun _ => trivial⟩

private theorem keepsList_handleRabMisses (mht : CoreId) (misses : List (RabMiss × PageWalk)) (n : Nat) :
    KeepsList c (handleRabMisses c mht n misses) fun _ => True := by
  induction misses generalizing n with
  | nil =>
    rw [handleRabMisses]
    split
    · exact Triple.ret fun t ht => ⟨ht, fun _ => trivial⟩
    · exact Triple.fail fun t ht => ⟨ht, fun _ => trivial⟩
  | cons miss misses ih =>
    rw [handleRabMisses]
    split_ifs
    · exact Triple.fail fun t ht => ⟨ht, fun _ => trivial⟩
    · exact ih n
    · apply Triple.bind (R := fun _ t => t.Sound c)
      · apply (keepsList_handleMiss miss.2 miss.1).conseq (fun t ht => ht)
        intro r t ht
        cases r with
        | error e => exact ⟨ht.1, fun _ => trivial⟩
        | ok _ => exact ht.1
      · intro _
        exact ih (n + 1)

private theorem keepsList_mapLoop (walk : PageWalk) (last : Vpn) (n : Nat) (page : Vpn) :
    KeepsList c (mapLoop walk last n page) fun _ => True := by
  induction n generalizing page with
  | zero => exact Triple.fail fun t ht => ⟨ht, fun _ => trivial⟩
  | succ n ih =>
    rw [mapLoop]
    split
    · apply Triple.bind (R := fun _ t => t.Sound c)
      · apply (keepsList_mapPage walk).conseq (fun t ht => ht)
        intro r t ht
        cases r with
        | error e => exact ⟨ht.1, fun _ => trivial⟩
        | ok _ => exact ht.1
      · intro _
        exact ih (page + 1#20)
    · exact Triple.ret fun t ht => ⟨ht, fun _ => trivial⟩

private theorem keepsList_request (request : Request) : KeepsList c (request.prog c) fun _ => True := by
  cases request with
  | mapPage walk addr =>
    exact (keepsList_mapPage walk).conseq (fun t ht => ht) fun r t ht => ⟨ht.1, fun _ => trivial⟩
  | mapPages walk addr nBytes =>
    change KeepsList c (Hero.Vmm.mapPages c walk addr nBytes) _
    rw [mapPages]
    split
    · exact Triple.fail fun t ht => ⟨ht, fun _ => trivial⟩
    · exact keepsList_mapLoop walk _ _ _
  | unmapPage addr => exact keepsList_unmapPage addr
  | handleRabMisses mht misses => exact keepsList_handleRabMisses mht misses 0
  | resetVmm =>
    exact Triple.issue (fun t _ _ => ⟨sound_resetVmm, trivial⟩) fun t _ _ =>
      ⟨sound_resetVmm, fun _ => trivial⟩

private theorem keepsList_workload (requests : List Request) :
    (vmm c).Triple (Spares c) (Good c) (Sound c) (workload c requests) fun _ t => t.Sound c := by
  apply Triple.session
  intro p hp
  obtain ⟨request, -, rfl⟩ := List.mem_map.mp hp
  exact (keepsList_request request).conseq (fun t ht => ht) fun r t ht => ht.1

end

/-- After a reset the list stays right, and only cores whose page is mapped are woken up, exactly in
the runs in which every mapping spares the pages in the list. -/
theorem recent_pages_sound_iff (c : Config) (requests : List Request) (s : VmmState) :
    (vmm c).Along (Good c) (workload c requests) s.resetVmm ↔
      (vmm c).Along (Spares c) (workload c requests) s.resetVmm := by
  constructor
  · exact along_mono (fun _ _ => good_spares) (workload c requests)
  · intro h
    exact (keepsList_workload requests s.resetVmm sound_resetVmm h).1

/-- The page that two misses are about. -/
def missOne : RabMiss := ⟨0x1000#32, ⟨0, 1⟩, 2, false⟩

def walkOne : PageWalk := fun page => .ok (page.toNat, false)

/-- A miss on page one, then as many mappings as its set has entries, then another miss on it. -/
def missAfterMappings : List Request :=
  [.handleRabMisses ⟨0, 0⟩ [(missOne, walkOne)]] ++
    (List.range nEntriesPerSet).map
      (fun i => .mapPage walkOne (pageAddr (BitVec.ofNat 20 (1 + nSets * (i + 1))))) ++
    [.handleRabMisses ⟨0, 0⟩ [(missOne, walkOne)]]

/-- Whether the page for which a core is woken up is mapped. -/
private def wakesMappedCheck (c : Config) (s : VmmState) : Call → Bool
  | .wakeUpCore _ _ page => s.pageIsMapped c page
  | _ => true

private theorem missAfterMappings_check :
    ¬ (vmm shipped).Along (fun s call => wakesMappedCheck shipped s call = true)
      (workload shipped missAfterMappings) (resetVmm start) := by
  decide +kernel

private theorem good_wakesMappedCheck {c : Config} {s : VmmState} {call : Call} (h : s.Good c call) :
    wakesMappedCheck c s call = true := by
  cases call with
  | wakeUpCore clusterId coreId page => exact pageIsMapped_iff.mpr h.2
  | config m missed => rfl
  | disable k page => rfl
  | reset => rfl

/-- The mappings replace the entry of page one, but it stays in the list. -/
theorem listed_page_replaced : ¬ (vmm shipped).Along (Good shipped)
    (workload shipped missAfterMappings) (resetVmm start) := by
  intro h
  exact missAfterMappings_check (along_mono (fun _ _ => good_wakesMappedCheck) _ h)

end Hero.Vmm
