import Hero.Framework.Machine
import Mathlib.Data.BitVec
import Mathlib.Logic.Function.Basic

/-!
# Pages mapped for the SMMU

The bottom half of the fault handler pins the page of a fault, puts it on a list and maps it.
Disabling the SMMU goes through the list and undoes all of this.
-/

namespace Hero.Smmu

/-- A `struct page` of user memory. -/
abbrev PageId := Nat

structure SmmuPage (w : Nat) where
  iova : BitVec w
  pagePtr : PageId
  deriving DecidableEq

/-- What the two functions ask of the kernel and of the SMMU. -/
inductive Event (w : Nat)
  | pin (vaddr : BitVec w) (page : PageId)
  | map (vaddr : BitVec w) (page : PageId)
  /-- `iommu_unmap`, with the page that was mapped there. -/
  | unmap (vaddr : BitVec w) (was : Option PageId)
  | putPage (page : PageId)
  | resume (terminate : Bool)

/-- The list behind `smmu_page_ptr`, whose own entry is the one to be filled next, and the user pages
in the I/O page table. -/
structure SmmuState (w : Nat) where
  pages : List (SmmuPage w)
  pageCount : BitVec 32
  domain : BitVec w → Option PageId

/-- A run of the fault handler: the address, the status register, the page that
`get_user_pages_remote` gives, and if `kmalloc` and `iommu_map` succeed. -/
structure Fault (w : Nat) where
  iova : BitVec w
  fsr : BitVec 32
  page : Option PageId
  kmalloc : Bool
  iommuMap : Bool

def pageShift : Nat := 12

def smmuCbFsrTf : Nat := 1

variable {w : Nat}

namespace Fault

variable (f : Fault w)

/-- Align the address to a page border. -/
def vaddr : BitVec w := f.iova &&& (((1#w <<< (w - pageShift)) - 1#w) <<< pageShift)

/-- The fault is a translation fault and nothing else. -/
def Translation : Prop := (f.fsr >>> 2) &&& 0x7f#32 = 0#32 ∧ (f.fsr >>> smmuCbFsrTf) &&& 1#32 ≠ 0#32

instance : Decidable f.Translation := inferInstanceAs (Decidable (_ ∧ _))

end Fault

/-- An entry of the list for a pinned page. -/
def SmmuState.enlist (s : SmmuState w) (f : Fault w) (page : PageId) : SmmuState w :=
  { s with pages := ⟨f.vaddr, page⟩ :: s.pages, pageCount := s.pageCount + 1 }

/-- The contiguous L3 memory is mapped from the start, and an address that is mapped cannot be mapped
again. -/
def SmmuState.iommuMap (l3 : BitVec w → Bool) (s : SmmuState w) (vaddr : BitVec w) (page : PageId) :
    Option (SmmuState w) :=
  if s.domain vaddr = none ∧ l3 vaddr = false then
    some { s with domain := Function.update s.domain vaddr (some page) }
  else none

/-- `pulp_smmu_handle_fault` -/
def handleFault (l3 : BitVec w → Bool) (s : SmmuState w) (f : Fault w) : SmmuState w × List (Event w) :=
  if f.Translation then
    match f.page with
    | none => (s, [.resume true])
    | some page =>
      if f.kmalloc then
        let s := s.enlist f page
        match if f.iommuMap then s.iommuMap l3 f.vaddr page else none with
        | none => (s, [.pin f.vaddr page, .resume true])
        | some s => (s, [.pin f.vaddr page, .map f.vaddr page, .resume false])
      else (s, [.pin f.vaddr page, .resume true])
  else (s, [.resume true])

/-- The loop of `pulp_smmu_dis` -/
def unmapPages (domain : BitVec w → Option PageId) :
    List (SmmuPage w) → (BitVec w → Option PageId) × List (Event w)
  | [] => (domain, [])
  | p :: ps =>
    let (domain', es) := unmapPages (Function.update domain p.iova none) ps
    (domain', .unmap p.iova (domain p.iova) :: .putPage p.pagePtr :: es)

/-- `pulp_smmu_dis` -/
def smmuDis (s : SmmuState w) : SmmuState w × List (Event w) :=
  let (domain, es) := unmapPages s.domain s.pages
  (⟨[], s.pageCount - BitVec.ofNat 32 s.pages.length, domain⟩, es)

/-- After `pulp_smmu_ena` -/
def SmmuState.enabled : SmmuState w := ⟨[], 0, fun _ => none⟩

/-- Runs of the fault handler -/
def faults (l3 : BitVec w → Bool) : Machine (SmmuState w) (Fault w) (Event w) :=
  fun s f => some (handleFault l3 s f)

section Histories

def pins (h : List (Event w)) : List (BitVec w × PageId) :=
  h.filterMap fun | .pin vaddr page => some (vaddr, page) | _ => none

def unmaps (h : List (Event w)) : List (BitVec w × Option PageId) :=
  h.filterMap fun | .unmap vaddr was => some (vaddr, was) | _ => none

def releases (h : List (Event w)) : List PageId :=
  h.filterMap fun | .putPage page => some page | _ => none

/-- The list contains exactly the pages that are mapped. -/
structure SmmuState.Lists (s : SmmuState w) : Prop where
  once : (s.pages.map SmmuPage.iova).Nodup
  mem_iff : ∀ vaddr page, ⟨vaddr, page⟩ ∈ s.pages ↔ s.domain vaddr = some page

/-- Every page that was pinned has been unmapped, from where it was mapped, and released once. -/
structure TornDown (s : SmmuState w) (h : List (Event w)) : Prop where
  empty : s.pages = []
  unmaps : (unmaps h).Perm ((pins h).map fun p => (p.1, some p.2))
  releases : (releases h).Perm ((pins h).map Prod.snd)

/-- The pages are kept track of during the faults and until the SMMU is disabled. -/
def KeepsTrack (l3 : BitVec w → Bool) (fs : List (Fault w)) : Prop :=
  (∀ gs, gs <+: fs → ∀ s h, (faults l3).run .enabled gs = some (s, h) → s.Lists) ∧
    ∀ s h, (faults l3).run .enabled fs = some (s, h) → TornDown (smmuDis s).1 (h ++ (smmuDis s).2)

/-- If its page gets pinned, the fault is handled to its end. -/
def Fault.Completes (l3 : BitVec w → Bool) (s : SmmuState w) (f : Fault w) : Prop :=
  f.Translation → f.page.isSome = true →
    f.kmalloc = true ∧ f.iommuMap = true ∧ s.domain f.vaddr = none ∧ l3 f.vaddr = false

end Histories

section Steps

variable {l3 : BitVec w → Bool} {s t : SmmuState w} {f : Fault w} {h es : List (Event w)}

@[simp] theorem pins_append (h es : List (Event w)) : pins (h ++ es) = pins h ++ pins es :=
  List.filterMap_append

@[simp] theorem unmaps_append (h es : List (Event w)) : unmaps (h ++ es) = unmaps h ++ unmaps es :=
  List.filterMap_append

@[simp] theorem releases_append (h es : List (Event w)) :
    releases (h ++ es) = releases h ++ releases es := List.filterMap_append

/-- What a run of the fault handler can do. -/
inductive Handles (l3 : BitVec w → Bool) (s : SmmuState w) (f : Fault w) :
    SmmuState w × List (Event w) → Prop
  | refused (hok : f.Completes l3 s) : Handles l3 s f (s, [.resume true])
  | mapped (hok : f.Completes l3 s) (page : PageId) (hfree : s.domain f.vaddr = none) :
    Handles l3 s f ({ s.enlist f page with domain := Function.update s.domain f.vaddr (some page) },
      [.pin f.vaddr page, .map f.vaddr page, .resume false])
  | notListed (hno : ¬ f.Completes l3 s) (page : PageId) :
    Handles l3 s f (s, [.pin f.vaddr page, .resume true])
  | notMapped (hno : ¬ f.Completes l3 s) (page : PageId) :
    Handles l3 s f (s.enlist f page, [.pin f.vaddr page, .resume true])

theorem handles (l3 : BitVec w → Bool) (s : SmmuState w) (f : Fault w) :
    Handles l3 s f (handleFault l3 s f) := by
  by_cases htf : f.Translation
  · cases hpage : f.page with
    | none =>
      have hok : f.Completes l3 s := by
        intro _ hsome
        rw [hpage] at hsome
        cases hsome
      rw [handleFault, if_pos htf, hpage]
      exact .refused hok
    | some page =>
      have hsome : f.page.isSome = true := by rw [hpage]; rfl
      rw [handleFault, if_pos htf, hpage]
      cases hkmalloc : f.kmalloc with
      | false =>
        refine .notListed (fun hok => ?_) page
        rw [(hok htf hsome).1] at hkmalloc
        cases hkmalloc
      | true =>
        by_cases hmap : f.iommuMap = true ∧ s.domain f.vaddr = none ∧ l3 f.vaddr = false
        · obtain ⟨hmap, hfree, hl3⟩ := hmap
          have hok : f.Completes l3 s := fun _ _ => ⟨hkmalloc, hmap, hfree, hl3⟩
          have hsome : (s.enlist f page).iommuMap l3 f.vaddr page = some { s.enlist f page with
              domain := Function.update s.domain f.vaddr (some page) } := if_pos ⟨hfree, hl3⟩
          simp only [if_true, hmap, hsome]
          exact .mapped hok page hfree
        · have hno : ¬ f.Completes l3 s := fun hok => hmap (hok htf hsome).2
          have hnone : (if f.iommuMap then (s.enlist f page).iommuMap l3 f.vaddr page else none) =
              none := by
            by_cases hi : f.iommuMap = true
            · rw [if_pos hi]
              exact if_neg fun hfree => hmap ⟨hi, hfree⟩
            · exact if_neg hi
          simp only [if_true, hnone]
          exact .notMapped hno page
  · have hok : f.Completes l3 s := fun htf' => absurd htf' htf
    rw [handleFault, if_neg htf]
    exact .refused hok

theorem faults_eq (l3 : BitVec w → Bool) (s : SmmuState w) (f : Fault w) :
    faults l3 s f = some (t, es) ↔ handleFault l3 s f = (t, es) := Option.some_inj

/-- The entries of the list, the oldest one first. -/
def SmmuState.entries (s : SmmuState w) : List (BitVec w × PageId) :=
  (s.pages.map fun p => (p.iova, p.pagePtr)).reverse

theorem lists_mapped (hs : s.Lists) (page : PageId) (hfree : s.domain f.vaddr = none) :
    SmmuState.Lists { s.enlist f page with domain := Function.update s.domain f.vaddr (some page) } where
  once := by
    rw [SmmuState.enlist, List.map_cons, List.nodup_cons]
    refine ⟨?_, hs.once⟩
    intro hmem
    obtain ⟨p, hp, hiova⟩ := List.mem_map.mp hmem
    have hsome := (hs.mem_iff p.iova p.pagePtr).mp hp
    rw [hiova, hfree] at hsome
    cases hsome
  mem_iff := by
    intro vaddr page'
    simp only [SmmuState.enlist, List.mem_cons, SmmuPage.mk.injEq]
    by_cases hv : vaddr = f.vaddr
    · subst hv
      rw [Function.update_self]
      have hnot : ⟨f.vaddr, page'⟩ ∉ s.pages := by
        intro hmem
        rw [(hs.mem_iff _ _).mp hmem] at hfree
        cases hfree
      simp [hnot, eq_comm]
    · rw [Function.update_of_ne hv]
      simp [hv, hs.mem_iff]

/-- A page on the list that has not been mapped is there twice, or not in the page table. -/
theorem not_lists_enlist (hs : s.Lists) (page : PageId) : ¬ (s.enlist f page).Lists := by
  intro hlists
  have hdomain : s.domain f.vaddr = some page := (hlists.mem_iff f.vaddr page).mp List.mem_cons_self
  have hmem := (hs.mem_iff f.vaddr page).mpr hdomain
  have honce := hlists.once
  rw [SmmuState.enlist, List.map_cons, List.nodup_cons] at honce
  exact honce.1 (List.mem_map_of_mem hmem)

/-- What holds as long as every fault is handled to its end. -/
structure Tracked (s : SmmuState w) (h : List (Event w)) : Prop where
  lists : s.Lists
  pins : pins h = s.entries
  unmaps : unmaps h = []
  releases : releases h = []

theorem tracked_enabled : Tracked (.enabled : SmmuState w) [] where
  lists := ⟨List.nodup_nil, fun _ _ => by simp [SmmuState.enabled]⟩
  pins := rfl
  unmaps := rfl
  releases := rfl

/-- The fault handler unmaps and releases nothing. -/
theorem fault_keeps (hstep : faults l3 s f = some (t, es)) : unmaps es = [] ∧ releases es = [] := by
  rw [faults_eq] at hstep
  have hcases := handles l3 s f
  rw [hstep] at hcases
  cases hcases with
  | refused => exact ⟨rfl, rfl⟩
  | mapped => exact ⟨rfl, rfl⟩
  | notListed => exact ⟨rfl, rfl⟩
  | notMapped => exact ⟨rfl, rfl⟩

theorem tracked_step (hs : Tracked s h) (hok : f.Completes l3 s)
    (hstep : faults l3 s f = some (t, es)) : Tracked t (h ++ es) := by
  obtain ⟨hunmaps, hreleases⟩ := fault_keeps hstep
  have hunmaps' : unmaps (h ++ es) = [] := by rw [unmaps_append, hs.unmaps, hunmaps]; rfl
  have hreleases' : releases (h ++ es) = [] := by rw [releases_append, hs.releases, hreleases]; rfl
  rw [faults_eq] at hstep
  have hcases := handles l3 s f
  rw [hstep] at hcases
  cases hcases with
  | refused =>
    refine ⟨hs.lists, ?_, hunmaps', hreleases'⟩
    rw [pins_append, hs.pins]
    exact List.append_nil _
  | mapped _ page hfree =>
    refine ⟨lists_mapped hs.lists page hfree, ?_, hunmaps', hreleases'⟩
    rw [pins_append, hs.pins, SmmuState.entries, SmmuState.entries, SmmuState.enlist,
      List.map_cons, List.reverse_cons]
    rfl
  | notListed hno => exact absurd hok hno
  | notMapped hno => exact absurd hok hno

/-- No fault brings the number of entries closer to that of the pinned pages. -/
theorem pins_step (hstep : faults l3 s f = some (t, es)) :
    t.pages.length ≤ s.pages.length + (pins es).length := by
  rw [faults_eq] at hstep
  have hcases := handles l3 s f
  rw [hstep] at hcases
  cases hcases with
  | refused => exact Nat.le_add_right _ _
  | mapped => exact Nat.le_refl _
  | notListed => exact Nat.le_add_right _ _
  | notMapped => exact Nat.le_refl _

theorem pins_run {fs : List (Fault w)} (hrun : (faults l3).run s fs = some (t, es)) :
    releases es = [] ∧ t.pages.length ≤ s.pages.length + (pins es).length := by
  have hstart : releases ([] : List (Event w)) = [] ∧
      s.pages.length ≤ s.pages.length + (pins ([] : List (Event w))).length := ⟨rfl, Nat.le_refl _⟩
  have hend := Machine.run_history
    (fun u h => releases h = [] ∧ u.pages.length ≤ s.pages.length + (pins h).length)
    (fun _ _ => True) ?_ hstart (Machine.along_of_forall fun _ _ _ => trivial) hrun
  · exact hend
  · intro u h f u' es hu _ hstep
    obtain ⟨hreleases, hle⟩ := hu
    refine ⟨?_, ?_⟩
    · rw [releases_append, hreleases, (fault_keeps hstep).2]
      rfl
    · have hle' := pins_step hstep
      rw [pins_append, List.length_append]
      omega

theorem faults_run (l3 : BitVec w → Bool) (s : SmmuState w) (fs : List (Fault w)) :
    ∃ t es, (faults l3).run s fs = some (t, es) := by
  induction fs generalizing s with
  | nil => exact ⟨s, [], rfl⟩
  | cons f fs ih =>
    obtain ⟨t, es, hrun⟩ := ih (handleFault l3 s f).1
    exact ⟨t, (handleFault l3 s f).2 ++ es, Machine.run_cons.mpr ⟨_, _, es, rfl, hrun, rfl⟩⟩

/-- A fault that is not handled to its end leaves a page behind that is not on the list, or one on
the list that is not mapped. -/
theorem not_tracked_step (hs : Tracked s h) (hno : ¬ f.Completes l3 s) :
    ∃ t es, faults l3 s f = some (t, es) ∧
      ¬ (t.Lists ∧ (pins (h ++ es)).length ≤ t.pages.length) := by
  refine ⟨(handleFault l3 s f).1, (handleFault l3 s f).2, rfl, ?_⟩
  intro hgood
  obtain ⟨hlists, hle⟩ := hgood
  have hcases := handles l3 s f
  have hlen : (pins h).length = s.pages.length := by
    rw [hs.pins, SmmuState.entries, List.length_reverse, List.length_map]
  generalize handleFault l3 s f = out at hcases hlists hle
  cases hcases with
  | refused hok => exact hno hok
  | mapped hok => exact hno hok
  | notListed _ page =>
    rw [pins_append, List.length_append, hlen] at hle
    exact absurd hle (Nat.not_succ_le_self _)
  | notMapped _ page => exact not_lists_enlist hs.lists page hlists

end Steps

section Teardown

variable {l3 : BitVec w → Bool} {s t : SmmuState w} {h es : List (Event w)}
  {domain : BitVec w → Option PageId} {ps : List (SmmuPage w)}

theorem pins_unmapPages : pins (unmapPages domain ps).2 = [] := by
  induction ps generalizing domain with
  | nil => rfl
  | cons p ps ih => exact ih

theorem releases_unmapPages :
    releases (unmapPages domain ps).2 = ps.map SmmuPage.pagePtr := by
  induction ps generalizing domain with
  | nil => rfl
  | cons p ps ih => exact congrArg (p.pagePtr :: ·) ih

/-- Each entry finds its page mapped, as no other one has the same address. -/
theorem unmaps_unmapPages (honce : (ps.map SmmuPage.iova).Nodup)
    (hmapped : ∀ p ∈ ps, domain p.iova = some p.pagePtr) :
    unmaps (unmapPages domain ps).2 = ps.map fun p => (p.iova, some p.pagePtr) := by
  induction ps generalizing domain with
  | nil => rfl
  | cons p ps ih =>
    rw [List.map_cons, List.nodup_cons] at honce
    have hrest : ∀ q ∈ ps, Function.update domain p.iova none q.iova = some q.pagePtr := by
      intro q hq
      have hne : q.iova ≠ p.iova := fun heq => honce.1 (heq ▸ List.mem_map_of_mem hq)
      rw [Function.update_of_ne hne]
      exact hmapped q (List.mem_cons_of_mem p hq)
    have hhead := hmapped p List.mem_cons_self
    rw [List.map_cons, ← ih honce.2 hrest, ← hhead]
    rfl

theorem tornDown_of_tracked (hs : Tracked s h) : TornDown (smmuDis s).1 (h ++ (smmuDis s).2) := by
  have hpins : pins (h ++ (smmuDis s).2) = s.entries := by
    rw [pins_append, hs.pins]
    exact (congrArg (s.entries ++ ·) pins_unmapPages).trans (List.append_nil _)
  have hmapped : ∀ p ∈ s.pages, s.domain p.iova = some p.pagePtr := fun p hp =>
    (hs.lists.mem_iff p.iova p.pagePtr).mp hp
  refine ⟨rfl, ?_, ?_⟩
  · rw [hpins, unmaps_append, hs.unmaps, List.nil_append]
    change (unmaps (unmapPages s.domain s.pages).2).Perm _
    rw [unmaps_unmapPages hs.lists.once hmapped, SmmuState.entries, List.map_reverse, List.map_map]
    exact (List.reverse_perm _).symm
  · rw [hpins, releases_append, hs.releases, List.nil_append]
    change (releases (unmapPages s.domain s.pages).2).Perm _
    rw [releases_unmapPages, SmmuState.entries, List.map_reverse, List.map_map]
    exact (List.reverse_perm _).symm

/-- All pages that have been pinned are on the list if they are released in the end. -/
theorem pins_le_of_tornDown (hreleases : releases h = [])
    (htorn : TornDown (smmuDis s).1 (h ++ (smmuDis s).2)) : (pins h).length ≤ s.pages.length := by
  have hperm := htorn.releases.length_eq
  rw [releases_append, hreleases, pins_append] at hperm
  change (releases (unmapPages s.domain s.pages).2).length =
    ((pins h ++ pins (unmapPages s.domain s.pages).2).map Prod.snd).length at hperm
  rw [releases_unmapPages, pins_unmapPages, List.append_nil, List.length_map, List.length_map] at hperm
  omega

theorem keepsTrack_iff (l3 : BitVec w → Bool) (fs : List (Fault w)) :
    KeepsTrack l3 fs ↔ (faults l3).Along (Fault.Completes l3) .enabled fs := by
  have hgood : ∀ (s : SmmuState w) h, Tracked s h →
      s.Lists ∧ (pins h).length ≤ s.pages.length := by
    intro s h hs
    refine ⟨hs.lists, ?_⟩
    rw [hs.pins, SmmuState.entries, List.length_reverse, List.length_map]
  have hiff : _ ↔ (faults l3).Along (Fault.Completes l3) .enabled fs :=
    Machine.good_iff_along Tracked (fun s h => s.Lists ∧ (pins h).length ≤ s.pages.length)
      (Fault.Completes l3) hgood (fun s h f s' es => tracked_step) (fun s h f => not_tracked_step)
      tracked_enabled
  constructor
  · intro hkeeps
    obtain ⟨hlists, htorn⟩ := hkeeps
    apply hiff.mp
    intro gs hgs s h hrun
    refine ⟨hlists gs hgs s h hrun, ?_⟩
    obtain ⟨ks, rfl⟩ := hgs
    obtain ⟨t, es, hrest⟩ := faults_run l3 s ks
    have hall := Machine.run_append.mpr ⟨s, h, es, hrun, hrest, rfl⟩
    have hend := pins_le_of_tornDown (pins_run hall).1 (htorn t (h ++ es) hall)
    have hle := (pins_run hrest).2
    rw [pins_append, List.length_append] at hend
    rw [List.nil_append]
    omega
  · intro hok
    refine ⟨fun gs hgs s h hrun => (hiff.mpr hok gs hgs s h hrun).1, ?_⟩
    intro s h hrun
    exact tornDown_of_tracked (Machine.run_history Tracked (Fault.Completes l3)
      (fun s h f s' es => tracked_step) tracked_enabled hok hrun)

/-- The allocation of the list entry fails, or the page cannot be mapped. -/
theorem not_keepsTrack : ¬ KeepsTrack (fun _ : BitVec 64 => false) [⟨0x1234, 2, some 7, false, true⟩] ∧
    ¬ KeepsTrack (fun _ : BitVec 64 => false) [⟨0x1234, 2, some 7, true, false⟩] := by
  constructor
  · intro hkeeps
    have hperm := (hkeeps.2 _ _ rfl).releases
    exact absurd hperm.length_eq (by decide)
  · intro hkeeps
    have hlists := hkeeps.1 _ (List.prefix_refl _) _ _ rfl
    exact absurd ((hlists.mem_iff 0x1000 7).mp (by decide)) (by decide)

end Teardown

end Hero.Smmu
