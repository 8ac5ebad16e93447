import Hero.Framework.FixedSwaps
import Hero.Libpulp.RoundTrip
import Mathlib.Data.List.SplitBy

/-!
# Merging data elements

The requests for static mappings: the order in which the elements are taken, the runs of elements that
share a request, and when the requests do for the elements.
-/

namespace Hero.Libpulp

open FixedSwaps

section Order

variable (ptr : Nat → Nat)

theorem swapAt_length (order : List Nat) (j : Nat) : (swapAt order j).length = order.length := by
  rw [swapAt, List.length_set, List.length_set]

theorem swapAt_getD {order : List Nat} {j : Nat} (hj : j + 1 < order.length) (p : Nat) :
    (swapAt order j).getD p 0 = exchange (order.getD · 0) j p := by
  rw [exchange, swapAt]
  simp only [List.getD_eq_getElem?_getD]
  by_cases hsucc : p = j + 1
  · subst hsucc
    rw [Equiv.swap_apply_right, List.getElem?_set_self (by rwa [List.length_set])]
    rfl
  · rw [List.getElem?_set_ne (Ne.symm hsucc)]
    by_cases hp : p = j
    · subst hp
      rw [Equiv.swap_apply_left, List.getElem?_set_self (by omega)]
      rfl
    · rw [List.getElem?_set_ne (Ne.symm hp), Equiv.swap_apply_of_ne_of_ne hp hsucc]

theorem swapAt_perm {order : List Nat} {j : Nat} (hj : j + 1 < order.length) :
    (swapAt order j).Perm order := by
  have hj' : j < order.length := by omega
  rw [swapAt, List.getD_eq_getElem _ _ hj, List.getD_eq_getElem _ _ hj']
  exact List.set_set_perm hj' hj

/-- The comparisons of the sort are of elements at fixed places of the task. -/
def Descends (j : Nat) : Prop := ptr j > ptr (j + 1)

instance : DecidablePred (Descends ptr) := fun j => inferInstanceAs (Decidable (ptr j > ptr (j + 1)))

/-- A pass of the sort, as a pass over a sequence -/
theorem pass_getD {order : List Nat} {n : Nat} (hn : n < order.length) :
    let next := (List.range n).foldl
      (fun order j => if ptr j > ptr (j + 1) then swapAt order j else order) order
    next.Perm order ∧ ∀ p, next.getD p 0 = FixedSwaps.pass (Descends ptr) (order.getD · 0) n p := by
  induction n with
  | zero => exact ⟨List.Perm.refl order, fun p => rfl⟩
  | succ n ih =>
    obtain ⟨hperm, hget⟩ := ih (by omega)
    simp only [FixedSwaps.pass] at hget ⊢
    rw [List.range_succ, List.foldl_append, List.foldl_append]
    generalize (List.range n).foldl _ order = next at hperm hget ⊢
    have hlen := hperm.length_eq
    have hfun : (next.getD · 0) = (List.range n).foldl
        (fun s j => if Descends ptr j then exchange s j else s) (order.getD · 0) := funext hget
    simp only [List.foldl_cons, List.foldl_nil]
    by_cases h : ptr n > ptr (n + 1)
    · rw [if_pos h, if_pos (show Descends ptr n from h), ← hfun]
      exact ⟨(swapAt_perm (by omega)).trans hperm, swapAt_getD (by omega)⟩
    · rw [if_neg h, if_neg (show ¬ Descends ptr n from h), ← hfun]
      exact ⟨hperm, fun p => rfl⟩

/-- The order the sort leaves: each run of descending elements is reversed and rotated. -/
theorem bubbleSort_eq (order : List Nat) :
    (bubbleSort ptr order).Perm order ∧ ∀ p, p < order.length →
      (bubbleSort ptr order).getD p 0 =
        order.getD (slot (Descends ptr) order.length p) 0 := by
  have hloop : ∀ (k : Nat) (next : List Nat), k ≤ next.length →
      let last := ((List.range (k + 1)).reverse.filter (1 < ·)).foldl (fun order i =>
        (List.range (i - 1)).foldl (fun order j =>
          if ptr j > ptr (j + 1) then swapAt order j else order) order) next
      last.Perm next ∧ ∀ p, last.getD p 0 = passes (Descends ptr) (k - 1) (next.getD · 0) p := by
    intro k
    induction k with
    | zero => exact fun next _ => ⟨List.Perm.refl next, fun p => rfl⟩
    | succ k ih =>
      intro next hk
      rw [List.range_succ, List.reverse_append, List.reverse_singleton, List.singleton_append]
      rcases Nat.eq_zero_or_pos k with rfl | hpos
      · exact ⟨List.Perm.refl next, fun p => rfl⟩
      · rw [List.filter_cons_of_pos (by simpa using hpos), List.foldl_cons, Nat.add_sub_cancel]
        obtain ⟨hperm, hget⟩ := pass_getD ptr (show k < next.length by omega)
        obtain ⟨hperm', hget'⟩ := ih _ (by rw [hperm.length_eq]; omega)
        refine ⟨hperm'.trans hperm, ?_⟩
        intro p
        rw [hget' p, funext hget]
        conv_rhs => rw [show k = k - 1 + 1 by omega, passes]
        rw [show k - 1 + 1 = k by omega]
  obtain ⟨hperm, hget⟩ := hloop order.length order le_rfl
  refine ⟨hperm, ?_⟩
  intro p hp
  rw [bubbleSort, hget p, passes_eq _ hp]

end Order

section Processing

namespace TaskDesc

variable (task : TaskDesc)

/-- The elements with static mappings -/
def staticData : List DataDesc := task.dataDesc.filter fun d => d.passType = .refSvmStatic

/-- The address of element `i` of the task -/
def ptrAt (i : Nat) : Nat := (task.dataDesc[i]?.map DataDesc.ptr).getD 0

/-- The static elements in the order they are taken: the one at place `p` is number `slot p`, where
the runs are those of descending addresses at the beginning of the task. -/
def processed : List DataDesc :=
  (List.range task.staticData.length).filterMap fun p =>
    task.staticData[slot (Descends task.ptrAt) task.staticData.length p]?

end TaskDesc

theorem select_eq (ds : List DataDesc) :
    ((List.range ds.length).filter fun i => (ds[i]?.map DataDesc.passType) = some .refSvmStatic).map
      (ds[·]?) = (ds.filter fun d => d.passType = .refSvmStatic).map some := by
  induction ds using List.reverseRecOn with
  | nil => rfl
  | append_singleton ds d ih =>
    have hold : ∀ i ∈ List.range ds.length, (ds ++ [d])[i]? = ds[i]? := by
      intro i hi
      exact List.getElem?_append_left (List.mem_range.mp hi)
    have hfilter : ((List.range ds.length).filter fun i =>
          ((ds ++ [d])[i]?.map DataDesc.passType) = some .refSvmStatic) =
        (List.range ds.length).filter fun i => (ds[i]?.map DataDesc.passType) = some .refSvmStatic := by
      apply List.filter_congr
      intro i hi
      rw [hold i hi]
    have hmap : (((List.range ds.length).filter fun i =>
          (ds[i]?.map DataDesc.passType) = some .refSvmStatic).map ((ds ++ [d])[·]?)) =
        ((List.range ds.length).filter fun i =>
          (ds[i]?.map DataDesc.passType) = some .refSvmStatic).map (ds[·]?) := by
      apply List.map_congr_left
      intro i hi
      exact hold i (List.mem_of_mem_filter hi)
    rw [List.length_append, List.length_singleton, List.range_succ, List.filter_append, hfilter,
      List.map_append, hmap, ih, List.filter_append, List.map_append]
    congr 1
    by_cases hd : d.passType = .refSvmStatic <;> simp [hd]

/-- The requests are made from the elements in this order. -/
theorem processed_eq (task : TaskDesc) :
    ((bubbleSort task.ptrAt ((List.range task.dataDesc.length).filter fun i =>
      (task.dataDesc[i]?.map DataDesc.passType) = some .refSvmStatic)).filterMap
        (task.dataDesc[·]?)) = task.processed ∧ task.processed.Perm task.staticData := by
  have hselect := select_eq task.dataDesc
  generalize (List.range task.dataDesc.length).filter _ = order at hselect
  have hlen : order.length = task.staticData.length := by
    have hlen := congrArg List.length hselect
    rwa [List.length_map, List.length_map] at hlen
  obtain ⟨hperm, hget⟩ := bubbleSort_eq task.ptrAt order
  have hstatic : order.filterMap (task.dataDesc[·]?) = task.staticData := by
    have hid := congrArg (List.filterMap id) hselect
    rw [List.filterMap_map, List.filterMap_map] at hid
    change order.filterMap (task.dataDesc[·]?) = List.filterMap some _ at hid
    rwa [List.filterMap_some] at hid
  have hlist : bubbleSort task.ptrAt order = (List.range order.length).map fun p =>
      order.getD (slot (Descends task.ptrAt) order.length p) 0 := by
    apply List.ext_getElem
    · rw [List.length_map, List.length_range, hperm.length_eq]
    · intro p hp hp'
      have hget := hget p (by rwa [hperm.length_eq] at hp)
      rw [List.getD_eq_getElem _ _ hp] at hget
      rw [hget, List.getElem_map, List.getElem_range]
  have hsame : (bubbleSort task.ptrAt order).filterMap (task.dataDesc[·]?) = task.processed := by
    rw [hlist, List.filterMap_map, TaskDesc.processed, ← hlen]
    apply List.filterMap_congr
    intro p hp
    have hslot := slot_lt (D := Descends task.ptrAt) (List.mem_range.mp hp)
    have helem := congrArg (·[slot (Descends task.ptrAt) order.length p]?) hselect
    simp only [List.getElem?_map, List.getElem?_eq_getElem hslot, Option.map_some] at helem
    rw [Function.comp_apply, List.getD_eq_getElem _ _ hslot]
    have hslot' : slot (Descends task.ptrAt) order.length p < task.staticData.length := by omega
    rw [List.getElem?_eq_getElem hslot']
    change _ = Option.map some (task.staticData[slot (Descends task.ptrAt) order.length p]?) at helem
    rw [List.getElem?_eq_getElem hslot'] at helem
    exact Option.some.inj helem
  refine ⟨hsame, ?_⟩
  rw [← hsame, ← hstatic]
  exact hperm.filterMap _

end Processing

section Runs

/-- Protection, cacheability and TLB level -/
def DataDesc.SameSettings (d e : DataDesc) : Prop :=
  e.type.prot = d.type.prot ∧ e.cacheCtrl = d.cacheCtrl ∧ e.rabLvl = d.rabLvl

instance (d e : DataDesc) : Decidable (d.SameSettings e) := inferInstanceAs (Decidable (_ ∧ _))

/-- An element that is taken after `d` and extends the interval that ends with `d` -/
def DataDesc.merges (d e : DataDesc) : Bool :=
  decide ((BitVec.ofNat 32 e.ptr - (BitVec.ofNat 32 d.ptr + d.size)).toNat ≤ 0x1000 ∧
    d.SameSettings e)

/-- The interval from the start of `d` to the end of `e` -/
def DataDesc.hull (d e : DataDesc) : RabInterval :=
  ⟨BitVec.ofNat 32 d.ptr, BitVec.ofNat 32 e.ptr + e.size - BitVec.ofNat 32 d.ptr, d.type.prot,
    d.cacheCtrl, d.rabLvl⟩

/-- The interval of a run of elements -/
def hullOf : List DataDesc → RabInterval
  | [] => ⟨0, 0, 0, 0, 0⟩
  | d :: ds => d.hull ((d :: ds).getLast (List.cons_ne_nil d ds))

/-- The runs of elements that share a request -/
def TaskDesc.groups (task : TaskDesc) : List (List DataDesc) :=
  task.processed.splitBy DataDesc.merges

theorem DataDesc.SameSettings.trans {d e f : DataDesc} (h : d.SameSettings e)
    (h' : e.SameSettings f) : d.SameSettings f :=
  ⟨h'.1.trans h.1, h'.2.1.trans h.2.1, h'.2.2.trans h.2.2⟩

/-- The elements of a run have the settings of its first. -/
theorem sameSettings_of_chain {d : DataDesc} {g : List DataDesc}
    (h : (d :: g).IsChain fun x y => x.merges y) : ∀ e ∈ d :: g, d.SameSettings e := by
  induction g generalizing d with
  | nil =>
    intro e he
    rw [List.mem_singleton.mp he]
    exact ⟨rfl, rfl, rfl⟩
  | cons f g ih =>
    rw [List.isChain_cons_cons] at h
    have hfirst := (of_decide_eq_true h.1).2
    intro e he
    rcases List.mem_cons.mp he with rfl | he
    · exact ⟨rfl, rfl, rfl⟩
    · exact hfirst.trans (ih h.2 e he)

/-- A related element extends the last run. -/
theorem splitBy_concat {α : Type*} {r : α → α → Bool} {l : List α} {gs : List (List α)} {g : List α}
    (h : l.splitBy r = gs ++ [g]) (hg : g ≠ []) {d : α} (hd : r (g.getLast hg) d = true) :
    (l ++ [d]).splitBy r = gs ++ [g ++ [d]] := by
  obtain ⟨hflat, hnil, hchain, hbound⟩ := List.splitBy_eq_iff.mp h
  rw [List.splitBy_eq_iff]
  refine ⟨?_, ?_, ?_, ?_⟩
  · rw [hflat]
    simp
  · intro hmem
    rcases List.mem_append.mp hmem with hmem | hmem
    · exact hnil (List.mem_append_left _ hmem)
    · simp at hmem
  · intro x hx
    rcases List.mem_append.mp hx with hx | hx
    · exact hchain x (List.mem_append_left _ hx)
    · rw [List.mem_singleton.mp hx, List.isChain_append]
      refine ⟨hchain g (by simp), List.isChain_singleton d, ?_⟩
      intro y hy z hz
      rw [List.getLast?_eq_getLast_of_ne_nil hg] at hy
      cases hy
      cases hz
      exact hd
  · rw [List.isChain_append] at hbound ⊢
    refine ⟨hbound.1, List.isChain_singleton _, ?_⟩
    intro x hx y hy
    cases hy
    obtain ⟨ha, hb, hr⟩ := hbound.2.2 x hx g rfl
    refine ⟨ha, by simp, ?_⟩
    rw [List.head_append_of_ne_nil hg]
    exact hr

theorem hullOf_concat {g : List DataDesc} (hg : g ≠ []) (d : DataDesc) :
    hullOf (g ++ [d]) = { hullOf g with
      size := (hullOf g).size +
        (BitVec.ofNat 32 d.ptr - ((hullOf g).vAddr + (hullOf g).size) + d.size) } := by
  cases g with
  | nil => exact absurd rfl hg
  | cons f g =>
    simp only [hullOf, DataDesc.hull, List.cons_append, RabInterval.mk.injEq, true_and, and_true]
    have hlast : (f :: (g ++ [d])).getLast (List.cons_ne_nil _ _) = d := by simp
    rw [hlast]
    ring

/-- The interval of a run ends with its last element. -/
theorem hullOf_end {g : List DataDesc} (hg : g ≠ []) :
    (hullOf g).vAddr + (hullOf g).size =
      BitVec.ofNat 32 (g.getLast hg).ptr + (g.getLast hg).size := by
  cases g with
  | nil => exact absurd rfl hg
  | cons f g =>
    simp only [hullOf, DataDesc.hull]
    ring

theorem hullOf_settings {g : List DataDesc} (h : g.IsChain fun x y => x.merges y) {e : DataDesc}
    (he : e ∈ g) : e.type.prot = (hullOf g).prot ∧ e.cacheCtrl = (hullOf g).cacheCtrl ∧
      e.rabLvl = (hullOf g).rabLvl := by
  cases g with
  | nil => exact absurd he List.not_mem_nil
  | cons d g => exact sameSettings_of_chain h e he

/-- An element begins a new interval unless it merges with the element before it. -/
theorem addInterval_concat {ints : List RabInterval} {g : List DataDesc} (hg : g ≠ [])
    (hchain : g.IsChain fun x y => x.merges y) (d : DataDesc) :
    addInterval (ints ++ [hullOf g]) d =
      if (g.getLast hg).merges d then ints ++ [hullOf (g ++ [d])]
      else ints ++ [hullOf g] ++ [d.interval] := by
  have hend := hullOf_end hg
  obtain ⟨hprot, hcache, hlvl⟩ := hullOf_settings hchain (List.getLast_mem hg)
  have hiff : (g.getLast hg).merges d = true ↔
      ¬ (0x1000 < (BitVec.ofNat 32 d.ptr - ((hullOf g).vAddr + (hullOf g).size)).toNat ∨
        d.type.prot ≠ (hullOf g).prot ∨ d.cacheCtrl ≠ (hullOf g).cacheCtrl ∨
          d.rabLvl ≠ (hullOf g).rabLvl) := by
    rw [hend, ← hprot, ← hcache, ← hlvl, DataDesc.merges, decide_eq_true_eq,
      DataDesc.SameSettings]
    simp only [not_or, not_lt, not_not, ne_eq]
  rw [addInterval, List.getLast?_concat]
  simp only [List.dropLast_concat]
  by_cases hmerge : (g.getLast hg).merges d = true
  · rw [if_neg (hiff.mp hmerge), if_pos hmerge, hullOf_concat hg]
  · rw [if_pos (not_not.mp (fun h => hmerge (hiff.mpr h))), if_neg hmerge]

/-- The intervals are those of the runs. -/
theorem foldl_addInterval (l : List DataDesc) :
    l.foldl addInterval [] = (l.splitBy DataDesc.merges).map hullOf := by
  induction l using List.reverseRecOn with
  | nil => rfl
  | append_singleton l d ih =>
    have hsingle : [d].splitBy DataDesc.merges = [[d]] := rfl
    have hinterval : hullOf [d] = d.interval := by
      simp only [hullOf, DataDesc.hull, DataDesc.interval, List.getLast_singleton,
        RabInterval.mk.injEq, true_and, and_true]
      ring
    rw [List.foldl_append, ih]
    simp only [List.foldl_cons, List.foldl_nil]
    rcases List.eq_nil_or_concat (l.splitBy DataDesc.merges) with hnil | ⟨gs, g, hgs⟩
    · rw [List.splitBy_eq_nil.mp hnil, List.nil_append, hsingle, List.map_singleton, hinterval]
      rfl
    · rw [List.concat_eq_append] at hgs
      have hmem : g ∈ l.splitBy DataDesc.merges := by simp [hgs]
      have hg := List.ne_nil_of_mem_splitBy hmem
      rw [hgs, List.map_append, List.map_singleton,
        addInterval_concat hg (List.isChain_of_mem_splitBy hmem)]
      by_cases hmerge : (g.getLast hg).merges d = true
      · rw [if_pos hmerge, splitBy_concat hgs hg hmerge, List.map_append, List.map_singleton]
      · have hlast : ∀ x ∈ l.getLast?, x.merges d = false := by
          intro x hx
          have hflat := List.flatten_splitBy DataDesc.merges l
          rw [hgs, List.flatten_append, List.flatten_singleton] at hflat
          rw [← hflat, List.getLast?_append_of_ne_nil _ hg, List.getLast?_eq_getLast_of_ne_nil hg] at hx
          cases hx
          exact Bool.eq_false_iff.mpr hmerge
        rw [if_neg hmerge, List.splitBy_append_cons [] hlast, hgs, hsingle, List.map_append,
          List.map_append, List.map_singleton, List.map_singleton, hinterval]

/-- The requests are those of the runs. -/
theorem rabRequests_eq (task : TaskDesc) :
    task.rabRequests = task.groups.map fun g =>
      ⟨hullOf g, 1, BitVec.ofInt 8 (task.taskId + 30), BitVec.ofInt 8 (task.taskId + 1)⟩ := by
  have hprocessed := (processed_eq task).1
  simp only [TaskDesc.rabRequests]
  change List.map _ (List.foldl addInterval [] (List.filterMap _ (bubbleSort task.ptrAt _))) = _
  rw [hprocessed, foldl_addInterval, List.map_map]
  rfl

end Runs

section Soundness

def DataDesc.addrEnd (d : DataDesc) : Nat := d.ptr + d.size.toNat

/-- An element and one behind it -/
def DataDesc.Before (d e : DataDesc) : Prop := d.addrEnd ≤ e.ptr

instance (d e : DataDesc) : Decidable (d.Before e) := inferInstanceAs (Decidable (_ ≤ _))

instance : IsTrans DataDesc DataDesc.Before where
  trans d e f h h' := by
    rw [DataDesc.Before, DataDesc.addrEnd] at *
    omega

/-- The addresses of an interval -/
def RabInterval.Owns (r : RabInterval) (x : Nat) : Prop :=
  r.vAddr.toNat ≤ x ∧ x < r.vAddr.toNat + r.size.toNat

def RabInterval.Apart (r s : RabInterval) : Prop := ∀ x, r.Owns x → ¬ s.Owns x

/-- The interval covers an element, with its own settings. -/
structure RabInterval.Covers (r : RabInterval) (d : DataDesc) : Prop where
  lo : r.vAddr.toNat ≤ d.ptr
  hi : d.addrEnd ≤ r.vAddr.toNat + r.size.toNat
  prot : r.prot = d.type.prot
  cacheCtrl : r.cacheCtrl = d.cacheCtrl
  rabLvl : r.rabLvl = d.rabLvl

/-- The requests do for the static elements: each run of elements has one that covers it, bridges gaps
of at most a page, and meets no other unless elements meet. -/
structure TaskDesc.Merged (task : TaskDesc) (reqs : List RabReqArgs) : Prop where
  partition : task.groups.flatten.Perm task.staticData
  length : reqs.length = task.groups.length
  covers : ∀ x ∈ reqs.zip task.groups, ∀ d ∈ x.2, x.1.interval.Covers d
  gaps : ∀ g ∈ task.groups, g.IsChain fun d e => d.Before e ∧ e.ptr ≤ d.addrEnd + 0x1000
  apart : task.staticData.Pairwise DataDesc.Apart →
    (reqs.map (·.interval)).Pairwise RabInterval.Apart

/-- No run goes around the end of the addresses, and none bridges a gap that an element begins in. -/
structure TaskDesc.Mergeable (task : TaskDesc) : Prop where
  ascending : ∀ g ∈ task.groups, g.IsChain DataDesc.Before
  span : ∀ g ∈ task.groups, ∀ d ∈ g.head?, ∀ e ∈ g.getLast?,
    d.ptr < 2 ^ 32 ∧ e.addrEnd < d.ptr + 2 ^ 32
  bridged : task.staticData.Pairwise DataDesc.Apart → ∀ g ∈ task.groups,
    g.IsChain fun d e => ∀ x ∈ task.staticData, ¬ (d.addrEnd ≤ x.ptr ∧ x.ptr < e.ptr)

theorem toNat_ofNat_sub {a b : Nat} (hba : b ≤ a) :
    (BitVec.ofNat 32 a - BitVec.ofNat 32 b).toNat = (a - b) % 2 ^ 32 := by
  have hsum : BitVec.ofNat 32 a = BitVec.ofNat 32 (a - b) + BitVec.ofNat 32 b := by
    rw [← BitVec.ofNat_add, Nat.sub_add_cancel hba]
  rw [hsum, BitVec.add_sub_cancel, BitVec.toNat_ofNat]

theorem ofNat_addrEnd (d : DataDesc) :
    BitVec.ofNat 32 d.addrEnd = BitVec.ofNat 32 d.ptr + d.size := by
  rw [DataDesc.addrEnd, BitVec.ofNat_add, BitVec.ofNat_toNat, BitVec.setWidth_eq]

theorem hullOf_toNat {d : DataDesc} {ds : List DataDesc} {e : DataDesc}
    (he : (d :: ds).getLast (List.cons_ne_nil d ds) = e) (hle : d.ptr ≤ e.addrEnd) :
    (hullOf (d :: ds)).vAddr.toNat = d.ptr % 2 ^ 32 ∧
      (hullOf (d :: ds)).size.toNat = (e.addrEnd - d.ptr) % 2 ^ 32 := by
  simp only [hullOf, DataDesc.hull, he]
  rw [← ofNat_addrEnd, toNat_ofNat_sub hle]
  exact ⟨BitVec.toNat_ofNat _ _, rfl⟩

/-- The elements of an ascending run lie between the start of the first and the end of the last. -/
theorem between_of_ascending {d : DataDesc} {ds : List DataDesc} {e : DataDesc}
    (h : (d :: ds).IsChain DataDesc.Before)
    (he : (d :: ds).getLast (List.cons_ne_nil d ds) = e) :
    ∀ f ∈ d :: ds, d.ptr ≤ f.ptr ∧ f.addrEnd ≤ e.addrEnd := by
  induction ds generalizing d with
  | nil =>
    intro f hf
    obtain rfl := List.mem_singleton.mp hf
    rw [List.getLast_singleton] at he
    rw [he]
    exact ⟨le_rfl, le_rfl⟩
  | cons d' ds ih =>
    rw [List.isChain_cons_cons] at h
    rw [List.getLast_cons (List.cons_ne_nil d' ds)] at he
    have hrest := ih h.2 he
    have hfirst := h.1
    have hnext := hrest d' List.mem_cons_self
    intro f hf
    rw [DataDesc.Before, DataDesc.addrEnd] at hfirst
    rcases List.mem_cons.mp hf with rfl | hf
    · have hend : f.addrEnd = f.ptr + f.size.toNat := rfl
      have hend' : d'.addrEnd = d'.ptr + d'.size.toNat := rfl
      omega
    · have hf := hrest f hf
      omega

/-- A point of an ascending run lies in one of its elements or between two neighbours. -/
theorem element_or_gap {d : DataDesc} {ds : List DataDesc} {e : DataDesc} {x : Nat}
    (he : (d :: ds).getLast (List.cons_ne_nil d ds) = e) (hlo : d.ptr ≤ x) (hhi : x < e.addrEnd) :
    (∃ f ∈ d :: ds, f.Owns x) ∨
      ¬ (d :: ds).IsChain fun f f' => ¬ (f.addrEnd ≤ x ∧ x < f'.ptr) := by
  induction ds generalizing d with
  | nil =>
    rw [List.getLast_singleton] at he
    rw [← he] at hhi
    exact Or.inl ⟨d, List.mem_cons_self, hlo, hhi⟩
  | cons d' ds ih =>
    rw [List.getLast_cons (List.cons_ne_nil d' ds)] at he
    by_cases hown : x < d.addrEnd
    · exact Or.inl ⟨d, List.mem_cons_self, hlo, hown⟩
    · by_cases hnext : x < d'.ptr
      · apply Or.inr
        intro h
        rw [List.isChain_cons_cons] at h
        exact h.1 ⟨not_lt.mp hown, hnext⟩
      · rcases ih he (not_lt.mp hnext) with ⟨f, hf, hown⟩ | hgap
        · exact Or.inl ⟨f, List.mem_cons_of_mem d hf, hown⟩
        · apply Or.inr
          intro h
          rw [List.isChain_cons_cons] at h
          exact hgap h.2

section

variable {d e : DataDesc} {ds : List DataDesc}

theorem hullOf_exact (h : (d :: ds).IsChain DataDesc.Before)
    (he : (d :: ds).getLast (List.cons_ne_nil d ds) = e)
    (hspan : d.ptr < 2 ^ 32 ∧ e.addrEnd < d.ptr + 2 ^ 32) :
    (hullOf (d :: ds)).vAddr.toNat = d.ptr ∧
      (hullOf (d :: ds)).vAddr.toNat + (hullOf (d :: ds)).size.toNat = e.addrEnd := by
  have hfirst := between_of_ascending h he d List.mem_cons_self
  have hend : d.addrEnd = d.ptr + d.size.toNat := rfl
  obtain ⟨hv, hsize⟩ := hullOf_toNat he (by omega)
  rw [Nat.mod_eq_of_lt hspan.1] at hv
  rw [Nat.mod_eq_of_lt (by omega)] at hsize
  rw [hv, hsize]
  omega

theorem covers_of_span (hmerge : (d :: ds).IsChain fun x y => x.merges y)
    (h : (d :: ds).IsChain DataDesc.Before)
    (he : (d :: ds).getLast (List.cons_ne_nil d ds) = e)
    (hspan : d.ptr < 2 ^ 32 ∧ e.addrEnd < d.ptr + 2 ^ 32) :
    ∀ f ∈ d :: ds, (hullOf (d :: ds)).Covers f := by
  obtain ⟨hlo, hhi⟩ := hullOf_exact h he hspan
  intro f hf
  have hbetween := between_of_ascending h he f hf
  obtain ⟨hprot, hcache, hlvl⟩ := hullOf_settings hmerge hf
  exact ⟨by omega, by omega, hprot.symm, hcache.symm, hlvl.symm⟩

theorem gaps_of_span (hmerge : (d :: ds).IsChain fun x y => x.merges y)
    (h : (d :: ds).IsChain DataDesc.Before)
    (he : (d :: ds).getLast (List.cons_ne_nil d ds) = e)
    (hspan : d.ptr < 2 ^ 32 ∧ e.addrEnd < d.ptr + 2 ^ 32) :
    (d :: ds).IsChain fun f f' => f.Before f' ∧ f'.ptr ≤ f.addrEnd + 0x1000 := by
  rw [List.isChain_iff_getElem] at hmerge h ⊢
  intro i hi
  have hbefore := h i hi
  have hbetween := between_of_ascending (List.isChain_iff_getElem.mpr h) he
  have hlow := hbetween _ (List.getElem_mem (show i < (d :: ds).length by omega))
  have hhigh := hbetween _ (List.getElem_mem hi)
  have hend : (d :: ds)[i + 1].addrEnd = (d :: ds)[i + 1].ptr + (d :: ds)[i + 1].size.toNat := rfl
  have hend' : (d :: ds)[i].addrEnd = (d :: ds)[i].ptr + (d :: ds)[i].size.toNat := rfl
  have hgap := (of_decide_eq_true (hmerge i hi)).1
  rw [← ofNat_addrEnd, toNat_ofNat_sub hbefore, Nat.mod_eq_of_lt (by omega)] at hgap
  exact ⟨hbefore, by omega⟩

theorem span_of_covers (h : (d :: ds).IsChain DataDesc.Before)
    (he : (d :: ds).getLast (List.cons_ne_nil d ds) = e)
    (hcovers : ∀ f ∈ d :: ds, (hullOf (d :: ds)).Covers f) :
    d.ptr < 2 ^ 32 ∧ e.addrEnd < d.ptr + 2 ^ 32 := by
  have hfirst := between_of_ascending h he d List.mem_cons_self
  have hend : d.addrEnd = d.ptr + d.size.toNat := rfl
  obtain ⟨hv, hsize⟩ := hullOf_toNat he (by omega)
  have hlast : e ∈ d :: ds := by
    rw [← he]
    exact List.getLast_mem _
  have hhi := (hcovers e hlast).hi
  rw [hv, hsize] at hhi
  have hle := Nat.mod_le (e.addrEnd - d.ptr) (2 ^ 32)
  have hlt := Nat.mod_lt (e.addrEnd - d.ptr) (show 0 < 2 ^ 32 by decide)
  have hlt' := Nat.mod_lt d.ptr (show 0 < 2 ^ 32 by decide)
  have hle' := Nat.mod_le d.ptr (2 ^ 32)
  omega

/-- No element of an ascending run begins between two others. -/
theorem not_bridged_of_mem {g : List DataDesc} (h : g.IsChain DataDesc.Before)
    (hpos : ∀ f ∈ g, 0 < f.size.toNat) {x : DataDesc} (hx : x ∈ g) :
    g.IsChain fun f f' => ¬ (f.addrEnd ≤ x.ptr ∧ x.ptr < f'.ptr) := by
  have hpair := List.pairwise_iff_getElem.mp (List.isChain_iff_pairwise.mp h)
  obtain ⟨k, hk, rfl⟩ := List.getElem_of_mem hx
  rw [List.isChain_iff_getElem]
  intro i hi hgap
  have hki := hpos g[k] (List.getElem_mem hk)
  have hend : g[k].addrEnd = g[k].ptr + g[k].size.toNat := rfl
  have hend' : g[i].addrEnd = g[i].ptr + g[i].size.toNat := rfl
  rcases Nat.lt_trichotomy k i with hlt | rfl | hgt
  · have hbefore : g[k].addrEnd ≤ g[i].ptr := hpair k i hk (by omega) hlt
    omega
  · omega
  · rcases Nat.lt_or_eq_of_le (show i + 1 ≤ k from hgt) with hlt | rfl
    · have hbefore : g[i + 1].addrEnd ≤ g[k].ptr := hpair (i + 1) k hi hk hlt
      have hend'' : g[i + 1].addrEnd = g[i + 1].ptr + g[i + 1].size.toNat := rfl
      omega
    · omega

end

end Soundness

section Requests

variable {task : TaskDesc}

theorem groups_flatten (task : TaskDesc) : task.groups.flatten.Perm task.staticData := by
  rw [TaskDesc.groups, List.flatten_splitBy]
  exact (processed_eq task).2

/-- Only elements of more than four bytes are passed by reference. -/
theorem size_pos_of_static {d : DataDesc} (h : d ∈ task.staticData) : 0 < d.size.toNat := by
  have hpass := of_decide_eq_true (List.mem_filter.mp h).2
  by_contra hzero
  rw [DataDesc.passType, if_neg (by omega)] at hpass
  cases hpass

theorem mem_static_of_group {g : List DataDesc} (hg : g ∈ task.groups) {d : DataDesc} (hd : d ∈ g) :
    d ∈ task.staticData :=
  (groups_flatten task).mem_iff.mp (List.mem_flatten.mpr ⟨g, hg, hd⟩)

theorem apart_symm {d e : DataDesc} (h : d.Apart e) : e.Apart d := fun x he hd => h x hd he

/-- Elements that do not meet, in the order of the runs -/
theorem groups_pairwise (h : task.staticData.Pairwise DataDesc.Apart) :
    task.groups.Pairwise fun g g' => ∀ d ∈ g, ∀ e ∈ g', d.Apart e := by
  have hflat : task.groups.flatten.Pairwise DataDesc.Apart :=
    ((groups_flatten task).pairwise_iff apart_symm).mpr h
  exact (List.pairwise_flatten.mp hflat).2

/-- The interval of a run, as the addresses from its first to its last element -/
theorem exists_span (hm : task.Mergeable) {g : List DataDesc} (hg : g ∈ task.groups) :
    ∃ d ds e, g = d :: ds ∧ (d :: ds).getLast (List.cons_ne_nil d ds) = e ∧
      (hullOf g).vAddr.toNat = d.ptr ∧ (hullOf g).vAddr.toNat + (hullOf g).size.toNat = e.addrEnd := by
  have hne := List.ne_nil_of_mem_splitBy hg
  obtain ⟨d, ds, rfl⟩ := List.exists_cons_of_ne_nil hne
  have hspan := hm.span _ hg d rfl _ (List.getLast?_eq_getLast_of_ne_nil hne)
  exact ⟨d, ds, _, rfl, rfl, hullOf_exact (hm.ascending _ hg) rfl hspan⟩

/-- A run that begins in another meets one of its elements. -/
theorem not_begins_in (hm : task.Mergeable) (hstatic : task.staticData.Pairwise DataDesc.Apart)
    {g g' : List DataDesc} (hg : g ∈ task.groups) (hg' : g' ∈ task.groups)
    (hapart : ∀ d ∈ g, ∀ e ∈ g', d.Apart e) :
    ¬ ((hullOf g).vAddr.toNat ≤ (hullOf g').vAddr.toNat ∧
      (hullOf g').vAddr.toNat < (hullOf g).vAddr.toNat + (hullOf g).size.toNat) := by
  intro h
  obtain ⟨d, ds, e, rfl, he, hlo, hhi⟩ := exists_span hm hg
  obtain ⟨x, xs, _, rfl, _, hlo', _⟩ := exists_span hm hg'
  have hx := mem_static_of_group hg' (d := x) List.mem_cons_self
  have hpos := size_pos_of_static hx
  rcases element_or_gap he (x := x.ptr) (by omega) (by omega) with ⟨f, hf, hown⟩ | hgap
  · exact hapart f hf x List.mem_cons_self x.ptr hown ⟨le_rfl, by omega⟩
  · apply hgap
    have hbridged := hm.bridged hstatic _ hg
    rw [List.isChain_iff_getElem] at hbridged ⊢
    intro i hi
    exact hbridged i hi x hx

theorem apart_of_mergeable (hm : task.Mergeable)
    (hstatic : task.staticData.Pairwise DataDesc.Apart) :
    (task.groups.map hullOf).Pairwise RabInterval.Apart := by
  rw [List.pairwise_map]
  have hpair := groups_pairwise hstatic
  rw [List.pairwise_iff_getElem] at hpair ⊢
  intro i j hi hj hij x hx hx'
  have hgi := List.getElem_mem hi
  have hgj := List.getElem_mem hj
  have hapart := hpair i j hi hj hij
  obtain ⟨hlo, hhi⟩ := hx
  obtain ⟨hlo', hhi'⟩ := hx'
  rcases Nat.le_total (hullOf task.groups[i]).vAddr.toNat (hullOf task.groups[j]).vAddr.toNat with
    hle | hle
  · exact not_begins_in hm hstatic hgi hgj hapart ⟨hle, by omega⟩
  · exact not_begins_in hm hstatic hgj hgi (fun d hd e he => apart_symm (hapart e he d hd))
      ⟨hle, by omega⟩

/-- Runs whose intervals do not meet bridge no element. -/
theorem bridged_of_apart (hasc : ∀ g ∈ task.groups, g.IsChain DataDesc.Before)
    (hcovers : ∀ g ∈ task.groups, ∀ d ∈ g, (hullOf g).Covers d)
    (hapart : (task.groups.map hullOf).Pairwise RabInterval.Apart) :
    ∀ g ∈ task.groups,
      g.IsChain fun d e => ∀ x ∈ task.staticData, ¬ (d.addrEnd ≤ x.ptr ∧ x.ptr < e.ptr) := by
  intro g hg
  rw [List.isChain_iff_getElem]
  intro i hi x hx hgap
  have hpos := size_pos_of_static hx
  obtain ⟨g', hg', hxg'⟩ := List.mem_flatten.mp ((groups_flatten task).mem_iff.mpr hx)
  by_cases heq : g' = g
  · rw [heq] at hxg'
    have hsizes : ∀ f ∈ g, 0 < f.size.toNat := fun f hf =>
      size_pos_of_static (mem_static_of_group hg hf)
    exact List.isChain_iff_getElem.mp (not_bridged_of_mem (hasc g hg) hsizes hxg') i hi hgap
  · -- the address at which the element begins is in the intervals of both runs
    have hsymm : ∀ {r s : RabInterval}, r.Apart s → s.Apart r := fun h y hs hr => h y hr hs
    have hdisj : (hullOf g).Apart (hullOf g') := by
      rw [List.pairwise_map] at hapart
      have : Std.Symm fun a b : List DataDesc => (hullOf a).Apart (hullOf b) := ⟨fun _ _ => hsymm⟩
      exact hapart.forall hg hg' (Ne.symm heq)
    have hlow := (hcovers g hg _ (List.getElem_mem (show i < g.length by omega))).lo
    have hhigh := (hcovers g hg _ (List.getElem_mem hi)).hi
    have hown := hcovers g' hg' x hxg'
    have hend : g[i].addrEnd = g[i].ptr + g[i].size.toNat := rfl
    have hend' : g[i + 1].addrEnd = g[i + 1].ptr + g[i + 1].size.toNat := rfl
    have hend'' : x.addrEnd = x.ptr + x.size.toNat := rfl
    have hhi := hown.hi
    exact hdisj x.ptr ⟨by omega, by omega⟩ ⟨hown.lo, by omega⟩

/-- The requests do for the static elements exactly when the runs can be merged. -/
theorem merged_iff (task : TaskDesc) : task.Merged task.rabRequests ↔ task.Mergeable := by
  have hzip : ∀ x, x ∈ task.rabRequests.zip task.groups ↔
      ∃ g ∈ task.groups, x = (⟨hullOf g, 1, BitVec.ofInt 8 (task.taskId + 30),
        BitVec.ofInt 8 (task.taskId + 1)⟩, g) := by
    intro x
    have hself : task.groups.zip task.groups = task.groups.map fun g => (g, g) := by
      rw [List.zip_eq_zipWith, List.zipWith_self]
    rw [rabRequests_eq, List.zip_map_left, hself, List.map_map]
    simp only [List.mem_map, Function.comp_apply, Prod.map, id, eq_comm (a := x)]
  have hintervals : task.rabRequests.map (·.interval) = task.groups.map hullOf := by
    rw [rabRequests_eq, List.map_map]
    rfl
  constructor
  · intro h
    have hcovers : ∀ g ∈ task.groups, ∀ d ∈ g, (hullOf g).Covers d := fun g hg =>
      h.covers _ ((hzip _).mpr ⟨g, hg, rfl⟩)
    have hasc : ∀ g ∈ task.groups, g.IsChain DataDesc.Before := fun g hg =>
      (h.gaps g hg).imp fun _ _ hgap => hgap.1
    refine ⟨hasc, ?_, ?_⟩
    · intro g hg d hd e he
      obtain ⟨f, ds, rfl⟩ := List.exists_cons_of_ne_nil (List.ne_nil_of_mem_splitBy hg)
      obtain rfl : f = d := Option.some.inj hd
      rw [List.getLast?_eq_getLast_of_ne_nil (List.cons_ne_nil f ds)] at he
      exact span_of_covers (hasc _ hg) (Option.some.inj he) (hcovers _ hg)
    · intro hstatic
      have hapart := h.apart hstatic
      rw [hintervals] at hapart
      exact bridged_of_apart hasc hcovers hapart
  · intro h
    refine ⟨groups_flatten task, by rw [rabRequests_eq, List.length_map], ?_, ?_, ?_⟩
    · intro x hx
      obtain ⟨g, hg, rfl⟩ := (hzip x).mp hx
      obtain ⟨d, ds, rfl⟩ := List.exists_cons_of_ne_nil (List.ne_nil_of_mem_splitBy hg)
      have hlast := List.getLast?_eq_getLast_of_ne_nil (List.cons_ne_nil d ds)
      exact covers_of_span (List.isChain_of_mem_splitBy hg) (h.ascending _ hg) rfl
        (h.span _ hg d rfl _ hlast)
    · intro g hg
      obtain ⟨d, ds, rfl⟩ := List.exists_cons_of_ne_nil (List.ne_nil_of_mem_splitBy hg)
      have hlast := List.getLast?_eq_getLast_of_ne_nil (List.cons_ne_nil d ds)
      exact gaps_of_span (List.isChain_of_mem_splitBy hg) (h.ascending _ hg) rfl
        (h.span _ hg d rfl _ hlast)
    · intro hstatic
      rw [hintervals]
      exact apart_of_mergeable h hstatic

/-- The requests of `pulp_offload_rab_setup`, with its allocations in their order; it writes through
the last of them without having checked it. -/
def TaskDesc.staticRequests (task : TaskDesc) (malloc : Nat → Bool) : Option (List RabReqArgs) :=
  if task.staticData.length = 0 then some []
  else if (List.range 5).all malloc then
    if malloc 5 then some task.rabRequests else none
  else some []

theorem groups_eq_nil (h : task.staticData.length = 0) : task.groups = [] := by
  have hperm := (processed_eq task).2
  rw [List.eq_nil_of_length_eq_zero h] at hperm
  rw [TaskDesc.groups, hperm.eq_nil, List.splitBy_nil]

/-- A task has its static elements mapped exactly when the allocations succeed and the runs can be
merged. -/
theorem staticRequests_merged_iff (task : TaskDesc) (malloc : Nat → Bool) :
    (∃ reqs, task.staticRequests malloc = some reqs ∧ task.Merged reqs) ↔
      (0 < task.staticData.length → ∀ k < 6, malloc k = true) ∧ task.Mergeable := by
  rw [← merged_iff]
  by_cases hzero : task.staticData.length = 0
  · have hnone : task.rabRequests = [] := by rw [rabRequests_eq, groups_eq_nil hzero, List.map_nil]
    simp only [TaskDesc.staticRequests, if_pos hzero, hnone, Option.some.injEq]
    constructor
    · intro h
      obtain ⟨reqs, rfl, hmerged⟩ := h
      exact ⟨fun hpos => absurd hzero hpos.ne', hmerged⟩
    · intro h
      exact ⟨[], rfl, h.2⟩
  · simp only [TaskDesc.staticRequests, if_neg hzero]
    constructor
    · intro h
      obtain ⟨reqs, hreqs, hmerged⟩ := h
      split_ifs at hreqs with hall hlast
      · cases hreqs
        refine ⟨?_, hmerged⟩
        intro _ k hk
        rcases Nat.lt_or_eq_of_le (Nat.le_of_lt_succ hk) with hlt | rfl
        · exact List.all_eq_true.mp hall k (List.mem_range.mpr hlt)
        · exact hlast
      · cases hreqs
        have hflat := hmerged.partition.length_eq
        rw [List.eq_nil_of_length_eq_zero hmerged.length.symm] at hflat
        exact absurd hflat.symm hzero
    · intro h
      have hmalloc := h.1 (Nat.pos_of_ne_zero hzero)
      have hall : (List.range 5).all malloc = true := by
        rw [List.all_eq_true]
        intro k hk
        have hlt := List.mem_range.mp hk
        exact hmalloc k (by omega)
      exact ⟨task.rabRequests, by rw [if_pos hall, if_pos (hmalloc 5 (by decide))], h.2⟩

/-- Three elements of which the first lies between the others: they are not exchanged, and the gap
between the last two is bridged over it. -/
def straddledTask : TaskDesc where
  taskId := 1
  dataDesc :=
    [⟨0x1100, 0, 0, 8#32, .inout, .svmStatic, 0#8, 0#8⟩,
      ⟨0x1000, 0, 0, 8#32, .inout, .svmStatic, 0#8, 0#8⟩,
      ⟨0x1200, 0, 0, 8#32, .inout, .svmStatic, 0#8, 0#8⟩]

theorem staticRequests_not_merged :
    straddledTask.staticRequests (fun _ => true) = some straddledTask.rabRequests ∧
      (straddledTask.rabRequests.map fun r => (r.interval.vAddr, r.interval.size)) =
        [(0x1100#32, 8#32), (0x1000#32, 0x208#32)] ∧
      ¬ straddledTask.Merged straddledTask.rabRequests := by
  refine ⟨rfl, by decide, ?_⟩
  intro h
  have hapart := h.apart (by decide)
  have hlist : (straddledTask.rabRequests.map (·.interval)) =
      [⟨0x1100#32, 8#32, 7#8, 0#8, 0#8⟩, ⟨0x1000#32, 0x208#32, 7#8, 0#8, 0#8⟩] := rfl
  rw [hlist, List.pairwise_cons] at hapart
  exact hapart.1 _ List.mem_cons_self 0x1100 ⟨by decide, by decide⟩ ⟨by decide, by decide⟩

end Requests

end Hero.Libpulp
