import Hero.Driver.Rab.State
import Hero.Framework.Machine
import Mathlib.Data.Finset.Prod
import Mathlib.Algebra.Order.BigOperators.Group.Finset
import Mathlib.Tactic.SplitIfs

/-!
# The second level of the RAB

The shadow of the set-associative L2 TLB, its VA and PA RAMs and the pages it holds.  Each set fills
up to its next entry and then replaces in a circle; invalidation walks up to the next entry only.
-/

namespace Hero.Rab

/-- `RAB_L2_N_SETS` -/
def l2NSets : Nat := 32

/-- `RAB_L2_N_ENTRIES_PER_SET` -/
def l2NEntriesPerSet : Nat := 32

/-- `RAB_L2_EN_ON_PORT` -/
def l2EnOnPort : Platform → Port → Bool
  | .zedboard, _ => false
  | _, .port0 => false
  | _, .port1 => true

/-- `L2Entry`; a page is known by a number. -/
structure L2Entry where
  flags : BitVec 8
  pfnV : BitVec 32
  pfnP : BitVec 32
  pagePtr : Option Nat
  deriving DecidableEq

/-- `L2Set` -/
structure L2Set where
  entry : Nat → L2Entry
  nextEntryIdx : Nat
  isFull : Bool

/-- `L2Tlb` with the registers of the hardware by their offsets, the pages that were installed and
those that were released. -/
structure L2Tlb where
  set : Nat → L2Set
  ram : Nat → BitVec 32
  installed : List Nat
  released : List Nat

def Port.number : Port → Nat
  | .port0 => 0
  | .port1 => 1

/-- The offset of an entry in the VA RAM -/
def offV (port : Port) (i k : Nat) : Nat :=
  (port.number + 1) * 0x4000 + i * l2NEntriesPerSet * 4 + k * 4

/-- The offset of an entry in the PA RAM -/
def offP (port : Port) (i k : Nat) : Nat := offV port i k + l2NEntriesPerSet * l2NSets * 4

/-- `BF_SET` of the virtual page number at bit 4. -/
def vaWord (flags : BitVec 8) (pfnV : BitVec 32) : BitVec 32 :=
  flags.zeroExtend 32 &&& ~~~(0xFFFFF#32 <<< 4) ||| (pfnV &&& 0xFFFFF#32) <<< 4

/-- The set of a virtual page -/
def setNum (pfnV : BitVec 32) : Nat := (pfnV &&& 0x1F#32).toNat

namespace L2Tlb

variable (plat : Platform) (port : Port) (s : L2Tlb)

def entry (i k : Nat) : L2Entry := (s.set i).entry k

def setSet (i : Nat) (set : L2Set) : L2Tlb := { s with set := Function.update s.set i set }

def setEntry (i k : Nat) (e : L2Entry) : L2Tlb :=
  s.setSet i { s.set i with entry := Function.update (s.set i).entry k e }

/-- `iowrite32` -/
def write (offset : Nat) (data : BitVec 32) : L2Tlb :=
  { s with ram := Function.update s.ram offset data }

/-- `put_page` if there is a page. -/
def putPage (page : Option Nat) : L2Tlb := { s with released := s.released ++ page.toList }

/-- `pulp_rab_l2_clear_hw`; the page pointers stay. -/
def clearHw : L2Tlb :=
  if l2EnOnPort plat port then
    { s with
      set := fun i => ⟨fun k => ⟨0#8, 0#32, 0#32, ((s.set i).entry k).pagePtr⟩, 0, false⟩
      ram := fun offset =>
        if ∃ i < l2NSets, ∃ k < l2NEntriesPerSet, offset = offV port i k then 0#32 else s.ram offset }
  else s

/-- `pulp_rab_l2_invalidate_entry` -/
def invalidateEntry (i k : Nat) : L2Tlb :=
  let e := s.entry i k
  let flags := e.flags >>> 1 <<< 1
  ((s.setEntry i k { e with flags, pagePtr := none }).write (offV port i k)
    (vaWord flags e.pfnV)).putPage e.pagePtr

/-- The entry a setup writes is in the state after this. -/
def makeRoom (e : L2Entry) (replace : Bool) : L2Tlb :=
  let i := setNum e.pfnV
  if (s.set i).isFull ∧ replace then s.invalidateEntry port i (s.set i).nextEntryIdx else s

/-- Write an entry to the hardware and the shadow. -/
def install (e : L2Entry) : L2Tlb :=
  let i := setNum e.pfnV
  let k := (s.set i).nextEntryIdx
  let s := (s.write (offV port i k) (vaWord e.flags e.pfnV)).write (offP port i k) e.pfnP
  let s := s.setEntry i k e
  let next := k + 1
  let s := s.setSet i (if next = l2NEntriesPerSet then { s.set i with nextEntryIdx := 0, isFull := true }
    else { s.set i with nextEntryIdx := next })
  { s with installed := s.installed ++ e.pagePtr.toList }

/-- A setup in a full set without replacement fails. -/
def refuses (e : L2Entry) (replace : Bool) : Bool := (s.set (setNum e.pfnV)).isFull && !replace

/-- `pulp_rab_l2_setup_entry` -/
def setupEntry (e : L2Entry) (replace : Bool) : L2Tlb :=
  if s.refuses e replace then s else (s.makeRoom port e replace).install port e

/-- The walk over one set. -/
def invalidateSet (i : Nat) : L2Tlb :=
  let s := (List.range (s.set i).nextEntryIdx).foldl (fun s k => s.invalidateEntry port i k) s
  s.setSet i { s.set i with nextEntryIdx := 0 }

/-- `pulp_rab_l2_invalidate_all_entries` -/
def invalidateAllEntries : L2Tlb :=
  ((List.range l2NSets).foldl (fun s i => s.invalidateSet port i) s).clearHw plat port

/-- The state after `pulp_rab_l2_init`, with any content of the RAMs before. -/
def init (ram : Nat → BitVec 32) : L2Tlb :=
  clearHw plat port ⟨fun _ => ⟨fun _ => ⟨0#8, 0#32, 0#32, none⟩, 0, false⟩, ram, [], []⟩

end L2Tlb

inductive L2Op where
  | setup (e : L2Entry) (replace : Bool)
  | invalidate (i k : Nat)
  | invalidateAll

/-- The TLB as a machine; sets and entries are in range. -/
def l2Machine (plat : Platform) (port : Port) : Machine L2Tlb L2Op Empty := fun s op =>
  match op with
  | .setup e replace => some (s.setupEntry port e replace, [])
  | .invalidate i k =>
    if i < l2NSets ∧ k < l2NEntriesPerSet then some (s.invalidateEntry port i k, []) else none
  | .invalidateAll => some (s.invalidateAllEntries plat port, [])

/-- The hardware and the shadow say the same about an entry. -/
def L2Tlb.Agrees (port : Port) (s : L2Tlb) (i k : Nat) : Prop :=
  let va := s.ram (offV port i k)
  let e := s.entry i k
  va.getLsbD 0 = e.flags.getLsbD 0 ∧ (e.flags.getLsbD 0 = true →
    va.extractLsb' 0 4 = e.flags.extractLsb' 0 4 ∧
    va.extractLsb' 4 20 = e.pfnV.extractLsb' 0 20 ∧ s.ram (offP port i k) = e.pfnP)

/-- No entry is enabled, and every page that was installed was released once. -/
def L2Tlb.Emptied (s : L2Tlb) : Prop :=
  (∀ i < l2NSets, ∀ k < l2NEntriesPerSet, (s.entry i k).flags.getLsbD 0 = false) ∧
    ∀ p, s.installed.count p = s.released.count p

/-- What is asked of an operation. -/
def L2Op.Good (plat : Platform) (port : Port) (s : L2Tlb) (op : L2Op) : Prop :=
  (∀ s' es, l2Machine plat port s op = some (s', es) →
    ∀ i < l2NSets, ∀ k < l2NEntriesPerSet, s'.Agrees port i k) ∧
  match op with
  | .setup e replace => s.refuses e replace = false →
    ((s.makeRoom port e replace).entry (setNum e.pfnV)
      (s.set (setNum e.pfnV)).nextEntryIdx).pagePtr = none
  | .invalidate _ _ => True
  | .invalidateAll => (s.invalidateAllEntries plat port).Emptied

/-- All entries are invalidated only while no full set holds a page from its next entry on. -/
def L2Op.Walked (s : L2Tlb) : L2Op → Prop
  | .invalidateAll => ∀ i < l2NSets, (s.set i).isFull = true →
    ∀ k < l2NEntriesPerSet, (s.set i).nextEntryIdx ≤ k → (s.entry i k).pagePtr = none
  | _ => True

instance (s : L2Tlb) (op : L2Op) : Decidable (op.Walked s) :=
  match op with
  | .setup _ _ => isTrue trivial
  | .invalidate _ _ => isTrue trivial
  | .invalidateAll => inferInstanceAs (Decidable (∀ i < l2NSets, (s.set i).isFull = true →
      ∀ k < l2NEntriesPerSet, (s.set i).nextEntryIdx ≤ k → (s.entry i k).pagePtr = none))

namespace L2Tlb

section

variable {plat : Platform} {port : Port} {s : L2Tlb} {i k : Nat} {e : L2Entry}

@[simp] theorem setEntry_entry (i' k' : Nat) :
    (s.setEntry i k e).entry i' k' = if i' = i ∧ k' = k then e else s.entry i' k' := by
  by_cases hi : i' = i
  · subst hi
    by_cases hk : k' = k <;> simp [setEntry, setSet, entry, hk]
  · simp [setEntry, setSet, entry, hi]

/-- What invalidating an entry does to the shadow. -/
theorem invalidateEntry_entry (i' k' : Nat) : (s.invalidateEntry port i k).entry i' k' =
    if i' = i ∧ k' = k then
      { s.entry i k with flags := (s.entry i k).flags >>> 1 <<< 1, pagePtr := none }
    else s.entry i' k' :=
  setEntry_entry i' k'

theorem invalidateEntry_set (i' : Nat) :
    ((s.invalidateEntry port i k).set i').nextEntryIdx = (s.set i').nextEntryIdx ∧
      ((s.invalidateEntry port i k).set i').isFull = (s.set i').isFull := by
  by_cases hi : i' = i
  · subst hi
    simp [invalidateEntry, setEntry, setSet, write, putPage]
  · simp [invalidateEntry, setEntry, setSet, write, putPage, hi]

theorem invalidateEntry_ram : (s.invalidateEntry port i k).ram =
    Function.update s.ram (offV port i k) (vaWord ((s.entry i k).flags >>> 1 <<< 1) (s.entry i k).pfnV) :=
  rfl

theorem invalidateEntry_pages : (s.invalidateEntry port i k).installed = s.installed ∧
    (s.invalidateEntry port i k).released = s.released ++ (s.entry i k).pagePtr.toList :=
  ⟨rfl, rfl⟩

/-- What a setup does to the shadow. -/
theorem install_entry (i k : Nat) : (s.install port e).entry i k =
    if i = setNum e.pfnV ∧ k = (s.set (setNum e.pfnV)).nextEntryIdx then e else s.entry i k := by
  by_cases hi : i = setNum e.pfnV
  · subst hi
    by_cases hk : k = (s.set (setNum e.pfnV)).nextEntryIdx
    · simp only [install, entry, setSet, setEntry, write, Function.update_self, hk]
      split <;> simp
    · simp only [install, entry, setSet, setEntry, write, Function.update_self, hk]
      split <;> simp [hk]
  · simp [install, entry, setSet, setEntry, write, hi]

theorem install_set (i : Nat) : ((s.install port e).set i).nextEntryIdx =
      (if i = setNum e.pfnV then
        if (s.set i).nextEntryIdx + 1 = l2NEntriesPerSet then 0 else (s.set i).nextEntryIdx + 1
      else (s.set i).nextEntryIdx) ∧
    ((s.install port e).set i).isFull =
      ((s.set i).isFull || (i = setNum e.pfnV && (s.set i).nextEntryIdx + 1 = l2NEntriesPerSet)) := by
  by_cases hi : i = setNum e.pfnV
  · subst hi
    simp only [install, setSet, setEntry, write, Function.update_self]
    split <;> simp_all
  · simp [install, setSet, setEntry, write, hi]

theorem install_ram : (s.install port e).ram = Function.update
    (Function.update s.ram (offV port (setNum e.pfnV) (s.set (setNum e.pfnV)).nextEntryIdx)
      (vaWord e.flags e.pfnV))
    (offP port (setNum e.pfnV) (s.set (setNum e.pfnV)).nextEntryIdx) e.pfnP :=
  rfl

theorem install_pages : (s.install port e).installed = s.installed ++ e.pagePtr.toList ∧
    (s.install port e).released = s.released :=
  ⟨rfl, rfl⟩

theorem setNum_lt (pfnV : BitVec 32) : setNum pfnV < l2NSets := by
  rw [setNum, BitVec.toNat_and]
  exact Nat.lt_of_le_of_lt Nat.and_le_right (by decide)

end

section

variable {port : Port} {i k i' k' : Nat}

/-- The places of the RAMs are all different. -/
theorem offV_inj (hk : k < l2NEntriesPerSet) (hk' : k' < l2NEntriesPerSet) :
    offV port i k = offV port i' k' ↔ i = i' ∧ k = k' := by
  simp only [offV, l2NEntriesPerSet] at *
  omega

theorem offV_ne_offP (hi : i < l2NSets) (hk : k < l2NEntriesPerSet) (i' k' : Nat) :
    offV port i k ≠ offP port i' k' := by
  simp only [offV, offP, l2NSets, l2NEntriesPerSet] at *
  omega

theorem offP_inj (hk : k < l2NEntriesPerSet) (hk' : k' < l2NEntriesPerSet) :
    offP port i k = offP port i' k' ↔ i = i' ∧ k = k' := by
  simp only [offV, offP, l2NSets, l2NEntriesPerSet] at *
  omega

end

/-- The entries in range that hold a page. -/
def holders (s : L2Tlb) (p : Nat) : Finset (Nat × Nat) :=
  (Finset.range l2NSets ×ˢ Finset.range l2NEntriesPerSet).filter fun x =>
    (s.entry x.1 x.2).pagePtr = some p

/-- The RAMs hold the entries, a set that is not full has no pages from its next entry on, and every
page is installed, released or held. -/
structure Inv (port : Port) (s : L2Tlb) : Prop where
  next : ∀ i, (s.set i).nextEntryIdx < l2NEntriesPerSet
  free : ∀ i < l2NSets, (s.set i).isFull = false → ∀ k < l2NEntriesPerSet,
    (s.set i).nextEntryIdx ≤ k → (s.entry i k).pagePtr = none
  va : ∀ i < l2NSets, ∀ k < l2NEntriesPerSet,
    s.ram (offV port i k) = vaWord (s.entry i k).flags (s.entry i k).pfnV
  pa : ∀ i < l2NSets, ∀ k < l2NEntriesPerSet, (s.entry i k).flags.getLsbD 0 = true →
    s.ram (offP port i k) = (s.entry i k).pfnP
  pages : ∀ p, s.installed.count p = s.released.count p + (s.holders p).card

section

variable {plat : Platform} {port : Port} {s : L2Tlb} {i k : Nat} {e : L2Entry}

/-- How many elements meet a condition that changes at one of them only. -/
private theorem card_filter_change {α : Type} [DecidableEq α] {S : Finset α} {x : α} (hx : x ∈ S)
    {P Q : α → Prop} [DecidablePred P] [DecidablePred Q] (h : ∀ y ∈ S, y ≠ x → (P y ↔ Q y)) :
    (S.filter P).card + (if Q x then 1 else 0) = (S.filter Q).card + if P x then 1 else 0 := by
  have hsplit : ∀ (R : α → Prop) [DecidablePred R],
      (S.filter R).card = ((S.erase x).filter R).card + if R x then 1 else 0 := by
    intro R _
    conv_lhs => rw [← Finset.insert_erase hx]
    rw [Finset.filter_insert]
    split
    · rw [Finset.card_insert_of_notMem (by simp)]
    · rfl
  have hrest : (S.erase x).filter P = (S.erase x).filter Q := by
    apply Finset.filter_congr
    intro y hy
    exact h y (Finset.mem_of_mem_erase hy) (Finset.ne_of_mem_erase hy)
  rw [hsplit P, hsplit Q, hrest]
  omega

private theorem count_toList (o : Option Nat) (p : Nat) :
    o.toList.count p = if o = some p then 1 else 0 := by
  cases o with
  | none => rfl
  | some q => simp [List.count_singleton]

private theorem holders_change {s' : L2Tlb} (hi : i < l2NSets) (hk : k < l2NEntriesPerSet)
    (h : ∀ i' k', ¬ (i' = i ∧ k' = k) → s'.entry i' k' = s.entry i' k') (p : Nat) :
    (s'.holders p).card + (s.entry i k).pagePtr.toList.count p =
      (s.holders p).card + (s'.entry i k).pagePtr.toList.count p := by
  rw [count_toList, count_toList]
  have hmem : (i, k) ∈ Finset.range l2NSets ×ˢ Finset.range l2NEntriesPerSet := by
    simp [hi, hk]
  have hrest : ∀ y ∈ Finset.range l2NSets ×ˢ Finset.range l2NEntriesPerSet, y ≠ (i, k) →
      ((s'.entry y.1 y.2).pagePtr = some p ↔ (s.entry y.1 y.2).pagePtr = some p) := by
    intro y _ hy
    rw [h y.1 y.2 fun hno => hy (Prod.ext hno.1 hno.2)]
  exact card_filter_change hmem hrest

/-- Invalidating an entry keeps the invariant. -/
theorem Inv.invalidateEntry (h : Inv port s) (hi : i < l2NSets) (hk : k < l2NEntriesPerSet) :
    Inv port (s.invalidateEntry port i k) := by
  constructor
  · intro i'
    rw [(invalidateEntry_set i').1]
    exact h.next i'
  · intro i' hi' hfull k' hk' hle
    rw [(invalidateEntry_set i').1] at hle
    rw [(invalidateEntry_set i').2] at hfull
    rw [invalidateEntry_entry]
    split
    · rfl
    · exact h.free i' hi' hfull k' hk' hle
  · intro i' hi' k' hk'
    rw [invalidateEntry_ram, invalidateEntry_entry]
    by_cases hsame : i' = i ∧ k' = k
    · rw [if_pos hsame, hsame.1, hsame.2, Function.update_self]
    · rw [if_neg hsame, Function.update_of_ne fun heq => hsame ((offV_inj hk' hk).mp heq)]
      exact h.va i' hi' k' hk'
  · intro i' hi' k' hk' hen
    rw [invalidateEntry_entry] at hen
    rw [invalidateEntry_ram, invalidateEntry_entry,
      Function.update_of_ne (offV_ne_offP hi hk i' k').symm]
    by_cases hsame : i' = i ∧ k' = k
    · rw [if_pos hsame] at hen
      simp at hen
    · rw [if_neg hsame] at hen ⊢
      exact h.pa i' hi' k' hk' hen
  · intro p
    have hrest : ∀ i' k', ¬ (i' = i ∧ k' = k) →
        (s.invalidateEntry port i k).entry i' k' = s.entry i' k' := by
      intro i' k' hne
      rw [invalidateEntry_entry, if_neg hne]
    have hchange := holders_change hi hk hrest p
    rw [invalidateEntry_entry, if_pos ⟨rfl, rfl⟩] at hchange
    change _ = _ + 0 at hchange
    rw [invalidateEntry_pages.1, invalidateEntry_pages.2, List.count_append]
    have hpages := h.pages p
    omega

/-- Room is made by releasing the page of the entry to be written. -/
theorem Inv.makeRoom (h : Inv port s) (replace : Bool) (hroom : s.refuses e replace = false) :
    Inv port (s.makeRoom port e replace) ∧
      ((s.makeRoom port e replace).set (setNum e.pfnV)).nextEntryIdx =
        (s.set (setNum e.pfnV)).nextEntryIdx ∧
      ((s.makeRoom port e replace).entry (setNum e.pfnV)
        (s.set (setNum e.pfnV)).nextEntryIdx).pagePtr = none := by
  have hset := setNum_lt e.pfnV
  have hnext := h.next (setNum e.pfnV)
  rw [L2Tlb.makeRoom]
  split
  · refine ⟨h.invalidateEntry hset hnext, (invalidateEntry_set _).1, ?_⟩
    rw [invalidateEntry_entry, if_pos ⟨rfl, rfl⟩]
  · next hno =>
    refine ⟨h, rfl, h.free _ hset ?_ _ hnext le_rfl⟩
    rw [refuses] at hroom
    simp_all

/-- Writing an entry without a page keeps the invariant. -/
theorem Inv.install (h : Inv port s)
    (hnone : (s.entry (setNum e.pfnV) (s.set (setNum e.pfnV)).nextEntryIdx).pagePtr = none) :
    Inv port (s.install port e) := by
  have hset := setNum_lt e.pfnV
  have hnext := h.next (setNum e.pfnV)
  constructor
  · intro i
    rw [(install_set i).1]
    have hi := h.next i
    split_ifs <;> simp only [l2NEntriesPerSet] at * <;> omega
  · intro i hi hfull k hk hle
    rw [(install_set i).1] at hle
    rw [(install_set i).2, Bool.or_eq_false_iff] at hfull
    rw [install_entry]
    by_cases hsame : i = setNum e.pfnV
    · subst hsame
      have hlast : ¬ (s.set (setNum e.pfnV)).nextEntryIdx + 1 = l2NEntriesPerSet := by simpa using hfull.2
      rw [if_pos rfl, if_neg hlast] at hle
      rw [if_neg (by omega)]
      exact h.free _ hi hfull.1 k hk (by omega)
    · rw [if_neg hsame] at hle
      rw [if_neg fun hno => hsame hno.1]
      exact h.free i hi hfull.1 k hk hle
  · intro i hi k hk
    rw [install_ram, install_entry, Function.update_of_ne (offV_ne_offP hi hk _ _)]
    by_cases hsame : i = setNum e.pfnV ∧ k = (s.set (setNum e.pfnV)).nextEntryIdx
    · rw [if_pos hsame, hsame.1, hsame.2, Function.update_self]
    · rw [if_neg hsame, Function.update_of_ne fun heq => hsame ((offV_inj hk hnext).mp heq)]
      exact h.va i hi k hk
  · intro i hi k hk hen
    rw [install_entry] at hen
    rw [install_ram, install_entry]
    by_cases hsame : i = setNum e.pfnV ∧ k = (s.set (setNum e.pfnV)).nextEntryIdx
    · rw [if_pos hsame, hsame.1, hsame.2, Function.update_self]
    · rw [if_neg hsame] at hen ⊢
      rw [Function.update_of_ne fun heq => hsame ((offP_inj hk hnext).mp heq),
        Function.update_of_ne (offV_ne_offP hset hnext i k).symm]
      exact h.pa i hi k hk hen
  · intro p
    have hrest : ∀ i k, ¬ (i = setNum e.pfnV ∧ k = (s.set (setNum e.pfnV)).nextEntryIdx) →
        (s.install port e).entry i k = s.entry i k := by
      intro i k hne
      rw [install_entry, if_neg hne]
    have hchange := holders_change hset hnext hrest p
    rw [install_entry, if_pos ⟨rfl, rfl⟩, hnone] at hchange
    change _ + 0 = _ at hchange
    rw [install_pages.1, install_pages.2, List.count_append]
    have hpages := h.pages p
    omega

theorem Inv.setupEntry (h : Inv port s) (e : L2Entry) (replace : Bool) :
    Inv port (s.setupEntry port e replace) := by
  rw [L2Tlb.setupEntry]
  cases hroom : s.refuses e replace with
  | true => exact h
  | false =>
    obtain ⟨hinv, hnext, hnone⟩ := h.makeRoom replace hroom
    rw [← hnext] at hnone
    exact hinv.install hnone

/-- The first `n` entries of set `i` were invalidated. -/
private structure WalkedTo (port : Port) (s : L2Tlb) (i n : Nat) (s' : L2Tlb) : Prop where
  inv : Inv port s'
  set : ∀ i', (s'.set i').nextEntryIdx = (s.set i').nextEntryIdx ∧ (s'.set i').isFull = (s.set i').isFull
  pagePtr : ∀ i' k, (s'.entry i' k).pagePtr =
    if i' = i ∧ k < n then none else (s.entry i' k).pagePtr

private theorem Inv.walk (h : Inv port s) (hi : i < l2NSets) (n : Nat) (hn : n ≤ l2NEntriesPerSet) :
    WalkedTo port s i n ((List.range n).foldl (fun s k => s.invalidateEntry port i k) s) := by
  induction n with
  | zero => exact ⟨h, fun _ => ⟨rfl, rfl⟩, fun i' k => by rw [if_neg (by omega)]; rfl⟩
  | succ n ih =>
    have hwalk := ih (by omega)
    rw [List.range_succ, List.foldl_append]
    refine ⟨hwalk.inv.invalidateEntry hi (by omega), ?_, ?_⟩
    · intro i'
      rw [← (hwalk.set i').1, ← (hwalk.set i').2]
      exact invalidateEntry_set i'
    · intro i' k
      change ((L2Tlb.invalidateEntry port _ i n).entry i' k).pagePtr = _
      rw [invalidateEntry_entry]
      by_cases hsame : i' = i ∧ k = n
      · rw [if_pos hsame, if_pos ⟨hsame.1, by omega⟩]
      · rw [if_neg hsame, hwalk.pagePtr]
        by_cases hlt : i' = i ∧ k < n
        · rw [if_pos hlt, if_pos ⟨hlt.1, by omega⟩]
        · rw [if_neg hlt, if_neg (by omega)]

/-- The sets before `n` were walked. -/
private structure Swept (port : Port) (s : L2Tlb) (n : Nat) (s' : L2Tlb) : Prop where
  inv : Inv port s'
  isFull : ∀ i, (s'.set i).isFull = (s.set i).isFull
  next : ∀ i, n ≤ i → (s'.set i).nextEntryIdx = (s.set i).nextEntryIdx
  pagePtr : ∀ i k, (s'.entry i k).pagePtr =
    if i < n ∧ k < (s.set i).nextEntryIdx then none else (s.entry i k).pagePtr

private theorem Inv.sweep (h : Inv port s) (n : Nat) (hn : n ≤ l2NSets) :
    Swept port s n ((List.range n).foldl (fun s i => s.invalidateSet port i) s) := by
  induction n with
  | zero => exact ⟨h, fun _ => rfl, fun _ _ => rfl, fun i k => by rw [if_neg (by omega)]; rfl⟩
  | succ n ih =>
    have hswept := ih (by omega)
    rw [List.range_succ, List.foldl_append]
    generalize (List.range n).foldl (fun s i => s.invalidateSet port i) s = t at hswept
    change Swept port s (n + 1) (t.invalidateSet port n)
    have hwalk := hswept.inv.walk (show n < l2NSets by omega) _ (hswept.inv.next n).le
    rw [L2Tlb.invalidateSet]
    generalize (List.range (t.set n).nextEntryIdx).foldl (fun s k => s.invalidateEntry port n k) t = u
      at hwalk
    have hentry : ∀ i k, (u.setSet n { u.set n with nextEntryIdx := 0 }).entry i k = u.entry i k := by
      intro i k
      by_cases hi : i = n
      · subst hi
        simp [setSet, entry]
      · simp [setSet, entry, hi]
    have hset : ∀ i, ((u.setSet n { u.set n with nextEntryIdx := 0 }).set i).nextEntryIdx =
        (if i = n then 0 else (u.set i).nextEntryIdx) ∧
          ((u.setSet n { u.set n with nextEntryIdx := 0 }).set i).isFull = (u.set i).isFull := by
      intro i
      by_cases hi : i = n
      · subst hi
        simp [setSet]
      · simp [setSet, hi]
    have hnext : (t.set n).nextEntryIdx = (s.set n).nextEntryIdx := hswept.next n le_rfl
    refine ⟨?_, ?_, ?_, ?_⟩
    · constructor
      · intro i
        rw [(hset i).1]
        split
        · decide
        · exact hwalk.inv.next i
      · intro i hi hfull k hk hle
        rw [(hset i).1] at hle
        rw [(hset i).2] at hfull
        rw [hentry]
        by_cases hin : i = n
        · subst hin
          by_cases hlt : k < (t.set i).nextEntryIdx
          · rw [hwalk.pagePtr, if_pos ⟨rfl, hlt⟩]
          · exact hwalk.inv.free i hi hfull k hk (by rw [(hwalk.set i).1]; omega)
        · rw [if_neg hin] at hle
          exact hwalk.inv.free i hi hfull k hk hle
      · intro i hi k hk
        rw [hentry]
        exact hwalk.inv.va i hi k hk
      · intro i hi k hk hen
        rw [hentry] at hen ⊢
        exact hwalk.inv.pa i hi k hk hen
      · intro p
        have hholders : (u.setSet n { u.set n with nextEntryIdx := 0 }).holders p = u.holders p := by
          simp only [holders, hentry]
        rw [hholders]
        exact hwalk.inv.pages p
    · intro i
      rw [(hset i).2, (hwalk.set i).2, hswept.isFull]
    · intro i hi
      rw [(hset i).1, if_neg (by omega), (hwalk.set i).1, hswept.next i (by omega)]
    · intro i k
      rw [hentry, hwalk.pagePtr, hnext]
      by_cases hin : i = n ∧ k < (s.set n).nextEntryIdx
      · rw [if_pos hin, if_pos ⟨by omega, hin.1 ▸ hin.2⟩]
      · rw [if_neg hin, hswept.pagePtr]
        by_cases hlt : i < n ∧ k < (s.set i).nextEntryIdx
        · rw [if_pos hlt, if_pos ⟨by omega, hlt.2⟩]
        · rw [if_neg hlt, if_neg]
          rintro ⟨hlt', hk⟩
          by_cases heq : i = n
          · exact hin ⟨heq, heq ▸ hk⟩
          · exact hlt ⟨by omega, hk⟩

private theorem vaWord_flags (flags : BitVec 8) (pfnV : BitVec 32) :
    (vaWord flags pfnV).extractLsb' 0 4 = flags.extractLsb' 0 4 := by
  apply BitVec.eq_of_getLsbD_eq
  intro j hj
  have hcases : j = 0 ∨ j = 1 ∨ j = 2 ∨ j = 3 := by omega
  rcases hcases with rfl | rfl | rfl | rfl <;> simp [vaWord]

private theorem vaWord_enabled (flags : BitVec 8) (pfnV : BitVec 32) :
    (vaWord flags pfnV).getLsbD 0 = flags.getLsbD 0 := by
  simp [vaWord]

private theorem vaWord_pfn (flags : BitVec 8) (pfnV : BitVec 32) :
    (vaWord flags pfnV).extractLsb' 4 20 = pfnV.extractLsb' 0 20 := by
  apply BitVec.eq_of_getLsbD_eq
  intro j hj
  have hmask : ∀ j < 20, (0xFFFFF#32).getLsbD j = true := by decide
  simp only [vaWord, BitVec.getLsbD_extractLsb', BitVec.getLsbD_or, BitVec.getLsbD_and,
    BitVec.getLsbD_not, BitVec.getLsbD_shiftLeft, Nat.add_sub_cancel_left, hmask j hj]
  simp [hj, show 4 + j < 32 by omega]

theorem Inv.agrees (h : Inv port s) (hi : i < l2NSets) (hk : k < l2NEntriesPerSet) :
    s.Agrees port i k := by
  have hva := h.va i hi k hk
  refine ⟨?_, fun hen => ⟨?_, ?_, h.pa i hi k hk hen⟩⟩
  · rw [hva, vaWord_enabled]
  · rw [hva, vaWord_flags]
  · rw [hva, vaWord_pfn]

private theorem clearHw_inv (hport : l2EnOnPort plat port = true) (hpages : ∀ p, s.installed.count p =
    s.released.count p + (s.holders p).card) (hnone : ∀ i < l2NSets, ∀ k < l2NEntriesPerSet,
    (s.entry i k).pagePtr = none) : Inv port (s.clearHw plat port) := by
  rw [clearHw, if_pos hport]
  constructor
  · intro i
    change 0 < l2NEntriesPerSet
    decide
  · exact fun i hi _ k hk _ => hnone i hi k hk
  · intro i hi k hk
    simp only [entry]
    rw [if_pos ⟨i, hi, k, hk, rfl⟩]
    rfl
  · intro i hi k hk hen
    exact absurd hen (by simp [entry])
  · exact hpages

/-- Invalidating all entries releases all pages if and only if the walk comes by all of them. -/
private theorem Inv.emptied_iff (h : Inv port s) (hport : l2EnOnPort plat port = true) :
    (s.invalidateAllEntries plat port).Emptied ↔ L2Op.invalidateAll.Walked s := by
  have hswept := h.sweep l2NSets le_rfl
  rw [invalidateAllEntries]
  generalize (List.range l2NSets).foldl (fun s i => s.invalidateSet port i) s = t at hswept
  have hpage : ∀ i k, ((t.clearHw plat port).entry i k).pagePtr = (t.entry i k).pagePtr := by
    intro i k
    rw [clearHw, if_pos hport]
    rfl
  have hcounts : ∀ p, (t.clearHw plat port).installed.count p =
      (t.clearHw plat port).released.count p + (t.holders p).card := by
    intro p
    rw [clearHw, if_pos hport]
    exact hswept.inv.pages p
  constructor
  · rintro ⟨-, hreleased⟩ i hi hfull k hk hle
    have hno : (t.entry i k).pagePtr = (s.entry i k).pagePtr := by
      rw [hswept.pagePtr, if_neg (by omega)]
    by_contra hsome
    obtain ⟨p, hp⟩ := Option.ne_none_iff_exists'.mp hsome
    have hmem : (i, k) ∈ t.holders p := by
      rw [holders, Finset.mem_filter, Finset.mem_product, Finset.mem_range, Finset.mem_range, hno]
      exact ⟨⟨hi, hk⟩, hp⟩
    have hpos := Finset.card_pos.mpr ⟨_, hmem⟩
    have hcount := hcounts p
    rw [hreleased p] at hcount
    omega
  · intro hwalked
    refine ⟨?_, ?_⟩
    · intro i hi k hk
      simp [clearHw, hport, entry]
    · intro p
      have hnone : t.holders p = ∅ := by
        rw [holders, Finset.filter_eq_empty_iff]
        rintro ⟨i, k⟩ hmem hp
        rw [Finset.mem_product, Finset.mem_range, Finset.mem_range] at hmem
        change i < l2NSets ∧ k < l2NEntriesPerSet at hmem
        change (t.entry i k).pagePtr = some p at hp
        rw [hswept.pagePtr] at hp
        split at hp
        · cases hp
        · next hlt =>
          have hle : (s.set i).nextEntryIdx ≤ k := by
            by_contra hno
            exact hlt ⟨hmem.1, by omega⟩
          cases hfull : (s.set i).isFull with
          | true =>
            rw [hwalked i hmem.1 hfull k hmem.2 hle] at hp
            cases hp
          | false =>
            rw [h.free i hmem.1 hfull k hmem.2 hle] at hp
            cases hp
      rw [hcounts, hnone, Finset.card_empty, Nat.add_zero]

theorem Inv.step (h : Inv port s) (hport : l2EnOnPort plat port = true) {op : L2Op}
    (hok : op.Walked s) {s' : L2Tlb} {es : List Empty}
    (hstep : l2Machine plat port s op = some (s', es)) : Inv port s' := by
  cases op with
  | setup e replace =>
    cases hstep
    exact h.setupEntry e replace
  | invalidate i k =>
    simp only [l2Machine] at hstep
    split at hstep
    · next hlt =>
      cases hstep
      exact h.invalidateEntry hlt.1 hlt.2
    · cases hstep
  | invalidateAll =>
    cases hstep
    have hswept := h.sweep l2NSets le_rfl
    apply clearHw_inv hport hswept.inv.pages
    intro i hi k hk
    rw [hswept.pagePtr]
    split
    · rfl
    · next hlt =>
      have hle : (s.set i).nextEntryIdx ≤ k := by
        by_contra hno
        exact hlt ⟨hi, by omega⟩
      cases hfull : (s.set i).isFull with
      | true => exact hok i hi hfull k hk hle
      | false => exact h.free i hi hfull k hk hle

theorem Inv.good_iff (h : Inv port s) (hport : l2EnOnPort plat port = true) (op : L2Op) :
    op.Good plat port s ↔ op.Walked s := by
  cases op with
  | setup e replace =>
    refine iff_of_true ⟨?_, ?_⟩ trivial
    · intro s' es hstep i hi k hk
      have hok : (L2Op.setup e replace).Walked s := trivial
      exact (h.step hport hok hstep).agrees hi hk
    · exact fun hroom => (h.makeRoom replace hroom).2.2
  | invalidate i k =>
    refine iff_of_true ⟨?_, trivial⟩ trivial
    intro s' es hstep i' hi' k' hk'
    have hok : (L2Op.invalidate i k).Walked s := trivial
    exact (h.step hport hok hstep).agrees hi' hk'
  | invalidateAll =>
    constructor
    · exact fun hgood => (h.emptied_iff hport).mp hgood.2
    · intro hwalked
      refine ⟨?_, (h.emptied_iff hport).mpr hwalked⟩
      intro s' es hstep i hi k hk
      exact (h.step hport hwalked hstep).agrees hi hk

/-- Nothing is held after the initialisation. -/
theorem inv_init (hport : l2EnOnPort plat port = true) (ram : Nat → BitVec 32) :
    Inv port (init plat port ram) := by
  apply clearHw_inv hport
  · intro p
    simp [holders, entry]
  · exact fun _ _ _ _ => rfl

end

end L2Tlb

/-- In a run from the initialisation on, the RAMs agree with the shadow after every operation, every
entry is released before it is overwritten, and invalidating all entries releases all pages, if and
only if no full set holds pages behind its next entry whenever all entries are invalidated. -/
theorem l2_bookkeeping_iff (plat : Platform) (port : Port) (h : l2EnOnPort plat port = true)
    (ram : Nat → BitVec 32) (ops : List L2Op) :
    Machine.Along (l2Machine plat port) (fun s op => op.Good plat port s) (.init plat port ram) ops ↔
      Machine.Along (l2Machine plat port) (fun s op => op.Walked s) (.init plat port ram) ops := by
  refine Machine.along_iff ?_ ?_ (L2Tlb.inv_init h ram)
  · intro s op s' es hinv hok hstep
    exact hinv.step h hok hstep
  · intro s op hinv
    exact hinv.good_iff h op

/-- A page is set up in the same set for each number. -/
private def setups (n : Nat) : List L2Op :=
  (List.range n).map fun k => .setup ⟨7#8, BitVec.ofNat 32 (32 * k), 0#32, some k⟩ false

theorem l2_bookkeeping_partial : Machine.Along (l2Machine .juno .port1)
    (fun s op => op.Good .juno .port1 s) (.init .juno .port1 fun _ => 1#32)
    (setups 3 ++ [.invalidate 0 1, .invalidateAll]) :=
  (l2_bookkeeping_iff .juno .port1 rfl (fun _ => 1#32)
    (setups 3 ++ [.invalidate 0 1, .invalidateAll])).mpr (by decide +kernel)

/-- The walk visits no entry of a set that has just become full. -/
theorem not_l2_bookkeeping_full : ¬ Machine.Along (l2Machine .juno .port1)
    (fun s op => op.Good .juno .port1 s) (.init .juno .port1 fun _ => 0#32)
    (setups 32 ++ [.invalidateAll]) := by
  intro h
  have hrun : ((l2Machine .juno .port1).run (.init .juno .port1 fun _ => 0#32) (setups 32)).isSome :=
    by decide +kernel
  have hgood := h.at (Option.some_get hrun).symm
  have hreleased := hgood.2.2 0
  revert hreleased
  decide +kernel

end Hero.Rab
