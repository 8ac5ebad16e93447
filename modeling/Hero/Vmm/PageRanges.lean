import Hero.Vmm.Mapping

/-!
# Ranges of pages

`map_pages` compares wrapping page addresses.  The entries that it takes one after the other are
different ones for as many pages as the RAB can hold at a time.
-/

namespace Hero.Vmm

open Interp VmmState

/-- The pages that `n_bytes` bytes from an address on touch. -/
def Touches (addr nBytes : VirtAddr) (page : Vpn) : Prop :=
  ∃ b, addr.toNat ≤ b ∧ b < addr.toNat + nBytes.toNat ∧ b / 4096 = page.toNat

/-- The number of pages touched, those behind the end of the address space included. -/
def pageCount (addr nBytes : VirtAddr) : Nat :=
  if nBytes.toNat = 0 then 0
  else (addr.toNat + nBytes.toNat - 1) / 4096 - addr.toNat / 4096 + 1

/-- The number of consecutive pages that the RAB can hold at a time. -/
def Config.capacity (c : Config) : Nat := match c.lvl with
  | .l1 => c.nSlices
  | .l2 => nSets * nEntriesPerSet

/-- What `map_pages` owes its caller. -/
structure MapsRange (c : Config) (walk : PageWalk) (s : VmmState) (addr nBytes : VirtAddr) : Prop where
  terminates : ((vmm c).exec (mapPages c walk addr nBytes) s).1 ≠ .error .never
  maps : ((vmm c).exec (mapPages c walk addr nBytes) s).1 = .ok () → ∀ page, Touches addr nBytes page →
    ((vmm c).exec (mapPages c walk addr nBytes) s).2.Mapped c page
  only : ((vmm c).exec (mapPages c walk addr nBytes) s).1 = .ok () → ∀ page,
    ((vmm c).exec (mapPages c walk addr nBytes) s).2.Mapped c page →
      s.Mapped c page ∨ Touches addr nBytes page
  rejects : c.capacity < pageCount addr nBytes →
    ∃ e, (vmm c).exec (mapPages c walk addr nBytes) s = (.error (.errno e), s)

/-- An empty range from the start of a page on; or a range that has more pages than there are slices
but not more than the address space, or that ends before the last page and fits into the RAB. -/
def RangeServed (c : Config) (addr nBytes : VirtAddr) : Prop :=
  (nBytes.toNat = 0 ∧ addr.toNat % 4096 = 0 ∧ (addr.toNat = 0 → c.nSlices < 2 ^ 20)) ∨
    (0 < nBytes.toNat ∧ (c.nSlices < pageCount addr nBytes ∧ pageCount addr nBytes ≤ 2 ^ 20 ∨
      addr.toNat + nBytes.toNat ≤ 2 ^ 32 - 4096 ∧ pageCount addr nBytes ≤ c.capacity))

/-! ### The entries taken in turn -/

/-- The number of entries among which a page takes turns. -/
def Config.ringSize (c : Config) : Nat := match c.lvl with
  | .l1 => c.nSlices
  | .l2 => nEntriesPerSet

/-- The distance of pages that take turns with each other. -/
def Config.stride (c : Config) : Nat := match c.lvl with
  | .l1 => 1
  | .l2 => nSets

def Config.slotAt (c : Config) (page : Vpn) (i : Nat) : Slot := match c.lvl with
  | .l1 => .slice i
  | .l2 => .l2 (pageSet page) i

namespace VmmState

/-- The entry of its ring that a page takes next. -/
def turn (c : Config) (s : VmmState) (page : Vpn) : Nat := match c.lvl with
  | .l1 => wrap s.pageRabCfgPtr c.nSlices
  | .l2 => wrap (s.pageRabCfgL2ISet (pageSet page)) nEntriesPerSet

/-- An entry translates the page and is not among the next `k` ones to be taken. -/
def Safe (c : Config) (s : VmmState) (page : Vpn) (k : Nat) : Prop :=
  ∃ i < c.ringSize, (∃ m, s.entry (c.slotAt page i) = some m ∧ m.page = page) ∧
    k ≤ (i + c.ringSize - s.turn c page) % c.ringSize

end VmmState

section Turns

variable {c : Config} {s : VmmState} {page q : Vpn} {m : Mapping} {i k : Nat}

theorem Config.ringSize_pos (c : Config) : 0 < c.ringSize := by
  cases hlvl : c.lvl with
  | l1 =>
    simp only [ringSize, hlvl]
    exact c.nSlices_pos
  | l2 =>
    simp only [ringSize, hlvl]
    decide

private theorem wrap_bound {ptr n : Nat} (hn : 0 < n) : wrap ptr n < n := by
  rw [wrap]
  split
  · exact hn
  · omega

private theorem wrap_succ {ptr n : Nat} (h : ptr < n) : wrap (ptr + 1) n = (ptr + 1) % n := by
  rw [wrap]
  split
  · rw [show ptr + 1 = n by omega, Nat.mod_self]
  · rw [Nat.mod_eq_of_lt (by omega)]

theorem turn_lt : s.turn c page < c.ringSize := by
  cases hlvl : c.lvl with
  | l1 =>
    simp only [turn, Config.ringSize, hlvl]
    exact wrap_bound c.nSlices_pos
  | l2 =>
    simp only [turn, Config.ringSize, hlvl]
    exact wrap_bound (by decide)

theorem victim_eq : s.victim c page = c.slotAt page (s.turn c page) := by
  cases hlvl : c.lvl with
  | l1 => simp only [victim, Config.slotAt, turn, hlvl]
  | l2 => simp only [victim, Config.slotAt, turn, hlvl]

theorem slotAt_inj {i i' : Nat} (h : c.slotAt page i = c.slotAt q i') : i = i' := by
  cases hlvl : c.lvl with
  | l1 =>
    simp only [Config.slotAt, hlvl, Slot.slice.injEq] at h
    exact h
  | l2 =>
    simp only [Config.slotAt, hlvl, Slot.l2.injEq] at h
    exact h.2

/-- Pages of the same ring have the same entries, others have none in common. -/
theorem slotAt_congr (h : page.toNat % c.stride = q.toNat % c.stride) : c.slotAt page i = c.slotAt q i := by
  cases hlvl : c.lvl with
  | l1 => simp only [Config.slotAt, hlvl]
  | l2 =>
    simp only [Config.stride, hlvl] at h
    simp only [Config.slotAt, hlvl, pageSet, h]

theorem slotAt_ne {i' : Nat} (h : page.toNat % c.stride ≠ q.toNat % c.stride) :
    c.slotAt page i ≠ c.slotAt q i' := by
  cases hlvl : c.lvl with
  | l1 =>
    simp only [Config.stride, hlvl, Nat.mod_one] at h
    exact absurd rfl h
  | l2 =>
    simp only [Config.stride, hlvl] at h
    simp only [Config.slotAt, hlvl, pageSet]
    intro heq
    exact h (Slot.l2.inj heq).1

theorem slotAt_inPlace (h : i < c.ringSize) : InPlace c (c.slotAt page i) page := by
  cases hlvl : c.lvl with
  | l1 =>
    simp only [Config.ringSize, hlvl] at h
    simp only [Config.slotAt, hlvl]
    exact h
  | l2 =>
    simp only [Config.ringSize, hlvl] at h
    simp only [Config.slotAt, hlvl]
    exact ⟨rfl, h⟩

theorem turn_congr (h : page.toNat % c.stride = q.toNat % c.stride) :
    s.turn c page = s.turn c q := by
  cases hlvl : c.lvl with
  | l1 => simp only [turn, hlvl]
  | l2 =>
    simp only [Config.stride, hlvl] at h
    simp only [turn, hlvl, pageSet, h]

/-- One turn takes one off the distance to an entry that is not taken. -/
private theorem distance_succ {n t : Nat} (hi : i < n) (ht : t < n) (hne : i ≠ t) :
    (i + n - (t + 1) % n) % n + 1 = (i + n - t) % n := by
  by_cases hlast : t + 1 = n
  · rw [hlast, Nat.mod_self, Nat.sub_zero, Nat.add_mod_right, Nat.mod_eq_of_lt hi,
      Nat.mod_eq_of_lt (by omega)]
    omega
  · rw [Nat.mod_eq_of_lt (by omega : t + 1 < n)]
    by_cases hlt : i < t
    · rw [Nat.mod_eq_of_lt (by omega), Nat.mod_eq_of_lt (by omega)]
      omega
    · rw [show i + n - (t + 1) = i - (t + 1) + n by omega, show i + n - t = i - t + n by omega,
        Nat.add_mod_right, Nat.add_mod_right, Nat.mod_eq_of_lt (by omega), Nat.mod_eq_of_lt (by omega)]
      omega

/-- Taking an entry moves the turn of the pages of the same ring on. -/
theorem turn_config : (s.configPageRabEntry c m).turn c page =
    if page.toNat % c.stride = m.page.toNat % c.stride then (s.turn c page + 1) % c.ringSize
    else s.turn c page := by
  have hlt : s.turn c page < c.ringSize := turn_lt
  cases hlvl : c.lvl with
  | l1 =>
    simp only [turn, Config.ringSize, hlvl] at hlt
    simp only [Config.stride, hlvl, Nat.mod_one, if_true, turn, Config.ringSize, configPageRabEntry,
      victim, advance, setSlot]
    exact wrap_succ hlt
  | l2 =>
    simp only [turn, Config.ringSize, hlvl] at hlt
    simp only [Config.stride, hlvl, turn, Config.ringSize, configPageRabEntry, victim, advance,
      setSlot, Function.update_apply]
    by_cases hring : page.toNat % nSets = m.page.toNat % nSets
    · have hset : pageSet page = pageSet m.page := hring
      rw [if_pos hset, if_pos hring]
      rw [hset] at hlt ⊢
      exact wrap_succ hlt
    · have hset : ¬ pageSet page = pageSet m.page := hring
      rw [if_neg hset, if_neg hring]

theorem VmmState.Safe.mapped (h : s.Safe c page k) : s.Mapped c page := by
  obtain ⟨i, hi, hm, -⟩ := h
  exact ⟨c.slotAt page i, hm, slotAt_inPlace hi⟩

theorem VmmState.Safe.mono {k' : Nat} (h : s.Safe c page k) (hle : k' ≤ k) : s.Safe c page k' := by
  obtain ⟨i, hi, hm, hdist⟩ := h
  exact ⟨i, hi, hm, hle.trans hdist⟩

/-- A page whose entry has been taken is the last to be replaced. -/
theorem safe_config_self : (s.configPageRabEntry c m).Safe c m.page (c.ringSize - 1) := by
  have hlt : s.turn c m.page < c.ringSize := turn_lt
  refine ⟨s.turn c m.page, hlt, ⟨m, ?_, rfl⟩, ?_⟩
  · rw [configPageRabEntry_entry, victim_eq, if_pos rfl]
  · rw [turn_config, if_pos rfl]
    by_cases hlast : s.turn c m.page + 1 = c.ringSize
    · rw [hlast, Nat.mod_self, Nat.sub_zero, Nat.add_mod_right, Nat.mod_eq_of_lt hlt]
      omega
    · rw [Nat.mod_eq_of_lt (by omega : s.turn c m.page + 1 < c.ringSize),
        Nat.mod_eq_of_lt (by omega)]
      omega

/-- Taking an entry for another page brings that of a page of the same ring one turn closer. -/
theorem VmmState.Safe.config_ring (h : s.Safe c page (k + 1))
    (hring : page.toNat % c.stride = m.page.toNat % c.stride) :
    (s.configPageRabEntry c m).Safe c page k := by
  obtain ⟨i, hi, hm, hdist⟩ := h
  have hlt : s.turn c page < c.ringSize := turn_lt
  have hne : i ≠ s.turn c page := by
    intro heq
    rw [heq, Nat.add_sub_cancel_left, Nat.mod_self] at hdist
    omega
  have hnext := distance_succ hi hlt hne
  refine ⟨i, hi, ?_, ?_⟩
  · have hslot : ¬ c.slotAt page i = c.slotAt m.page (s.turn c m.page) := by
      intro heq
      exact hne ((slotAt_inj heq).trans (turn_congr hring).symm)
    rw [configPageRabEntry_entry, victim_eq, if_neg hslot]
    exact hm
  · rw [turn_config, if_pos hring]
    omega

/-- Pages of another ring are not affected. -/
theorem VmmState.Safe.config_other (h : s.Safe c page k)
    (hring : page.toNat % c.stride ≠ m.page.toNat % c.stride) :
    (s.configPageRabEntry c m).Safe c page k := by
  obtain ⟨i, hi, hm, hdist⟩ := h
  refine ⟨i, hi, ?_, ?_⟩
  · rw [configPageRabEntry_entry, victim_eq, if_neg (slotAt_ne hring)]
    exact hm
  · rw [turn_config, if_neg hring]
    exact hdist

end Turns

section Loop

variable {c : Config} {s s₀ : VmmState} {page : Vpn} {m : Mapping} {first last next p : Nat}

/-- The turns of a page's ring between the page `next` and the last one of the range. -/
def pending (c : Config) (last next p : Nat) : Nat :=
  (last - p) / c.stride - (next - 1 - p) / c.stride

private theorem stride_cases (c : Config) : c.stride = 1 ∨ c.stride = 32 := by
  cases hlvl : c.lvl with
  | l1 => simp [Config.stride, hlvl]
  | l2 => simp [Config.stride, hlvl, nSets]

private theorem pending_ring (hp : p < next) (hnext : next ≤ last)
    (hring : p % c.stride = next % c.stride) :
    pending c last next p = pending c last (next + 1) p + 1 := by
  unfold pending
  rcases stride_cases c with h | h
  · rw [h] at hring ⊢
    omega
  · rw [h] at hring ⊢
    omega

private theorem pending_other (hp : p < next) (hring : p % c.stride ≠ next % c.stride) :
    pending c last (next + 1) p = pending c last next p := by
  unfold pending
  rcases stride_cases c with h | h
  · rw [h] at hring
    omega
  · rw [h] at hring ⊢
    omega

/-- A range that fits into the RAB never comes back to an entry. -/
private theorem pending_self (hfirst : first ≤ next) (hcap : last + 1 - first ≤ c.capacity) :
    pending c last (next + 1) next ≤ c.ringSize - 1 := by
  have hpos := c.nSlices_pos
  unfold pending
  cases hlvl : c.lvl with
  | l1 =>
    simp only [Config.capacity, hlvl] at hcap
    simp only [Config.stride, Config.ringSize, hlvl, Nat.div_one]
    omega
  | l2 =>
    simp only [Config.capacity, hlvl, nSets, nEntriesPerSet] at hcap
    simp only [Config.stride, Config.ringSize, hlvl, nSets, nEntriesPerSet]
    omega

/-- The pages of the range in front of `next` are mapped and stay so, and no others are new. -/
structure Loaded (c : Config) (s₀ : VmmState) (first last next : Nat) (s : VmmState) : Prop where
  safe : ∀ p : Vpn, first ≤ p.toNat → p.toNat < next → s.Safe c p (pending c last next p.toNat)
  only : ∀ p : Vpn, s.Mapped c p → s₀.Mapped c p ∨ first ≤ p.toNat ∧ p.toNat < next

private theorem Loaded.config (h : Loaded c s₀ first last m.page.toNat s)
    (hfirst : first ≤ m.page.toNat) (hlast : m.page.toNat ≤ last)
    (hcap : last + 1 - first ≤ c.capacity) :
    Loaded c s₀ first last (m.page.toNat + 1) (s.configPageRabEntry c m) := by
  constructor
  · intro p hp hlt
    by_cases hself : p = m.page
    · rw [hself]
      exact safe_config_self.mono (pending_self hfirst hcap)
    · have hbefore : p.toNat < m.page.toNat := by
        have hne : p.toNat ≠ m.page.toNat := fun heq => hself (BitVec.eq_of_toNat_eq heq)
        omega
      have hsafe := h.safe p hp hbefore
      by_cases hring : p.toNat % c.stride = m.page.toNat % c.stride
      · rw [pending_ring hbefore hlast hring] at hsafe
        exact hsafe.config_ring hring
      · rw [pending_other hbefore hring]
        exact hsafe.config_other hring
  · intro p hp
    obtain ⟨slot, hslot⟩ := hp
    rw [config_serves] at hslot
    split_ifs at hslot with hvictim
    · rw [← hslot]
      exact Or.inr ⟨hfirst, Nat.lt_succ_self _⟩
    · rcases h.only p ⟨slot, hslot⟩ with hold | hnew
      · exact Or.inl hold
      · exact Or.inr ⟨hnew.1, by omega⟩

private theorem pageAddr_le_iff {p q : Vpn} : pageAddr p ≤ pageAddr q ↔ p.toNat ≤ q.toNat := by
  rw [BitVec.le_def, pageAddr_toNat, pageAddr_toNat]
  omega

private theorem succ_toNat {q : Vpn} (hle : page.toNat ≤ q.toNat) (hq : q.toNat < 2 ^ 20 - 1) :
    (page + 1#20).toNat = page.toNat + 1 := by
  rw [BitVec.toNat_add]
  change (page.toNat + 1) % 2 ^ 20 = page.toNat + 1
  rw [Nat.mod_eq_of_lt (by omega)]

/-- The loop ends with the first page walk that fails, or with all pages of the range mapped. -/
theorem mapLoop_triple (walk : PageWalk) {last : Vpn} (hlast : last.toNat < 2 ^ 20 - 1)
    (hcap : last.toNat + 1 - first ≤ c.capacity) (n : Nat) (page : Vpn)
    (hfirst : first ≤ page.toNat) (hpage : page.toNat ≤ last.toNat + 1)
    (hn : last.toNat + 1 - page.toNat < n) :
    (vmm c).Triple always always (Loaded c s₀ first last.toNat page.toNat)
      (mapLoop walk last n page) fun r t =>
        r = .ok () ∧ Loaded c s₀ first last.toNat (last.toNat + 1) t ∨
          ∃ q e, walk q = .error e ∧ r = .error (.errno e) := by
  induction n generalizing page with
  | zero => exact absurd hn (Nat.not_lt_zero _)
  | succ n ih =>
    rw [mapLoop]
    by_cases hle : page.toNat ≤ last.toNat
    · rw [if_pos (pageAddr_le_iff.mpr hle)]
      have hnext := succ_toNat hle hlast
      apply Triple.bind (R := fun _ t => Loaded c s₀ first last.toNat (page.toNat + 1) t)
      · rw [mapPage]
        cases hwalk : walk page with
        | error e => exact Triple.fail fun t _ => Or.inr ⟨page, e, hwalk, rfl⟩
        | ok r =>
          obtain ⟨phys, rdonly⟩ := r
          apply Triple.issue fun _ _ _ => trivial
          intro t ht _
          exact ht.config (m := ⟨page, phys, rdonly⟩) hfirst hle hcap
      · intro _
        rw [← hnext]
        exact ih (page + 1#20) (by omega) (by omega) (by omega)
    · rw [if_neg fun h => hle (pageAddr_le_iff.mp h)]
      have hend : page.toNat = last.toNat + 1 := by omega
      apply Triple.ret
      intro t ht
      rw [hend] at ht
      exact Or.inl ⟨rfl, ht⟩

theorem mapLoop_empty (walk : PageWalk) {last : Vpn} (h : last.toNat < page.toNat) {n : Nat}
    (hn : 0 < n) : (vmm c).exec (mapLoop walk last n page) s = (.ok (), s) := by
  cases n with
  | zero => exact absurd hn (Nat.lt_irrefl 0)
  | succ n =>
    rw [mapLoop, if_neg fun hle => absurd (pageAddr_le_iff.mp hle) (Nat.not_le.mpr h)]
    rfl

end Loop

/-! ### Where all pages are accessible -/

section Accessible

variable {c : Config}

/-- Page tables that translate every page. -/
def walkAll : PageWalk := fun page => .ok (page.toNat, false)

/-- A comparison with the last page of the address space never ends the loop. -/
theorem mapLoop_never (n : Nat) (page : Vpn) (s : VmmState) :
    ((vmm c).exec (mapLoop walkAll (BitVec.allOnes 20) n page) s).1 = .error .never := by
  induction n generalizing page s with
  | zero => rfl
  | succ n ih =>
    have hle : pageAddr page ≤ pageAddr (BitVec.allOnes 20) := by
      have hpage := page.isLt
      rw [pageAddr_le_iff, BitVec.toNat_allOnes]
      omega
    rw [mapLoop, if_pos hle]
    exact ih (page + 1#20) (s.configPageRabEntry c ⟨page, page.toNat, false⟩)

theorem mapLoop_no_errno (last : Vpn) (n : Nat) (page : Vpn) (s : VmmState) (e : Errno) :
    ((vmm c).exec (mapLoop walkAll last n page) s).1 ≠ .error (.errno e) := by
  induction n generalizing page s with
  | zero => simp [mapLoop, exec]
  | succ n ih =>
    rw [mapLoop]
    split
    · exact ih (page + 1#20) (s.configPageRabEntry c ⟨page, page.toNat, false⟩)
    · intro h
      cases h

theorem start_not_mapped (page : Vpn) : ¬ start.Mapped c page := by
  intro hmapped
  obtain ⟨slot, ⟨m, hm, -⟩, -⟩ := hmapped
  cases slot with
  | slice k => cases hm
  | l2 set i => cases hm

end Accessible

section Ranges

variable {c : Config} {walk : PageWalk} {s : VmmState} {addr nBytes : VirtAddr}

/-- The last page of a range, as the code computes it. -/
def lastPage (addr nBytes : VirtAddr) : Vpn := vpn (addr + nBytes - 1#32)

theorem lastPage_toNat (addr nBytes : VirtAddr) : (lastPage addr nBytes).toNat =
    (addr.toNat + nBytes.toNat + (2 ^ 32 - 1)) % 2 ^ 32 / 4096 := by
  have haddr := addr.isLt
  have hbytes := nBytes.isLt
  have hone : (1#32).toNat = 1 := rfl
  rw [lastPage, vpn_toNat, BitVec.toNat_sub, BitVec.toNat_add, hone]
  omega

theorem nPages_toNat (first last : Vpn) :
    (((pageAddr last - pageAddr first) >>> 12) + 1#32).toNat =
      (2 ^ 20 + last.toNat - first.toNat) % 2 ^ 20 + 1 := by
  have hfirst := first.isLt
  have hlast := last.isLt
  have hone : (1#32).toNat = 1 := rfl
  rw [BitVec.toNat_add, BitVec.toNat_ushiftRight, Nat.shiftRight_eq_div_pow, BitVec.toNat_sub,
    pageAddr_toNat, pageAddr_toNat, hone]
  omega

theorem mapPages_rejects (walk : PageWalk) (s : VmmState) (h : c.nSlices <
    (2 ^ 20 + (lastPage addr nBytes).toNat - addr.toNat / 4096) % 2 ^ 20 + 1) :
    (vmm c).exec (mapPages c walk addr nBytes) s = (.error (.errno .enomem), s) := by
  rw [← vpn_toNat, ← nPages_toNat] at h
  rw [mapPages]
  exact congrArg (fun p => (vmm c).exec p s) (if_pos h)

theorem mapPages_loops (walk : PageWalk)
    (h : (2 ^ 20 + (lastPage addr nBytes).toNat - addr.toNat / 4096) % 2 ^ 20 + 1 ≤ c.nSlices) :
    mapPages c walk addr nBytes =
      mapLoop walk (lastPage addr nBytes) (2 ^ 20) (vpn addr) := by
  rw [← vpn_toNat, ← nPages_toNat] at h
  rw [mapPages]
  exact if_neg (Nat.not_lt.mpr h)

/-- A rejected range leaves everything as it is. -/
theorem mapsRange_of_reject (h : c.nSlices <
    (2 ^ 20 + (lastPage addr nBytes).toNat - addr.toNat / 4096) % 2 ^ 20 + 1) :
    MapsRange c walk s addr nBytes := by
  have hexec := mapPages_rejects walk s h
  constructor
  · rw [hexec]
    intro hnever
    cases hnever
  · rw [hexec]
    intro hok
    cases hok
  · rw [hexec]
    intro hok
    cases hok
  · intro _
    exact ⟨.enomem, hexec⟩

/-- A range that ends before the last page of the address space and fits into the RAB. -/
theorem mapsRange_of_fits (hpos : 0 < nBytes.toNat)
    (hend : addr.toNat + nBytes.toNat ≤ 2 ^ 32 - 4096) (hcap : pageCount addr nBytes ≤ c.capacity) :
    MapsRange c walk s addr nBytes := by
  have hlast := lastPage_toNat addr nBytes
  have hcount : pageCount addr nBytes = (lastPage addr nBytes).toNat - addr.toNat / 4096 + 1 := by
    rw [pageCount, if_neg (by omega), hlast]
    omega
  by_cases hreject : c.nSlices <
      (2 ^ 20 + (lastPage addr nBytes).toNat - addr.toNat / 4096) % 2 ^ 20 + 1
  · exact mapsRange_of_reject hreject
  · have hloop := mapPages_loops walk (Nat.le_of_not_lt hreject)
    have hfirst := vpn_toNat addr
    have hinit : Loaded c s (addr.toNat / 4096) (lastPage addr nBytes).toNat (vpn addr).toNat s := by
      refine ⟨fun p hp hlt => absurd hlt (by omega), fun p hp => Or.inl hp⟩
    obtain ⟨-, hpost⟩ := (mapLoop_triple walk (by omega) (by omega) (2 ^ 20) (vpn addr) (by omega)
      (by omega) (by omega)).run hinit
    rw [← hloop] at hpost
    rcases hpost with ⟨hok, hloaded⟩ | ⟨q, e, -, herr⟩
    · constructor
      · rw [hok]
        intro hnever
        cases hnever
      · intro _ page htouch
        obtain ⟨b, hlow, hhigh, hb⟩ := htouch
        exact (hloaded.safe page (by omega) (by omega)).mapped
      · intro _ page hmapped
        rcases hloaded.only page hmapped with hold | ⟨hlow, hhigh⟩
        · exact Or.inl hold
        · by_cases hstart : page.toNat = addr.toNat / 4096
          · exact Or.inr ⟨addr.toNat, le_refl _, by omega, hstart.symm⟩
          · exact Or.inr ⟨4096 * page.toNat, by omega, by omega, by omega⟩
      · intro hover
        exact absurd hcap (Nat.not_le.mpr hover)
    · constructor
      · rw [herr]
        intro hnever
        cases hnever
      · rw [herr]
        intro hok
        cases hok
      · rw [herr]
        intro hok
        cases hok
      · intro hover
        exact absurd hcap (Nat.not_le.mpr hover)

theorem mapsRange_of_served (h : RangeServed c addr nBytes) : MapsRange c walk s addr nBytes := by
  have haddr := addr.isLt
  have hbytes := nBytes.isLt
  have hlast := lastPage_toNat addr nBytes
  rcases h with ⟨hzero, halign, hslices⟩ | ⟨hpos, ⟨hmany, hspace⟩ | ⟨hend, hcap⟩⟩
  · by_cases hreject : c.nSlices <
        (2 ^ 20 + (lastPage addr nBytes).toNat - addr.toNat / 4096) % 2 ^ 20 + 1
    · exact mapsRange_of_reject hreject
    · have hempty : (lastPage addr nBytes).toNat < (vpn addr).toNat := by
        rw [vpn_toNat]
        omega
      have hexec : (vmm c).exec (mapPages c walk addr nBytes) s = (.ok (), s) := by
        rw [mapPages_loops _ (Nat.le_of_not_lt hreject)]
        exact mapLoop_empty walk hempty (Nat.two_pow_pos 20)
      constructor
      · rw [hexec]
        intro hnever
        cases hnever
      · intro _ page htouch
        obtain ⟨b, hlow, hhigh, -⟩ := htouch
        omega
      · rw [hexec]
        exact fun _ page hpage => Or.inl hpage
      · rw [pageCount, if_pos hzero]
        intro hover
        cases hover
  · rw [pageCount, if_neg (by omega)] at hmany hspace
    exact mapsRange_of_reject (by omega)
  · exact mapsRange_of_fits hpos hend hcap

theorem not_mapsRange_of_last (hlast : (lastPage addr nBytes).toNat = 2 ^ 20 - 1)
    (hslices : (2 ^ 20 + (lastPage addr nBytes).toNat - addr.toNat / 4096) % 2 ^ 20 + 1 ≤ c.nSlices) :
    ¬ MapsRange c walkAll s addr nBytes := by
  intro hmaps
  have hlastPage : lastPage addr nBytes = BitVec.allOnes 20 := by
    apply BitVec.eq_of_toNat_eq
    rw [hlast, BitVec.toNat_allOnes]
  apply hmaps.terminates
  rw [mapPages_loops _ hslices, hlastPage]
  exact mapLoop_never (2 ^ 20) (vpn addr) s

private theorem capacity_pos : 0 < c.capacity := by
  cases hlvl : c.lvl with
  | l1 =>
    simp only [Config.capacity, hlvl]
    exact c.nSlices_pos
  | l2 =>
    simp only [Config.capacity, hlvl]
    decide

/-- A range whose last page the code takes to be the first one maps that page only. -/
theorem not_mapsRange_of_single (hlast : (lastPage addr nBytes).toNat = addr.toNat / 4096)
    (hwrong : nBytes.toNat = 0 ∨ 2 ^ 32 < nBytes.toNat + addr.toNat % 4096) :
    ¬ MapsRange c walkAll start addr nBytes := by
  have haddr := addr.isLt
  have hslices := c.nSlices_pos
  have hcap : 0 < c.capacity := capacity_pos
  have hfirst := vpn_toNat addr
  have hcount : (2 ^ 20 + (lastPage addr nBytes).toNat - addr.toNat / 4096) % 2 ^ 20 + 1 ≤
      c.nSlices := by omega
  by_cases htop : (lastPage addr nBytes).toNat = 2 ^ 20 - 1
  · exact not_mapsRange_of_last htop hcount
  · intro hmaps
    have hinit : Loaded c start (addr.toNat / 4096) (lastPage addr nBytes).toNat (vpn addr).toNat
        start := by
      refine ⟨fun p hp hlt => absurd hlt (by omega), fun p hp => Or.inl hp⟩
    obtain ⟨-, hpost⟩ := (mapLoop_triple walkAll (by omega) (by omega) (2 ^ 20) (vpn addr) (by omega)
      (by omega) (by omega)).run hinit
    rw [← mapPages_loops _ hcount] at hpost
    rcases hpost with ⟨hok, hloaded⟩ | ⟨q, e, hwalk, -⟩
    · rcases hwrong with hzero | hround
      · have hmapped := (hloaded.safe (vpn addr) (by omega) (by omega)).mapped
        rcases hmaps.only hok (vpn addr) hmapped with hstart | ⟨b, hlow, hhigh, -⟩
        · exact start_not_mapped (vpn addr) hstart
        · omega
      · have hsucc : (vpn addr + 1#20).toNat = (vpn addr).toNat + 1 :=
          succ_toNat (q := vpn addr) (le_refl _) (by omega)
        have hmapped := hmaps.maps hok (vpn addr + 1#20) ⟨4096 * (addr.toNat / 4096 + 1), by omega,
          by omega, by omega⟩
        rcases hloaded.only (vpn addr + 1#20) hmapped with hstart | ⟨-, hhigh⟩
        · exact start_not_mapped (vpn addr + 1#20) hstart
        · omega
    · cases hwalk

/-- A range that wraps around maps nothing. -/
theorem not_mapsRange_of_wrap (hpos : 0 < nBytes.toNat)
    (hlast : (lastPage addr nBytes).toNat < addr.toNat / 4096)
    (hcount : (2 ^ 20 + (lastPage addr nBytes).toNat - addr.toNat / 4096) % 2 ^ 20 + 1 ≤ c.nSlices) :
    ¬ MapsRange c walkAll start addr nBytes := by
  intro hmaps
  rw [← vpn_toNat] at hlast
  have hexec : (vmm c).exec (mapPages c walkAll addr nBytes) start = (.ok (), start) := by
    rw [mapPages_loops _ hcount]
    exact mapLoop_empty walkAll hlast (Nat.two_pow_pos 20)
  have hmapped := hmaps.maps (by rw [hexec]) (vpn addr) ⟨addr.toNat, le_refl _, by omega,
    (vpn_toNat addr).symm⟩
  rw [hexec] at hmapped
  exact start_not_mapped (vpn addr) hmapped

/-- A range that is accepted although the RAB is too small for it. -/
theorem not_mapsRange_of_over (hover : c.capacity < pageCount addr nBytes)
    (hcount : (2 ^ 20 + (lastPage addr nBytes).toNat - addr.toNat / 4096) % 2 ^ 20 + 1 ≤ c.nSlices) :
    ¬ MapsRange c walkAll s addr nBytes := by
  intro hmaps
  obtain ⟨e, hexec⟩ := hmaps.rejects hover
  rw [mapPages_loops _ hcount] at hexec
  exact mapLoop_no_errno (lastPage addr nBytes) (2 ^ 20) (vpn addr) s e (congrArg Prod.fst hexec)

/-- Everything else goes wrong where all pages are accessible and none is mapped. -/
theorem not_mapsRange (h : ¬ RangeServed c addr nBytes) :
    ¬ MapsRange c walkAll start addr nBytes := by
  have haddr := addr.isLt
  have hbytes := nBytes.isLt
  have hlast := lastPage_toNat addr nBytes
  have hslices := c.nSlices_pos
  unfold RangeServed at h
  by_cases hzero : nBytes.toNat = 0
  · by_cases halign : addr.toNat % 4096 = 0
    · exact not_mapsRange_of_last (by omega) (by omega)
    · exact not_mapsRange_of_single (by omega) (Or.inl hzero)
  · have hpages : pageCount addr nBytes =
        (addr.toNat + nBytes.toNat - 1) / 4096 - addr.toNat / 4096 + 1 := if_neg hzero
    by_cases hround : 2 ^ 20 < pageCount addr nBytes
    · exact not_mapsRange_of_single (by omega) (Or.inr (by omega))
    · by_cases hwrap : 2 ^ 32 < addr.toNat + nBytes.toNat
      · exact not_mapsRange_of_wrap (by omega) (by omega) (by omega)
      · by_cases htop : 2 ^ 32 - 4096 < addr.toNat + nBytes.toNat
        · exact not_mapsRange_of_last (by omega) (by omega)
        · exact not_mapsRange_of_over (by omega) (by omega)

/-- Ranges are mapped as a whole, or not at all, exactly in these cases. -/
theorem map_pages_iff (c : Config) (addr nBytes : VirtAddr) :
    (∀ walk s, MapsRange c walk s addr nBytes) ↔ RangeServed c addr nBytes := by
  constructor
  · intro h
    by_contra hserved
    exact not_mapsRange hserved (h walkAll start)
  · intro h walk s
    exact mapsRange_of_served h

/-- The last page of the address space alone is mapped again and again. -/
theorem map_pages_top : ¬ MapsRange shipped walkAll start 0xFFFFF000#32 0x1000#32 := by
  apply not_mapsRange
  intro h
  rcases h with ⟨hzero, -⟩ | ⟨-, ⟨hmany, -⟩ | ⟨hend, -⟩⟩
  · revert hzero
    decide
  · revert hmany
    decide
  · revert hend
    decide

end Ranges

end Hero.Vmm
