import Hero.Framework.Machine
import Mathlib.Data.BitVec
import Mathlib.Data.Finset.Piecewise

/-!
# Loads against compare-exchanges

`__atomic_load` and `atomic_compare_exchange` on one location of any size and alignment for which
either uses a mutex, interleaved at the single steps of their copies.
-/

namespace Hero.Omp

abbrev Bytes (n : Nat) := Fin n → BitVec 8

/-- The steps in which `memcpy` or `memcmp` goes over the bytes of a location, each a word or less. -/
structure Pieces (n : Nat) where
  first : Finset (Fin n)
  rest : List (Finset (Fin n))
  covers : ∀ i, i ∈ first ∨ ∃ u ∈ rest, i ∈ u

/-- 32-bit words in L2 that are 32-bit-aligned. -/
def swapReserves (size : Nat) (addr : BitVec 32) : Bool :=
  size = 4 && addr &&& 0xFF000000#32 = 0x1C000000#32 && addr &&& 0x3#32 = 0#32

/-- Byte, halfword and word loads that are aligned. -/
def loadDereferences (size : Nat) (addr : BitVec 32) : Bool :=
  size = 4 && addr &&& 0x3#32 = 0#32 || size = 2 && addr &&& 0x1#32 = 0#32 || size = 1

/-- A location for which loads or compare-exchanges use a mutex. -/
structure Access where
  size : Nat
  addr : BitVec 32
  locks : swapReserves size addr = false ∨ loadDereferences size addr = false

/-- The arguments of `atomic_compare_exchange`, with whether it gets a pointer `prev`. -/
structure Exchange (n : Nat) where
  expected : Bytes n
  desired : Bytes n
  wantsPrev : Bool

/-- What `atomic_compare_exchange` leaves in `*prev` and `*expected`, and its result. -/
structure Exchanged (n : Nat) where
  prev : Option (Bytes n)
  expected : Bytes n
  modified : Bool

/-- What `atomic_compare_exchange` is at while it holds its mutex. -/
inductive Stage (n : Nat) where
  | copyPrev
  | compare (prev : Option (Bytes n))
  | store (prev : Option (Bytes n))
  | copyBack (prev : Option (Bytes n))

/-- Where a core stands; `buf` is the copy so far and `left` are the pieces still to go. -/
inductive AccessPc (n : Nat) where
  | idle
  | loadEntered
  | loadLocked
  | loading (buf : Bytes n) (left : List (Finset (Fin n)))
  | loadUnlocking (buf : Bytes n)
  | loadReturning (buf : Bytes n)
  | swapEntered (op : Exchange n)
  | swapAt (op : Exchange n) (stage : Stage n)
  | swapIn (op : Exchange n) (stage : Stage n) (buf : Bytes n) (left : List (Finset (Fin n)))
  | swapUnlocking (op : Exchange n) (out : Exchanged n)
  | swapReturning (op : Exchange n) (out : Exchanged n)

namespace AccessPc

variable {n : Nat}

/-- In a load that has copied some but not all of its pieces. -/
def Loading : AccessPc n → Prop
  | loading _ _ => True
  | _ => False

/-- In a compare-exchange that has stored some but not all of its pieces. -/
def Storing : AccessPc n → Prop
  | swapIn _ (.store _) _ _ => True
  | _ => False

/-- Between locking and unlocking `__atomic_cex_mutex`. -/
def InSwap : AccessPc n → Prop
  | swapAt _ _ | swapIn _ _ _ _ | swapUnlocking _ _ => True
  | _ => False

end AccessPc

structure AccessState (Core : Type*) (n : Nat) where
  mem : Bytes n
  /-- `__atomic_load_mutex` -/
  loadMutex : Bool
  /-- `__atomic_cex_mutex` -/
  cexMutex : Bool
  /-- Whether the location is between the first and the last step of a store. -/
  partway : Bool
  pc : Core → AccessPc n

inductive AccessStep (Core : Type*) (n : Nat) where
  | loadCall (c : Core)
  | swapCall (c : Core) (op : Exchange n)
  | dereference (c : Core)
  | mutexTrylock (c : Core)
  /-- with what the destination of the copy holds before -/
  | firstPiece (c : Core) (pieces : Pieces n) (dest : Bytes n)
  | nextPiece (c : Core)
  | mutexUnlock (c : Core)
  | ret (c : Core)

/-- Calls and returns, and what the location holds between stores. -/
inductive AccessEvent (Core : Type*) (n : Nat) where
  | loadCall (c : Core)
  | loadRet (c : Core) (v : Bytes n)
  | swapCall (c : Core) (op : Exchange n)
  | swapRet (c : Core) (out : Exchanged n)
  | holds (v : Bytes n)

variable {Core : Type*} [DecidableEq Core] {n : Nat}

namespace AccessState

def init (v : Bytes n) : AccessState Core n := ⟨v, false, false, false, fun _ => .idle⟩

def goto (s : AccessState Core n) (c : Core) (pc : AccessPc n) : AccessState Core n :=
  { s with pc := Function.update s.pc c pc }

/-- The events of a step that ends in `s`, with what the location then holds. -/
def events (s : AccessState Core n) (es : List (AccessEvent Core n)) : List (AccessEvent Core n) :=
  es ++ if s.partway then [] else [.holds s.mem]

def emit (s : AccessState Core n) (es : List (AccessEvent Core n)) :
    Option (AccessState Core n × List (AccessEvent Core n)) := some (s, s.events es)

/-- One step of the copy of a load. -/
def loadPiece (s : AccessState Core n) (c : Core) (buf : Bytes n) (u : Finset (Fin n))
    (left : List (Finset (Fin n))) : AccessState Core n :=
  let buf := u.piecewise s.mem buf
  s.goto c (if left = [] then .loadUnlocking buf else .loading buf left)

/-- One step of a copy or comparison under `__atomic_cex_mutex`. -/
def swapPiece (s : AccessState Core n) (c : Core) (op : Exchange n) (stage : Stage n)
    (buf : Bytes n) (u : Finset (Fin n)) (left : List (Finset (Fin n))) : AccessState Core n :=
  match stage with
  | .copyPrev =>
    let buf := u.piecewise s.mem buf
    s.goto c (if left = [] then .swapAt op (.compare (some buf)) else .swapIn op stage buf left)
  | .compare prev =>
    if ∀ i ∈ u, s.mem i = op.expected i then
      s.goto c (if left = [] then .swapAt op (.store prev) else .swapIn op stage buf left)
    else s.goto c (.swapAt op (.copyBack prev))
  | .store prev =>
    let s := { s with mem := u.piecewise op.desired s.mem, partway := left ≠ [] }
    s.goto c (if left = [] then .swapUnlocking op ⟨prev, op.expected, true⟩
      else .swapIn op stage buf left)
  | .copyBack prev =>
    let buf := u.piecewise s.mem buf
    s.goto c (if left = [] then .swapUnlocking op ⟨prev, buf, false⟩
      else .swapIn op stage buf left)

end AccessState

open AccessState

/-- `__atomic_load` and the part of `atomic_compare_exchange` that uses a mutex, one memory step at a
time. -/
def atomicAccess (loc : Access) : Machine (AccessState Core loc.size) (AccessStep Core loc.size)
    (AccessEvent Core loc.size) := fun s step =>
  match step with
  | .loadCall c =>
    match s.pc c with
    | .idle => (s.goto c .loadEntered).emit [.loadCall c]
    | _ => none
  | .swapCall c op =>
    match s.pc c with
    | .idle => (s.goto c (.swapEntered op)).emit [.swapCall c op]
    | _ => none
  | .dereference c =>
    match s.pc c with
    | .loadEntered =>
      if loadDereferences loc.size loc.addr then (s.goto c (.loadReturning s.mem)).emit [] else none
    | _ => none
  | .mutexTrylock c =>
    match s.pc c with
    | .loadEntered =>
      if loadDereferences loc.size loc.addr then none
      else if s.loadMutex then s.emit []
      else ({ s with loadMutex := true }.goto c .loadLocked).emit []
    | .swapEntered op =>
      if swapReserves loc.size loc.addr then none
      else if s.cexMutex then s.emit []
      else ({ s with cexMutex := true }.goto c
        (.swapAt op (if op.wantsPrev then .copyPrev else .compare none))).emit []
    | _ => none
  | .firstPiece c pieces dest =>
    match s.pc c with
    | .loadLocked => (s.loadPiece c dest pieces.first pieces.rest).emit []
    | .swapAt op stage => (s.swapPiece c op stage dest pieces.first pieces.rest).emit []
    | _ => none
  | .nextPiece c =>
    match s.pc c with
    | .loading buf (u :: left) => (s.loadPiece c buf u left).emit []
    | .swapIn op stage buf (u :: left) => (s.swapPiece c op stage buf u left).emit []
    | _ => none
  | .mutexUnlock c =>
    match s.pc c with
    | .loadUnlocking buf => ({ s with loadMutex := false }.goto c (.loadReturning buf)).emit []
    | .swapUnlocking op out => ({ s with cexMutex := false }.goto c (.swapReturning op out)).emit []
    | _ => none
  | .ret c =>
    match s.pc c with
    | .loadReturning buf => (s.goto c .idle).emit [.loadRet c buf]
    | .swapReturning _ out => (s.goto c .idle).emit [.swapRet c out]
    | _ => none

/-- Copies of loads and stores of compare-exchanges keep apart: a load reads only while no store is
partway, and a store writes only while no load is. -/
def KeepsApart (s : AccessState Core n) : AccessStep Core n → Prop
  | .dereference _ => ∀ d, ¬ (s.pc d).Storing
  | .firstPiece c _ _ | .nextPiece c =>
    match s.pc c with
    | .loadLocked | .loading _ _ => ∀ d, ¬ (s.pc d).Storing
    | .swapAt _ (.store _) | .swapIn _ (.store _) _ _ => ∀ d, ¬ (s.pc d).Loading
    | _ => True
  | _ => True

instance decidableLoading : (pc : AccessPc n) → Decidable pc.Loading
  | .loading _ _ => isTrue trivial
  | .idle | .loadEntered | .loadLocked | .loadUnlocking _ | .loadReturning _ => isFalse id
  | .swapEntered _ | .swapAt _ _ | .swapIn _ _ _ _ | .swapUnlocking _ _ | .swapReturning _ _ =>
    isFalse id

instance decidableStoring : (pc : AccessPc n) → Decidable pc.Storing
  | .swapIn _ (.store _) _ _ => isTrue trivial
  | .swapIn _ .copyPrev _ _ | .swapIn _ (.compare _) _ _ | .swapIn _ (.copyBack _) _ _ => isFalse id
  | .idle | .loadEntered | .loadLocked | .loading _ _ | .loadUnlocking _ | .loadReturning _ =>
    isFalse id
  | .swapEntered _ | .swapAt _ _ | .swapUnlocking _ _ | .swapReturning _ _ => isFalse id

instance decidableKeepsApart [Fintype Core] (s : AccessState Core n) (i : AccessStep Core n) :
    Decidable (KeepsApart s i) := by
  unfold KeepsApart
  cases i with
  | firstPiece c pieces dest => dsimp only; split <;> infer_instance
  | nextPiece c => dsimp only; split <;> infer_instance
  | _ => dsimp only; infer_instance

/-- What the location held since core `c` last called `__atomic_load`. -/
def heldSince (c : Core) (h : List (AccessEvent Core n)) : List (Bytes n) :=
  h.foldl (fun vs e => match e with
    | .loadCall d => if d = c then [] else vs
    | .holds v => vs ++ [v]
    | _ => vs) []

/-- Every load returns a value that the location held at some point during the load. -/
def Untorn (h : List (AccessEvent Core n)) : Prop :=
  ∀ pre c v post, h = pre ++ .loadRet c v :: post → v ∈ heldSince c pre

section

variable {s s' : AccessState Core n} {h : List (AccessEvent Core n)} {c d : Core} {v w : Bytes n}

omit [DecidableEq Core] in
/-- Compare-exchanges use their mutex whenever either function uses one. -/
theorem Access.swapReserves_eq_false (loc : Access) : swapReserves loc.size loc.addr = false := by
  rcases loc.locks with hswap | hload
  · exact hswap
  · simp only [loadDereferences, Bool.or_eq_false_iff] at hload
    simp only [swapReserves]
    by_cases haddr : loc.size = 4 ∧ loc.addr &&& 0x3#32 = 0#32
    · simp [haddr] at hload
    · simp only [not_and] at haddr
      by_cases hsize : loc.size = 4
      · simp [haddr hsize]
      · simp [hsize]

theorem mem_heldSince_holds : v ∈ heldSince c (h ++ [.holds v]) := by
  simp [heldSince]

theorem heldSince_mono {es : List (AccessEvent Core n)} (hv : v ∈ heldSince c h)
    (hes : .loadCall c ∉ es) : v ∈ heldSince c (h ++ es) := by
  induction es generalizing h with
  | nil => simpa using hv
  | cons e es ih =>
    rw [List.append_cons]
    apply ih ?_ fun hmem => hes (List.mem_cons_of_mem e hmem)
    rw [heldSince, List.foldl_append]
    change v ∈ List.foldl _ (heldSince c h) [e]
    cases e with
    | loadCall d =>
      have hd : d ≠ c := by
        intro hdc
        apply hes
        simp [hdc]
      simpa [hd] using hv
    | holds w => simp [hv]
    | loadRet d w => exact hv
    | swapCall d op => exact hv
    | swapRet d out => exact hv

omit [DecidableEq Core] in
private theorem split_snoc {e r : AccessEvent Core n} {pre post : List (AccessEvent Core n)}
    (heq : h ++ [e] = pre ++ r :: post) : (pre = h ∧ r = e) ∨ ∃ post', h = pre ++ r :: post' := by
  rcases List.eq_nil_or_concat post with hpost | hpost
  · subst hpost
    have hinj := List.append_inj' heq rfl
    simp only [List.cons.injEq, and_true] at hinj
    exact Or.inl ⟨hinj.1.symm, hinj.2.symm⟩
  · obtain ⟨post', x, rfl⟩ := hpost
    have hcat : h ++ [e] = (pre ++ r :: post') ++ [x] := by simpa using heq
    exact Or.inr ⟨post', (List.append_inj' hcat rfl).1⟩

theorem Untorn.snoc {e : AccessEvent Core n} (hu : Untorn h)
    (he : ∀ c v, e = .loadRet c v → v ∈ heldSince c h) : Untorn (h ++ [e]) := by
  intro pre c v post heq
  rcases split_snoc heq with ⟨rfl, hr⟩ | ⟨post', rfl⟩
  · exact he c v hr.symm
  · exact hu pre c v post' rfl

private def returnsHeld (h : List (AccessEvent Core n)) (k : Nat) : Bool :=
  match h[k]? with
  | some (.loadRet c v) => decide (v ∈ heldSince c (h.take k))
  | _ => true

private theorem untorn_iff : (∀ k < h.length, returnsHeld h k = true) ↔ Untorn h := by
  constructor
  · intro hall pre c v post heq
    subst heq
    have hk := hall pre.length (by simp)
    simpa [returnsHeld] using hk
  · intro hu k hk
    rw [returnsHeld, List.getElem?_eq_getElem hk]
    cases he : h[k] with
    | loadRet c v =>
      have hsplit : h = h.take k ++ .loadRet c v :: h.drop (k + 1) := by
        rw [← he, List.getElem_cons_drop, List.take_append_drop]
      exact decide_eq_true (hu _ c v _ hsplit)
    | _ => rfl

instance decidableUntorn : Decidable (Untorn h) := decidable_of_iff _ untorn_iff

theorem Untorn.events {es : List (AccessEvent Core n)} (hu : Untorn (h ++ es)) :
    Untorn (h ++ s.events es) := by
  rw [AccessState.events]
  split
  · simpa using hu
  · rw [← List.append_assoc]
    apply hu.snoc
    intro c v heq
    cases heq

theorem heldSince_events {es : List (AccessEvent Core n)} (hv : v ∈ heldSince c h)
    (hes : .loadCall c ∉ es) : v ∈ heldSince c (h ++ s.events es) := by
  apply heldSince_mono hv
  rw [AccessState.events]
  split <;> simp [hes]

theorem mem_heldSince_events {es : List (AccessEvent Core n)} (hs : s.partway = false) :
    s.mem ∈ heldSince c (h ++ s.events es) := by
  rw [AccessState.events, hs, ← List.append_assoc]
  exact mem_heldSince_holds

/-- What a core in a load relies on: its copy agrees with the location as far as it has got, and once
complete it is something the location held. -/
def AccessPc.Reads (mem : Bytes n) (held : List (Bytes n)) : AccessPc n → Prop
  | .loading buf left => ∀ i, buf i = mem i ∨ ∃ u ∈ left, i ∈ u
  | .loadUnlocking buf | .loadReturning buf => buf ∈ held
  | _ => True

namespace AccessState

structure Consistent (s : AccessState Core n) (h : List (AccessEvent Core n)) : Prop where
  alone : ∀ c d, (s.pc c).InSwap → (s.pc d).InSwap → c = d
  locked : ∀ c, (s.pc c).InSwap → s.cexMutex = true
  partway : s.partway = true → ∃ d, (s.pc d).Storing
  reads : ∀ c, (s.pc c).Reads s.mem (heldSince c h)
  untorn : Untorn h

omit [DecidableEq Core] in
private theorem reads_frame {mem mem' : Bytes n} {held held' : List (Bytes n)} {pc : AccessPc n}
    (hr : pc.Reads mem held) (hmem : mem' = mem ∨ ¬ pc.Loading) (hheld : held ⊆ held') :
    pc.Reads mem' held' := by
  cases pc with
  | loading buf left =>
    rcases hmem with rfl | hl
    · exact hr
    · exact absurd trivial hl
  | loadUnlocking buf => exact hheld hr
  | loadReturning buf => exact hheld hr
  | idle | loadEntered | loadLocked => trivial
  | swapEntered | swapAt | swapIn | swapUnlocking | swapReturning => trivial

private theorem goto_pc (s : AccessState Core n) (c k : Core) (pc : AccessPc n) :
    (s.goto c pc).pc k = if k = c then pc else s.pc k := by
  simp [goto, Function.update_apply]

/-- One core moves from `s` to `t`. -/
private theorem Consistent.move {t : AccessState Core n} {es : List (AccessEvent Core n)}
    (hs : s.Consistent h) {pc : AccessPc n} (hpc : t.pc = s.pc)
    (hin : pc.InSwap → t.cexMutex = true ∧ ∀ k ≠ c, ¬ (s.pc k).InSwap)
    (hlocked : ∀ k ≠ c, (s.pc k).InSwap → t.cexMutex = true)
    (hpartway : t.partway = true → pc.Storing ∨ ∃ k ≠ c, (s.pc k).Storing)
    (hmem : t.mem = s.mem ∨ ∀ k, ¬ (s.pc k).Loading)
    (hcalls : ∀ k ≠ c, .loadCall k ∉ es)
    (hreads : pc.Reads t.mem (heldSince c (h ++ (t.goto c pc).events es)))
    (huntorn : Untorn (h ++ es)) : (t.goto c pc).Consistent (h ++ (t.goto c pc).events es) := by
  refine ⟨?_, ?_, ?_, ?_, huntorn.events⟩
  · intro k j hk hj
    rw [goto_pc, hpc] at hk hj
    split at hk
    · next hkc =>
      split at hj
      · next hjc => exact hkc.trans hjc.symm
      · next hjc => exact absurd hj ((hin hk).2 j hjc)
    · next hkc =>
      split at hj
      · next hjc => exact absurd hk ((hin hj).2 k hkc)
      · exact hs.alone k j hk hj
  · intro k hk
    rw [goto_pc, hpc] at hk
    split at hk
    · exact (hin hk).1
    · next hkc => exact hlocked k hkc hk
  · intro hp
    rcases hpartway hp with hst | ⟨k, hkc, hk⟩
    · exact ⟨c, by rw [goto_pc, if_pos rfl]; exact hst⟩
    · exact ⟨k, by rw [goto_pc, if_neg hkc, hpc]; exact hk⟩
  · intro k
    rw [goto_pc, hpc]
    split
    · next hkc =>
      subst hkc
      exact hreads
    · next hkc =>
      apply reads_frame (hs.reads k) (hmem.imp id fun hl => hl k)
      intro v hv
      exact heldSince_events hv (hcalls k hkc)

/-- A step outside the stores of compare-exchanges that leaves `__atomic_cex_mutex` alone. -/
private theorem Consistent.advance {t : AccessState Core n} {es : List (AccessEvent Core n)}
    (hs : s.Consistent h) {pc : AccessPc n} (hpc : t.pc = s.pc) (hmem : t.mem = s.mem)
    (hcex : t.cexMutex = s.cexMutex) (hpart : t.partway = s.partway)
    (hstoring : ¬ (s.pc c).Storing) (hin : pc.InSwap → (s.pc c).InSwap)
    (hcalls : ∀ k ≠ c, .loadCall k ∉ es)
    (hreads : pc.Reads t.mem (heldSince c (h ++ (t.goto c pc).events es)))
    (huntorn : Untorn (h ++ es)) : (t.goto c pc).Consistent (h ++ (t.goto c pc).events es) := by
  apply hs.move hpc ?_ ?_ ?_ (Or.inl hmem) hcalls hreads huntorn
  · intro hp
    refine ⟨hcex.trans (hs.locked c (hin hp)), ?_⟩
    intro k hkc hk
    exact hkc (hs.alone k c hk (hin hp))
  · intro k _ hk
    exact hcex.trans (hs.locked k hk)
  · intro hp
    obtain ⟨d, hd⟩ := hs.partway (hpart.symm.trans hp)
    have hdc : d ≠ c := by
      rintro rfl
      exact hstoring hd
    exact Or.inr ⟨d, hdc, hd⟩

private theorem piecewise_covers {mem buf : Bytes n} {u : Finset (Fin n)}
    {left : List (Finset (Fin n))}
    (hcover : ∀ i, buf i = mem i ∨ i ∈ u ∨ ∃ w ∈ left, i ∈ w) (i : Fin n) :
    u.piecewise mem buf i = mem i ∨ ∃ w ∈ left, i ∈ w := by
  by_cases hi : i ∈ u
  · exact Or.inl (Finset.piecewise_eq_of_mem u mem buf hi)
  · rw [Finset.piecewise_eq_of_notMem u mem buf hi]
    rcases hcover i with hbuf | hu | hleft
    · exact Or.inl hbuf
    · exact absurd hu hi
    · exact Or.inr hleft

private theorem partway_eq_false (hs : s.Consistent h)
    (hstoring : ∀ d, ¬ (s.pc d).Storing) : s.partway = false := by
  cases hp : s.partway with
  | false => rfl
  | true =>
    obtain ⟨d, hd⟩ := hs.partway hp
    exact absurd hd (hstoring d)

private theorem Consistent.loadPiece (hs : s.Consistent h) (hstoring : ∀ d, ¬ (s.pc d).Storing)
    {buf : Bytes n} {u : Finset (Fin n)} {left : List (Finset (Fin n))}
    (hcover : ∀ i, buf i = s.mem i ∨ i ∈ u ∨ ∃ w ∈ left, i ∈ w) :
    (s.loadPiece c buf u left).Consistent (h ++ (s.loadPiece c buf u left).events []) := by
  have hpart := partway_eq_false hs hstoring
  have hcopied := piecewise_covers hcover
  rw [AccessState.loadPiece]
  split
  · next hleft =>
    subst hleft
    have heq : u.piecewise s.mem buf = s.mem := by
      funext i
      simpa using hcopied i
    rw [heq]
    apply hs.advance rfl rfl rfl rfl (hstoring c) (by exact fun hin => False.elim hin) (by simp)
    · exact mem_heldSince_events hpart
    · simpa using hs.untorn
  · refine hs.advance rfl rfl rfl rfl (hstoring c) (by exact fun hin => False.elim hin) (by simp) ?_ ?_
    · exact hcopied
    · simpa using hs.untorn

private theorem Consistent.swapPiece (hs : s.Consistent h) {op : Exchange n} {stage : Stage n}
    (hin : (s.pc c).InSwap) (hstoring : (s.pc c).Storing → ∃ prev, stage = .store prev)
    (hloading : ∀ prev, stage = .store prev → ∀ d, ¬ (s.pc d).Loading)
    {buf : Bytes n} {u : Finset (Fin n)} {left : List (Finset (Fin n))} :
    (s.swapPiece c op stage buf u left).Consistent
      (h ++ (s.swapPiece c op stage buf u left).events []) := by
  have huntorn : Untorn (h ++ []) := by simpa using hs.untorn
  cases stage with
  | copyPrev =>
    have hns : ¬ (s.pc c).Storing := fun hst => by simpa using hstoring hst
    rw [AccessState.swapPiece]
    split
    · exact hs.advance rfl rfl rfl rfl hns (fun _ => hin) (by simp) trivial huntorn
    · exact hs.advance rfl rfl rfl rfl hns (fun _ => hin) (by simp) trivial huntorn
  | compare prev =>
    have hns : ¬ (s.pc c).Storing := fun hst => by simpa using hstoring hst
    rw [AccessState.swapPiece]
    split_ifs
    · exact hs.advance rfl rfl rfl rfl hns (fun _ => hin) (by simp) trivial huntorn
    · exact hs.advance rfl rfl rfl rfl hns (fun _ => hin) (by simp) trivial huntorn
    · exact hs.advance rfl rfl rfl rfl hns (fun _ => hin) (by simp) trivial huntorn
  | store prev =>
    have halone : ∀ k ≠ c, ¬ (s.pc k).InSwap := fun k hkc hk => hkc (hs.alone k c hk hin)
    have hcex := hs.locked c hin
    rw [AccessState.swapPiece]
    split
    · next hleft =>
      refine hs.move rfl (fun _ => ⟨hcex, halone⟩) (fun _ _ _ => hcex) ?_
        (Or.inr (hloading prev rfl)) (by simp) ?_ huntorn
      · simp [hleft]
      · trivial
    · exact hs.move rfl (fun _ => ⟨hcex, halone⟩) (fun _ _ _ => hcex) (fun _ => Or.inl trivial)
        (Or.inr (hloading prev rfl)) (by simp) trivial huntorn
  | copyBack prev =>
    have hns : ¬ (s.pc c).Storing := fun hst => by simpa using hstoring hst
    rw [AccessState.swapPiece]
    split
    · exact hs.advance rfl rfl rfl rfl hns (fun _ => hin) (by simp) trivial huntorn
    · exact hs.advance rfl rfl rfl rfl hns (fun _ => hin) (by simp) trivial huntorn

private theorem consistent_silent (hs : s.Consistent h) : s.Consistent (h ++ s.events []) := by
  refine ⟨hs.alone, hs.locked, hs.partway, ?_, ?_⟩
  · intro c
    apply reads_frame (hs.reads c) (Or.inl rfl)
    intro v hv
    exact heldSince_events hv (by simp)
  · apply Untorn.events
    simpa using hs.untorn

private theorem emit_eq_some {t : AccessState Core n} {es es' : List (AccessEvent Core n)}
    (hemit : t.emit es = some (s', es')) (ht : t.Consistent (h ++ t.events es)) :
    s'.Consistent (h ++ es') := by
  cases hemit
  exact ht

theorem Consistent.step {loc : Access} {s s' : AccessState Core loc.size}
    {h es : List (AccessEvent Core loc.size)} {i : AccessStep Core loc.size} (hs : s.Consistent h)
    (hapart : KeepsApart s i) (hstep : atomicAccess loc s i = some (s', es)) :
    s'.Consistent (h ++ es) := by
  have huntorn : Untorn (h ++ []) := by simpa using hs.untorn
  have hsnoc : ∀ e, (∀ c v, e ≠ .loadRet c v) → Untorn (h ++ [e]) :=
    fun e he => hs.untorn.snoc fun c v heq => absurd heq (he c v)
  cases i with
  | loadCall c =>
    cases hpc : s.pc c with
    | idle =>
      simp only [atomicAccess, hpc] at hstep
      apply emit_eq_some hstep
      refine hs.advance rfl rfl rfl rfl (by rw [hpc]; exact id)
        (by exact fun hin => False.elim hin) ?_ ?_ (hsnoc _ (by simp))
      · intro k hkc
        simp [hkc]
      · trivial
    | _ => simp [atomicAccess, hpc] at hstep
  | swapCall c op =>
    cases hpc : s.pc c with
    | idle =>
      simp only [atomicAccess, hpc] at hstep
      apply emit_eq_some hstep
      exact hs.advance rfl rfl rfl rfl (by rw [hpc]; exact id) (by exact fun hin => False.elim hin) (by simp)
        trivial (hsnoc _ (by simp))
    | _ => simp [atomicAccess, hpc] at hstep
  | dereference c =>
    cases hpc : s.pc c with
    | loadEntered =>
      simp only [atomicAccess, hpc] at hstep
      split at hstep
      · apply emit_eq_some hstep
        apply hs.advance rfl rfl rfl rfl (hapart c) (by exact fun hin => False.elim hin) (by simp) ?_ huntorn
        apply mem_heldSince_events
        exact partway_eq_false (s := s) hs hapart
      · cases hstep
    | _ => simp [atomicAccess, hpc] at hstep
  | mutexTrylock c =>
    cases hpc : s.pc c with
    | loadEntered =>
      simp only [atomicAccess, hpc] at hstep
      split_ifs at hstep
      · exact emit_eq_some hstep (consistent_silent hs)
      · apply emit_eq_some hstep
        exact hs.advance rfl rfl rfl rfl (by rw [hpc]; exact id) (by exact fun hin => False.elim hin)
          (by simp) trivial huntorn
    | swapEntered op =>
      simp only [atomicAccess, hpc, loc.swapReserves_eq_false, Bool.false_eq_true, if_false] at hstep
      split at hstep
      · exact emit_eq_some hstep (consistent_silent hs)
      · next hcex =>
        apply emit_eq_some hstep
        have hfree : ∀ k, ¬ (s.pc k).InSwap := fun k hk => hcex (hs.locked k hk)
        refine hs.move rfl (fun _ => ⟨rfl, fun k _ => hfree k⟩) (fun _ _ _ => rfl) ?_ (Or.inl rfl)
          (by simp) ?_ huntorn
        · intro hp
          obtain ⟨d, hd⟩ := hs.partway hp
          have hin : (s.pc d).InSwap := by
            cases hpcd : s.pc d with
            | swapIn _ _ _ _ => trivial
            | _ => simp [hpcd, AccessPc.Storing] at hd
          exact absurd hin (hfree d)
        · trivial
    | _ => simp [atomicAccess, hpc] at hstep
  | firstPiece c pieces dest =>
    cases hpc : s.pc c with
    | loadLocked =>
      simp only [atomicAccess, hpc] at hstep
      simp only [KeepsApart, hpc] at hapart
      apply emit_eq_some hstep
      exact hs.loadPiece hapart fun i => Or.inr (pieces.covers i)
    | swapAt op stage =>
      simp only [atomicAccess, hpc] at hstep
      apply emit_eq_some hstep
      apply hs.swapPiece (by rw [hpc]; trivial) (by rw [hpc]; exact fun hst => False.elim hst)
      intro prev hstage
      simpa [KeepsApart, hpc, hstage] using hapart
    | _ => simp [atomicAccess, hpc] at hstep
  | nextPiece c =>
    cases hpc : s.pc c with
    | loading buf left =>
      cases left with
      | nil => simp [atomicAccess, hpc] at hstep
      | cons u left =>
        simp only [atomicAccess, hpc] at hstep
        simp only [KeepsApart, hpc] at hapart
        apply emit_eq_some hstep
        apply hs.loadPiece hapart
        have hreads := hs.reads c
        rw [hpc] at hreads
        intro i
        simpa using hreads i
    | swapIn op stage buf left =>
      cases left with
      | nil => simp [atomicAccess, hpc] at hstep
      | cons u left =>
        simp only [atomicAccess, hpc] at hstep
        apply emit_eq_some hstep
        apply hs.swapPiece (by rw [hpc]; trivial)
        · rw [hpc]
          intro hst
          cases stage with
          | store prev => exact ⟨prev, rfl⟩
          | _ => exact False.elim hst
        · intro prev hstage
          simpa [KeepsApart, hpc, hstage] using hapart
    | _ => simp [atomicAccess, hpc] at hstep
  | mutexUnlock c =>
    cases hpc : s.pc c with
    | loadUnlocking buf =>
      simp only [atomicAccess, hpc] at hstep
      apply emit_eq_some hstep
      have hreads := hs.reads c
      rw [hpc] at hreads
      refine hs.advance rfl rfl rfl rfl (by rw [hpc]; exact id)
        (by exact fun hin => False.elim hin) (by simp) ?_ huntorn
      exact heldSince_events hreads (by simp)
    | swapUnlocking op out =>
      simp only [atomicAccess, hpc] at hstep
      apply emit_eq_some hstep
      have halone : ∀ k ≠ c, ¬ (s.pc k).InSwap := by
        intro k hkc hk
        exact hkc (hs.alone k c hk (by rw [hpc]; trivial))
      refine hs.move rfl (by exact fun hin => False.elim hin) ?_ ?_ (Or.inl rfl) (by simp) ?_ huntorn
      · intro k hkc hk
        exact absurd hk (halone k hkc)
      · intro hp
        obtain ⟨d, hd⟩ := hs.partway hp
        have hdc : d ≠ c := by
          rintro rfl
          rw [hpc] at hd
          exact False.elim hd
        exact Or.inr ⟨d, hdc, hd⟩
      · trivial
    | _ => simp [atomicAccess, hpc] at hstep
  | ret c =>
    cases hpc : s.pc c with
    | loadReturning buf =>
      simp only [atomicAccess, hpc] at hstep
      apply emit_eq_some hstep
      have hreads := hs.reads c
      rw [hpc] at hreads
      refine hs.advance rfl rfl rfl rfl (by rw [hpc]; exact id)
        (by exact fun hin => False.elim hin) (by simp) ?_ ?_
      · trivial
      · apply hs.untorn.snoc
        intro d v heq
        cases heq
        exact hreads
    | swapReturning op out =>
      simp only [atomicAccess, hpc] at hstep
      apply emit_eq_some hstep
      exact hs.advance rfl rfl rfl rfl (by rw [hpc]; exact id) (by exact fun hin => False.elim hin)
        (by simp) trivial (hsnoc _ (by simp))
    | _ => simp [atomicAccess, hpc] at hstep

theorem consistent_init (v : Bytes n) : (init v : AccessState Core n).Consistent [] := by
  refine ⟨?_, ?_, ?_, ?_, ?_⟩
  · intro c d hc
    exact False.elim hc
  · intro c hc
    exact False.elim hc
  · intro hp
    cases hp
  · intro c
    trivial
  · intro pre c v post heq
    simp at heq

end AccessState

end

/-- In runs whose loads and stores keep apart, loads are never torn. -/
theorem atomic_load_untorn (loc : Access) (v : Bytes loc.size)
    {steps : List (AccessStep Core loc.size)} {s : AccessState Core loc.size}
    {h : List (AccessEvent Core loc.size)}
    (hapart : Machine.Along (atomicAccess loc) KeepsApart (init v) steps)
    (hrun : Machine.run (atomicAccess loc) (init v) steps = some (s, h)) : Untorn h := by
  have hend := Machine.run_history (fun s h => s.Consistent h) KeepsApart
    (fun _ _ _ _ _ hs hok hstep => hs.step hok hstep) (consistent_init v) hapart hrun
  exact hend.untorn

/-- An aligned `long long` in L2. -/
abbrev longInL2 : Access := ⟨8, 0x1C001000#32, by decide⟩

def inWords : Pieces 8 := ⟨{0, 1, 2, 3}, [{4, 5, 6, 7}], by decide⟩

def zeroBytes : Bytes 8 := fun _ => 0#8

def onesBytes : Bytes 8 := fun _ => 255#8

/-- A core swaps zero for minus one while another one is between the two words of its load. -/
def tornSteps : List (AccessStep (Fin 2) 8) :=
  [.loadCall 0, .mutexTrylock 0, .firstPiece 0 inWords zeroBytes,
    .swapCall 1 ⟨zeroBytes, onesBytes, false⟩, .mutexTrylock 1,
    .firstPiece 1 inWords zeroBytes, .nextPiece 1, .firstPiece 1 inWords zeroBytes, .nextPiece 1,
    .mutexUnlock 1, .ret 1, .nextPiece 0, .mutexUnlock 0, .ret 0]

/-- The same with the load first. -/
def apartSteps : List (AccessStep (Fin 2) 8) :=
  [.loadCall 0, .mutexTrylock 0, .swapCall 1 ⟨zeroBytes, onesBytes, false⟩, .mutexTrylock 1,
    .firstPiece 1 inWords zeroBytes, .nextPiece 1, .firstPiece 0 inWords zeroBytes, .nextPiece 0,
    .firstPiece 1 inWords zeroBytes, .nextPiece 1, .mutexUnlock 0, .mutexUnlock 1, .ret 1, .ret 0]

def historyOf (steps : List (AccessStep (Fin 2) 8)) : List (AccessEvent (Fin 2) 8) :=
  ((Machine.run (atomicAccess longInL2) (init zeroBytes) steps).map Prod.snd).getD []

/-- The load that was interrupted returns the low word of zero and the high word of minus one. -/
theorem atomic_load_torn : ¬ ∀ (steps : List (AccessStep (Fin 2) longInL2.size)) s h,
    Machine.run (atomicAccess longInL2) (init zeroBytes) steps = some (s, h) → Untorn h := by
  intro huntorn
  have hsome : (Machine.run (atomicAccess longInL2) (init zeroBytes) tornSteps).isSome := by
    decide +kernel
  obtain ⟨⟨s, h⟩, hrun⟩ := Option.isSome_iff_exists.mp hsome
  have hhist : h = historyOf tornSteps := by
    rw [historyOf, hrun]
    rfl
  have htorn : ¬ Untorn (historyOf tornSteps) := by decide +kernel
  exact htorn (hhist ▸ huntorn tornSteps s h hrun)

theorem atomic_load_untorn_apart :
    Machine.Along (atomicAccess longInL2) KeepsApart (init zeroBytes) apartSteps ∧
    ∀ s h, Machine.run (atomicAccess longInL2) (init zeroBytes) apartSteps = some (s, h) →
      Untorn h := by
  have hapart : Machine.Along (atomicAccess longInL2) KeepsApart (init zeroBytes) apartSteps := by
    decide +kernel
  refine ⟨hapart, ?_⟩
  intro s h hrun
  exact atomic_load_untorn longInL2 zeroBytes hapart hrun

end Hero.Omp
