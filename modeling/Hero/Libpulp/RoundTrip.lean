import Hero.Libpulp.MailboxRead
import Hero.Libpulp.Offload
import Mathlib.Data.List.Pairwise

/-!
# The round trip of a task

When a task that is offloaded and taken back leaves exactly the results of the accelerator behind.
The host memory is the outcome of a sequence of writes of bytes the accelerator answered with, so that
the places these bytes come from decide.
-/

namespace Hero.Libpulp

open Rab O1Heap

/-- An element that is passed back by copy -/
def DataDesc.IsCopyOut (d : DataDesc) : Prop := d.passType = .refCopy ∧ d.type ≠ .input

instance (d : DataDesc) : Decidable d.IsCopyOut := inferInstanceAs (Decidable (_ ∧ _))

/-- The bytes of an element -/
def DataDesc.Owns (d : DataDesc) (x : Nat) : Prop := d.ptr ≤ x ∧ x < d.ptr + d.size.toNat

instance (d : DataDesc) (x : Nat) : Decidable (d.Owns x) := inferInstanceAs (Decidable (_ ∧ _))

/-- No byte belongs to both elements. -/
def DataDesc.Apart (d e : DataDesc) : Prop := ∀ x, d.Owns x → ¬ e.Owns x

theorem DataDesc.apart_iff {d e : DataDesc} : d.Apart e ↔ d.size.toNat = 0 ∨ e.size.toNat = 0 ∨
    d.ptr + d.size.toNat ≤ e.ptr ∨ e.ptr + e.size.toNat ≤ d.ptr := by
  constructor
  · intro h
    by_contra hnone
    have hlast := h (max d.ptr e.ptr)
    rw [DataDesc.Owns, DataDesc.Owns] at hlast
    omega
  · intro h x hd he
    rw [DataDesc.Owns] at hd he
    omega

instance (d e : DataDesc) : Decidable (d.Apart e) := decidable_of_iff _ DataDesc.apart_iff.symm

/-- The copies have got to the L3 memory and the results to their elements, nothing else has changed,
and the blocks have been freed. -/
structure Returned (s s' : OffloadState) (f : Finished) : Prop where
  sent : ∀ d ∈ f.ds, d.passType = .refCopy → d.type ≠ .output →
    ∀ k < d.size.toNat, f.sent (d.ptrL3V + k) = s.host (d.ptr + k)
  values : ∀ j d, (f.ds.filter (·.IsValOut))[j]? = some d →
    ∀ k : Fin 4, (k : Nat) < d.size.toNat → s'.host (d.ptr + k) = wordByte (f.answer.stream j) k
  copies : ∀ d ∈ f.ds, d.IsCopyOut →
    ∀ k < d.size.toNat, s'.host (d.ptr + k) = f.answer.l3 (d.ptrL3V + k)
  inputs : ∀ d ∈ f.ds, d.type = .input → ∀ x, d.Owns x → s'.host x = s.host x
  rest : ∀ x, (∀ d ∈ f.ds, d.IsValOut ∨ d.IsCopyOut → ¬ d.Owns x) → s'.host x = s.host x
  live : s'.mem.live = s.mem.live

section Conditions

variable (env : OffloadEnv)

/-- All requests for static mappings are granted. -/
def StaticOk (task : TaskDesc) : Prop :=
  ∀ r ∈ task.rabRequests.zipIdx, env.rabReq r.2 r.1 = 0

def StripedOk (task : TaskDesc) : Prop := 0 < task.nRefSvmStripe → env.rabReqStriped = 0

/-- All requests for L3 memory are served by blocks in the window. -/
def AllocOk (mem : L3State) : List DataDesc → Prop
  | [] => True
  | d :: ds =>
    if d.passType = .refCopy then
      (∃ b ∈ (l3Malloc env mem d.size).1, env.InWindow b.1 d.size.toNat) ∧
        AllocOk (l3Malloc env mem d.size).2 ds
    else AllocOk mem ds

instance decidableAllocOk : ∀ ds mem, Decidable (AllocOk env mem ds)
  | [], _ => isTrue trivial
  | d :: ds, mem =>
    have := decidableAllocOk ds
    inferInstanceAs (Decidable (if d.passType = .refCopy then
      (∃ b ∈ (l3Malloc env mem d.size).1, env.InWindow b.1 d.size.toNat) ∧
        AllocOk env (l3Malloc env mem d.size).2 ds else AllocOk env mem ds))

/-- The mailbox returns the first `n` words of the stream. -/
def Reads (stream : Nat → BitVec 32) (n : Nat) : Prop :=
  (env.mboxRead stream n).ret = 0 ∧ (env.mboxRead stream n).overrun = false ∧
    ∀ j < n, (env.mboxRead stream n).buffer j = stream j

/-- No step of the round trip fails. -/
structure NoFailure (s : OffloadState) (task : TaskDesc) (stream : Nat → BitVec 32) : Prop where
  static : StaticOk env task
  striped : StripedOk env task
  alloc : AllocOk env s.mem task.dataDesc
  mbox : Reads env stream (task.dataDesc.countP (·.IsValOut))

/-- For whatever the accelerator does: if no step fails the results are returned, else an error is and
the host memory is as before. -/
def RoundTripOk (s : OffloadState) (task : TaskDesc) : Prop :=
  ∀ accel, match roundTrip env accel s task with
    | .ok f s' => NoFailure env s task f.answer.stream ∧ Returned s s' f
    | .error code s' => code ≠ 0 ∧ s'.host = s.host ∧ ¬ ∀ stream, NoFailure env s task stream
    | .fault => False

/-- No byte belongs to two elements of which one is passed back by value or by copy, and the other
one too or is an input. -/
structure Separate (ds : List DataDesc) : Prop where
  values : (ds.filter (·.IsValOut)).Pairwise DataDesc.Apart
  copies : (ds.filter (·.IsCopyOut)).Pairwise DataDesc.Apart
  across : ∀ d ∈ ds, ∀ e ∈ ds, d.IsValOut → e.IsCopyOut → d.Apart e
  inputs : ∀ d ∈ ds, ∀ e ∈ ds, d.IsValOut ∨ d.IsCopyOut → e.type = .input → d.Apart e

/-- What a word covers behind its element belongs to elements that are returned by value later. -/
def Contained : List DataDesc → Prop
  | [] => True
  | d :: ds => (∀ k < 4, d.size.toNat ≤ k → ∃ e ∈ ds, e.Owns (d.ptr + k)) ∧ Contained ds

instance decidableContained : ∀ ds, Decidable (Contained ds)
  | [] => isTrue trivial
  | _ :: ds =>
    have := decidableContained ds
    inferInstanceAs (Decidable (_ ∧ _))

/-- There are entries for all striped elements, and either the request for the striped mappings fails,
or no step does, the elements are separate and no word is written where it does not belong. -/
structure RoundTripCond (s : OffloadState) (task : TaskDesc) : Prop where
  entries : 0 < task.nRefSvmStripe → task.nStriped ≤ task.nRefSvmStripe
  run : StripedOk env task → StaticOk env task ∧ AllocOk env s.mem task.dataDesc ∧
    (∀ stream, Reads env stream (task.dataDesc.countP (·.IsValOut))) ∧
    Separate task.dataDesc ∧ Contained (task.dataDesc.filter (·.IsValOut))

end Conditions

/-- A byte of what the accelerator answers -/
inductive Place where
  | word (j : Nat) (k : Fin 4)
  | copy (a : Nat)
  deriving DecidableEq

namespace Place

def read (answer : Answer) : Place → Byte
  | .word j k => wordByte (answer.stream j) k
  | .copy a => answer.l3 a

@[simp] theorem read_word (answer : Answer) (j : Nat) (k : Fin 4) :
    read answer (.word j k) = wordByte (answer.stream j) k := rfl

@[simp] theorem read_copy (answer : Answer) (a : Nat) : read answer (.copy a) = answer.l3 a := rfl

def zero : Answer := ⟨fun _ => 0, fun _ => 0⟩

/-- The answer with all bits set at one place and none elsewhere -/
def mark : Place → Answer
  | .word j k => ⟨fun i => if i = j then 0xff#32 <<< (8 * (k : Nat)) else 0, fun _ => 0⟩
  | .copy a => ⟨fun _ => 0, fun b => if b = a then 0xff else 0⟩

private theorem wordByte_mark : ∀ k l : Fin 4,
    wordByte (0xff#32 <<< (8 * (k : Nat))) l = if l = k then 0xff else 0 := by decide

private theorem wordByte_zero : ∀ k : Fin 4, wordByte 0#32 k = 0#8 := by decide

theorem read_zero (p : Place) : p.read zero = 0 := by
  cases p with
  | word j k => exact wordByte_zero k
  | copy a => rfl

theorem read_mark (p q : Place) : q.read p.mark = if q = p then 0xff else 0 := by
  cases p with
  | word j k =>
    cases q with
    | word i l =>
      by_cases hi : i = j
      · simp [mark, hi, wordByte_mark]
      · simp [mark, hi, wordByte_zero]
    | copy a => simp [mark]
  | copy a =>
    cases q with
    | word i l => simp [mark, wordByte_zero]
    | copy b => simp [mark]

/-- A byte that is read alike for every answer comes from one place or from none. -/
theorem eq_of_read {o o' : Option Place} {b : Byte}
    (h : ∀ answer, (o.map (read answer)).getD b = (o'.map (read answer)).getD b) : o = o' := by
  have hkept : ∀ p : Place, ¬ ∀ answer, p.read answer = b := by
    intro p hp
    have h0 := hp zero
    have h1 := hp p.mark
    rw [read_zero] at h0
    rw [read_mark, if_pos rfl, ← h0] at h1
    exact absurd h1 (by decide)
  cases o with
  | none =>
    cases o' with
    | none => rfl
    | some q => exact absurd (fun answer => (h answer).symm) (hkept q)
  | some p =>
    cases o' with
    | none => exact absurd h (hkept p)
    | some q =>
      have hmark := h p.mark
      simp only [Option.map_some, Option.getD_some, read_mark, if_pos] at hmark
      by_contra hne
      have hqp : q ≠ p := fun heq => hne (by rw [heq])
      rw [if_neg hqp] at hmark
      exact absurd hmark (by decide)

end Place

section Writes

def copyWrite (d : DataDesc) : Write Place := ⟨d.ptr, d.size.toNat, fun k => .copy (d.ptrL3V + k)⟩

local instance neZeroBytes : NeZero 4 := ⟨four_ne_zero⟩

def wordWrite (v : DataDesc × Nat) : Write Place :=
  ⟨v.1.ptr, 4, fun k => .word v.2 (Fin.ofNat 4 k)⟩

/-- The writes of the copies that are passed back -/
def copyWrites (ds : List DataDesc) : List (Write Place) :=
  (ds.filter (·.IsCopyOut)).map copyWrite

/-- The writes of the words from the `j`-th on -/
def wordWrites (vs : List DataDesc) (j : Nat) : List (Write Place) := (vs.zipIdx j).map wordWrite

def returnWrites (ds : List DataDesc) : List (Write Place) :=
  copyWrites ds ++ wordWrites (ds.filter (·.IsValOut)) 0

/-- The word that is stored for an element covers the byte. -/
def DataDesc.Reaches (d : DataDesc) (x : Nat) : Prop := d.ptr ≤ x ∧ x < d.ptr + 4

/-- The places the bytes of the elements are to come from -/
structure Met (ds : List DataDesc) (mem : Nat → Option Place) : Prop where
  values : ∀ j d, (ds.filter (·.IsValOut))[j]? = some d → ∀ x, d.Owns x →
    mem x = some (.word j (Fin.ofNat 4 (x - d.ptr)))
  copies : ∀ d ∈ ds, d.IsCopyOut → ∀ x, d.Owns x → mem x = some (.copy (d.ptrL3V + (x - d.ptr)))
  inputs : ∀ d ∈ ds, d.type = .input → ∀ x, d.Owns x → mem x = none
  rest : ∀ x, (∀ d ∈ ds, d.IsValOut ∨ d.IsCopyOut → ¬ d.Owns x) → mem x = none

variable {d e : DataDesc} {ds vs : List DataDesc} {x j : Nat}

theorem DataDesc.IsValOut.size_le (h : d.IsValOut) : d.size.toNat ≤ 4 := by
  by_contra hlt
  obtain ⟨hpass, -⟩ := h
  rw [DataDesc.passType, if_pos (by omega)] at hpass
  cases hctrl : d.shMemCtrl <;> simp [hctrl] at hpass

theorem DataDesc.lt_size (h : d.passType = .refCopy) : 4 < d.size.toNat := by
  by_contra hle
  rw [DataDesc.passType, if_neg hle] at h
  cases h

theorem DataDesc.Owns.reaches (h : d.Owns x) (hsize : d.size.toNat ≤ 4) : d.Reaches x := by
  obtain ⟨hle, hlt⟩ := h
  exact ⟨hle, by omega⟩

theorem wordWrites_append {us : List DataDesc} :
    wordWrites (vs ++ us) j = wordWrites vs j ++ wordWrites us (j + vs.length) := by
  rw [wordWrites, List.zipIdx_append, List.map_append]
  rfl

theorem wordWrites_not_covers (h : ∀ d ∈ vs, ¬ d.Reaches x) :
    ∀ w ∈ wordWrites vs j, ¬ w.Covers x := by
  intro w hw
  obtain ⟨v, hv, rfl⟩ := List.mem_map.mp hw
  exact h v.1 (List.fst_mem_of_mem_zipIdx hv)

theorem copyWrites_not_covers (h : ∀ d ∈ ds, d.IsCopyOut → ¬ d.Owns x) :
    ∀ w ∈ copyWrites ds, ¬ w.Covers x := by
  intro w hw
  obtain ⟨d, hd, rfl⟩ := List.mem_map.mp hw
  simp only [List.mem_filter, decide_eq_true_eq] at hd
  exact h d hd.1 hd.2

/-- The last element whose word covers a byte decides. -/
theorem written_word {pre post : List DataDesc} (hvs : ds.filter (·.IsValOut) = pre ++ d :: post)
    (hx : d.Reaches x) (hpost : ∀ e ∈ post, ¬ e.Reaches x) :
    Write.written (returnWrites ds) x = some (.word pre.length (Fin.ofNat 4 (x - d.ptr))) := by
  rw [returnWrites, hvs, wordWrites_append, ← List.append_assoc, Nat.zero_add]
  exact Write.written_of_last (w := wordWrite (d, pre.length)) hx (wordWrites_not_covers hpost)

/-- Where no word is written, the last copy decides. -/
theorem written_copy {pre post : List DataDesc} (hvs : ∀ e ∈ ds.filter (·.IsValOut), ¬ e.Reaches x)
    (hcs : ds.filter (·.IsCopyOut) = pre ++ d :: post) (hx : d.Owns x)
    (hpost : ∀ e ∈ post, ¬ e.Owns x) :
    Write.written (returnWrites ds) x = some (.copy (d.ptrL3V + (x - d.ptr))) := by
  rw [returnWrites, Write.written_append_of_not_covers (wordWrites_not_covers hvs), copyWrites, hcs,
    List.map_append, List.map_cons]
  apply Write.written_of_last (w := copyWrite d) hx
  intro w hw
  obtain ⟨e, he, rfl⟩ := List.mem_map.mp hw
  exact hpost e he

theorem written_none (hvs : ∀ e ∈ ds.filter (·.IsValOut), ¬ e.Reaches x)
    (hcs : ∀ d ∈ ds, d.IsCopyOut → ¬ d.Owns x) : Write.written (returnWrites ds) x = none := by
  rw [returnWrites, Write.written_append_of_not_covers (wordWrites_not_covers hvs)]
  exact Write.written_of_not_covers (copyWrites_not_covers hcs)

/-- Two blocks do not overlap. -/
def BlocksApart (d e : DataDesc) : Prop :=
  d.ptrL3V + d.size.toNat ≤ e.ptrL3V ∨ e.ptrL3V + e.size.toNat ≤ d.ptrL3V

instance : Std.Symm DataDesc.Apart := ⟨fun _ _ h x he hd => h x hd he⟩

/-- A byte has one owner among elements that are apart. -/
theorem index_unique {i : Nat} (hvs : vs.Pairwise DataDesc.Apart) (hi : vs[i]? = some d)
    (hj : vs[j]? = some e) (hd : d.Owns x) (he : e.Owns x) : i = j := by
  rw [List.pairwise_iff_getElem] at hvs
  obtain ⟨hilt, rfl⟩ := List.getElem?_eq_some_iff.mp hi
  obtain ⟨hjlt, rfl⟩ := List.getElem?_eq_some_iff.mp hj
  rcases lt_trichotomy i j with hlt | heq | hgt
  · exact absurd he (hvs i j hilt hjlt hlt x hd)
  · exact heq
  · exact absurd hd (hvs j i hjlt hilt hgt x he)

theorem contained_append {pre post : List DataDesc} :
    Contained (pre ++ post) → Contained post := by
  induction pre with
  | nil => exact id
  | cons d pre ih => exact fun h => ih h.2

/-- If words are contained the last element whose word covers a byte owns it. -/
theorem Contained.owner (hcont : Contained vs) (hsize : ∀ e ∈ vs, e.size.toNat ≤ 4)
    (h : ∃ e ∈ vs, e.Reaches x) :
    ∃ pre d post, vs = pre ++ d :: post ∧ d.Owns x ∧ ∀ e ∈ post, ¬ e.Reaches x := by
  obtain ⟨pre, d, post, rfl, ⟨hle, hlt⟩, hpost⟩ := exists_last h
  refine ⟨pre, d, post, rfl, ?_, hpost⟩
  by_contra howns
  obtain ⟨e, he, hex⟩ := (contained_append hcont).1 (x - d.ptr) (by omega) (by
    by_contra hsmall
    exact howns ⟨hle, by omega⟩)
  rw [Nat.add_sub_cancel' hle] at hex
  exact hpost e he (hex.reaches (hsize e (by simp [he])))

theorem mem_valOut : d ∈ ds.filter (·.IsValOut) ↔ d ∈ ds ∧ d.IsValOut := by simp

theorem mem_copyOut : d ∈ ds.filter (·.IsCopyOut) ↔ d ∈ ds ∧ d.IsCopyOut := by simp

/-- A byte is covered by words only if an element that is returned by value owns it. -/
theorem not_reaches_of_not_owns (hcont : Contained (ds.filter (·.IsValOut)))
    (h : ∀ d ∈ ds, d.IsValOut → ¬ d.Owns x) : ∀ e ∈ ds.filter (·.IsValOut), ¬ e.Reaches x := by
  intro e he hex
  obtain ⟨pre, d, post, hvs, hd, -⟩ :=
    hcont.owner (fun e he => (mem_valOut.mp he).2.size_le) ⟨e, he, hex⟩
  have hmem : d ∈ ds.filter (·.IsValOut) := by rw [hvs]; simp
  exact h d (mem_valOut.mp hmem).1 (mem_valOut.mp hmem).2 hd

/-- Separate elements and contained words suffice. -/
theorem Separate.met (hsep : Separate ds) (hcont : Contained (ds.filter (·.IsValOut))) :
    Met ds (Write.written (returnWrites ds)) where
  values := by
    intro j d hj x hd
    have hval : ∀ e ∈ ds.filter (·.IsValOut), e.size.toNat ≤ 4 := fun e he =>
      (mem_valOut.mp he).2.size_le
    have hmem : d ∈ ds.filter (·.IsValOut) := List.mem_of_getElem? hj
    obtain ⟨pre, f, post, hvs, hf, hpost⟩ := hcont.owner hval ⟨d, hmem, hd.reaches (hval d hmem)⟩
    have hj' : (ds.filter (·.IsValOut))[pre.length]? = some f := by simp [hvs]
    have hjj : pre.length = j := index_unique hsep.values hj' hj hf hd
    have hfd : f = d := by
      rw [hjj, hj] at hj'
      exact (Option.some.inj hj').symm
    rw [written_word hvs (hf.reaches (hval f (by simp [hvs]))) hpost, hjj, hfd]
  copies := by
    intro d hd hcopy x hx
    have hvs := not_reaches_of_not_owns (x := x) hcont fun e he hval hex =>
      hsep.across e he d hd hval hcopy x hex hx
    have hlast : ∃ e ∈ ds.filter (·.IsCopyOut), e.Owns x := ⟨d, mem_copyOut.mpr ⟨hd, hcopy⟩, hx⟩
    obtain ⟨pre, f, post, hcs, hf, hpost⟩ := exists_last hlast
    have hfd : f = d := by
      by_contra hne
      have hpair := hsep.copies.forall (mem_copyOut.mpr ⟨hd, hcopy⟩)
        (show f ∈ _ by rw [hcs]; simp) (Ne.symm hne)
      exact hpair x hx hf
    rw [written_copy hvs hcs hf hpost, hfd]
  inputs := by
    intro d hd hinput x hx
    apply written_none
    · exact not_reaches_of_not_owns hcont fun e he hval hex =>
        hsep.inputs e he d hd (Or.inl hval) hinput x hex hx
    · exact fun e he hcopy hex => hsep.inputs e he d hd (Or.inr hcopy) hinput x hex hx
  rest := by
    intro x hx
    apply written_none
    · exact not_reaches_of_not_owns hcont fun e he hval => hx e he (Or.inl hval)
    · exact fun e he hcopy => hx e he (Or.inr hcopy)

/-- Where the places are met, no byte belongs to two elements. -/
theorem Met.separate {mem : Nat → Option Place} (hmet : Met ds mem)
    (hblocks : (ds.filter (·.IsCopyOut)).Pairwise BlocksApart) : Separate ds where
  values := by
    rw [List.pairwise_iff_getElem]
    intro i j hi hj hlt x hd he
    have hboth := (hmet.values i _ (List.getElem?_eq_getElem hi) x hd).symm.trans
      (hmet.values j _ (List.getElem?_eq_getElem hj) x he)
    simp only [Option.some.injEq, Place.word.injEq] at hboth
    omega
  copies := by
    apply hblocks.imp_of_mem
    intro d e hd he hapart x hx hx'
    rw [mem_copyOut] at hd he
    have hboth := (hmet.copies d hd.1 hd.2 x hx).symm.trans (hmet.copies e he.1 he.2 x hx')
    simp only [Option.some.injEq, Place.copy.injEq] at hboth
    obtain ⟨hle, hlt⟩ := hx
    obtain ⟨hle', hlt'⟩ := hx'
    rw [BlocksApart] at hapart
    omega
  across := by
    intro d hd e he hval hcopy x hx hx'
    obtain ⟨j, hj⟩ := List.mem_iff_getElem?.mp (mem_valOut.mpr ⟨hd, hval⟩)
    have hboth := (hmet.values j d hj x hx).symm.trans (hmet.copies e he hcopy x hx')
    cases hboth
  inputs := by
    intro d hd e he hout hinput x hx hx'
    have hnone := hmet.inputs e he hinput x hx'
    cases hout with
    | inl hval =>
      obtain ⟨j, hj⟩ := List.mem_iff_getElem?.mp (mem_valOut.mpr ⟨hd, hval⟩)
      rw [hmet.values j d hj x hx] at hnone
      cases hnone
    | inr hcopy =>
      rw [hmet.copies d hd hcopy x hx] at hnone
      cases hnone

/-- A list is contained when each of its elements is in what is behind it. -/
theorem contained_of_forall (h : ∀ pre d post, vs = pre ++ d :: post → ∀ k < 4, d.size.toNat ≤ k →
    ∃ e ∈ post, e.Owns (d.ptr + k)) : Contained vs := by
  induction vs with
  | nil => trivial
  | cons d vs ih =>
    refine ⟨h [] d vs rfl, ih ?_⟩
    intro pre e post heq
    exact h (d :: pre) e post (by rw [heq]; rfl)

/-- Where the places are met, the last word that covers a byte is that of an owner. -/
theorem Met.contained (hmet : Met ds (Write.written (returnWrites ds))) :
    Contained (ds.filter (·.IsValOut)) := by
  apply contained_of_forall
  intro pre d post hvs k hk hsize
  by_contra hnone
  have hcovers : ∃ e ∈ d :: post, e.Reaches (d.ptr + k) := ⟨d, by simp, by omega, by omega⟩
  obtain ⟨mid, f, last, hsplit, hf, hlast⟩ := exists_last hcovers
  have hvs' : ds.filter (·.IsValOut) = (pre ++ mid) ++ f :: last := by
    rw [hvs, hsplit, List.append_assoc]
  have hwritten := written_word hvs' hf hlast
  have hnot : ¬ f.Owns (d.ptr + k) := by
    intro hown
    have hmem : f ∈ d :: post := by rw [hsplit]; simp
    cases hmem with
    | head => exact absurd hown.2 (by omega)
    | tail _ hmem => exact hnone ⟨f, hmem, hown⟩
  by_cases howner : ∃ e ∈ ds, (e.IsValOut ∨ e.IsCopyOut) ∧ e.Owns (d.ptr + k)
  · obtain ⟨e, he, hval | hcopy, hown⟩ := howner
    · obtain ⟨j, hj⟩ := List.mem_iff_getElem?.mp (mem_valOut.mpr ⟨he, hval⟩)
      rw [hmet.values j e hj _ hown] at hwritten
      simp only [Option.some.injEq, Place.word.injEq] at hwritten
      rw [hwritten.1, hvs', List.getElem?_append_right le_rfl, Nat.sub_self] at hj
      cases hj
      exact hnot hown
    · rw [hmet.copies e he hcopy _ hown] at hwritten
      cases hwritten
  · rw [hmet.rest _ fun e he hout hown => howner ⟨e, he, hout, hown⟩] at hwritten
    cases hwritten

theorem met_iff (hblocks : (ds.filter (·.IsCopyOut)).Pairwise BlocksApart) :
    Met ds (Write.written (returnWrites ds)) ↔
      Separate ds ∧ Contained (ds.filter (·.IsValOut)) :=
  ⟨fun hmet => ⟨hmet.separate hblocks, hmet.contained⟩, fun h => h.1.met h.2⟩

end Writes

section Results

variable {d : DataDesc} {ds : List DataDesc} {x : Nat}

private theorem ofNat_val (k : Fin 4) : Fin.ofNat 4 (k : Nat) = k := by
  rw [Fin.ofNat_eq_cast, Fin.cast_val_eq_self]

/-- The results are in their elements after every answer if and only if the places are met. -/
theorem returned_iff {s : OffloadState} {sent : Nat → Byte} {s' : Answer → OffloadState}
    (mem : Nat → Option Place)
    (hhost : ∀ answer x, (s' answer).host x = ((mem x).map (Place.read answer)).getD (s.host x))
    (hsent : ∀ d ∈ ds, d.passType = .refCopy → d.type ≠ .output →
      ∀ k < d.size.toNat, sent (d.ptrL3V + k) = s.host (d.ptr + k))
    (hlive : ∀ answer, (s' answer).mem.live = s.mem.live) :
    (∀ answer, Returned s (s' answer) ⟨ds, sent, answer⟩) ↔ Met ds mem := by
  constructor
  · intro h
    refine ⟨?_, ?_, ?_, ?_⟩
    · intro j d hj x hx
      obtain ⟨hle, hlt⟩ := hx
      have hsize := (mem_valOut.mp (List.mem_of_getElem? hj)).2.size_le
      apply Place.eq_of_read (b := s.host x)
      intro answer
      have hval := (h answer).values j d hj (Fin.ofNat 4 (x - d.ptr))
      rw [Fin.val_ofNat, Nat.mod_eq_of_lt (by omega), Nat.add_sub_cancel' hle, hhost] at hval
      exact hval (by omega)
    · intro d hd hcopy x hx
      obtain ⟨hle, hlt⟩ := hx
      apply Place.eq_of_read (b := s.host x)
      intro answer
      have hval := (h answer).copies d hd hcopy (x - d.ptr) (by omega)
      rwa [Nat.add_sub_cancel' hle, hhost] at hval
    · intro d hd hinput x hx
      apply Place.eq_of_read (b := s.host x)
      intro answer
      rw [← hhost]
      exact (h answer).inputs d hd hinput x hx
    · intro x hx
      apply Place.eq_of_read (b := s.host x)
      intro answer
      rw [← hhost]
      exact (h answer).rest x hx
  · intro hmet answer
    refine ⟨hsent, ?_, ?_, ?_, ?_, hlive answer⟩
    · intro j d hj k hk
      rw [hhost, hmet.values j d hj _ ⟨by omega, by omega⟩, Nat.add_sub_cancel_left, ofNat_val]
      rfl
    · intro d hd hcopy k hk
      rw [hhost, hmet.copies d hd hcopy _ ⟨by omega, by omega⟩, Nat.add_sub_cancel_left]
      rfl
    · intro d hd hinput x hx
      rw [hhost, hmet.inputs d hd hinput x hx]
      rfl
    · intro x hx
      rw [hhost, hmet.rest x hx]
      rfl

end Results

section Runs

variable {env : OffloadEnv} {d : DataDesc} {ds vs : List DataDesc} {x j : Nat}

/-- The blocks of the copies -/
def blocks (ds : List DataDesc) : List Nat :=
  (ds.filter fun d => d.passType = .refCopy).map DataDesc.ptrL3V

@[simp] theorem blocks_nil : blocks [] = [] := rfl

theorem blocks_cons_of_copy (h : d.passType = .refCopy) :
    blocks (d :: ds) = d.ptrL3V :: blocks ds := by simp [blocks, h]

theorem blocks_cons_of_not (h : d.passType ≠ .refCopy) : blocks (d :: ds) = blocks ds := by
  simp [blocks, h]

/-- The words of the buffer are stored one after the other. -/
theorem storeValues_eq {buffer : Nat → BitVec 32} {host : Nat → Byte} (answer : Answer)
    (hbuf : ∀ i, j ≤ i → i < j + ds.countP (·.IsValOut) → buffer i = answer.stream i) :
    storeValues buffer host j ds =
      (Write.applyAll host
        ((wordWrites (ds.filter (·.IsValOut)) j).map (Write.map (Place.read answer))),
          j + ds.countP (·.IsValOut)) := by
  induction ds generalizing j host with
  | nil => rfl
  | cons d ds ih =>
    by_cases hval : d.IsValOut
    · rw [List.countP_cons_of_pos (by simpa using hval)] at hbuf ⊢
      rw [storeValues, if_pos hval, List.filter_cons_of_pos (by simpa using hval)]
      rw [ih fun i hi hlt => hbuf i (by omega) (by omega), hbuf j le_rfl (by omega)]
      rw [Nat.add_assoc, Nat.add_comm 1]
      rfl
    · rw [List.countP_cons_of_neg (by simpa using hval)] at hbuf ⊢
      rw [storeValues, if_neg hval, List.filter_cons_of_neg (by simpa using hval), ih hbuf]

/-- Results are copied to their elements and all blocks freed, if these are live and in the window. -/
theorem l3CopyRawIn_eq {s : OffloadState} (answer : Answer) (hl3 : s.l3 = answer.l3)
    (hnodup : (blocks ds).Nodup) (hlive : ∀ b ∈ blocks ds, b ∈ s.mem.live)
    (hwindow : ∀ d ∈ ds, d.passType = .refCopy → env.InWindow d.ptrL3V d.size.toNat) :
    ∃ heap, l3CopyRawIn env s ds = .ok ()
      ⟨Write.applyAll s.host ((copyWrites ds).map (Write.map (Place.read answer))), s.l3,
        heap, s.mem.live.filter (· ∉ blocks ds)⟩ := by
  induction ds generalizing s with
  | nil => exact ⟨s.mem.heap, by simp [l3CopyRawIn, copyWrites]⟩
  | cons d ds ih =>
    have hwindow' : ∀ e ∈ ds, e.passType = .refCopy → env.InWindow e.ptrL3V e.size.toNat :=
      fun e he => hwindow e (by simp [he])
    by_cases hcopy : d.passType = .refCopy
    · rw [blocks_cons_of_copy hcopy] at hnodup hlive ⊢
      obtain ⟨hfresh, hnodup⟩ := List.nodup_cons.mp hnodup
      have hin := hwindow d (by simp) hcopy
      have hlive' : ∀ b ∈ blocks ds, b ∈ s.mem.live.filter (· ≠ d.ptrL3V) := by
        intro b hb
        simp only [List.mem_filter, decide_eq_true_eq]
        exact ⟨hlive b (by simp [hb]), fun heq => hfresh (heq ▸ hb)⟩
      rw [l3CopyRawIn, if_pos hcopy, if_pos (Or.inr hin), if_pos (hlive _ (by simp))]
      obtain ⟨heap, hrest⟩ := ih (s := ⟨if d.type = .input then s.host
        else memcpy s.host s.l3 d.ptr d.ptrL3V d.size.toNat, s.l3,
        ⟨pulpL3Free env.plat s.mem.heap d.ptrL3V, s.mem.live.filter (· ≠ d.ptrL3V)⟩⟩) hl3 hnodup
        hlive' hwindow'
      have hfilter : (s.mem.live.filter (· ≠ d.ptrL3V)).filter (· ∉ blocks ds) =
          s.mem.live.filter (· ∉ d.ptrL3V :: blocks ds) := by
        rw [List.filter_filter]
        congr 1
        funext b
        simp [Bool.and_comm]
      refine ⟨heap, hrest.trans ?_⟩
      dsimp only
      rw [hfilter]
      by_cases hinput : d.type = .input
      · have hnot : ¬ d.IsCopyOut := fun h => h.2 hinput
        rw [if_pos hinput, copyWrites, copyWrites, List.filter_cons_of_neg (by simpa using hnot)]
      · have hout : d.IsCopyOut := ⟨hcopy, hinput⟩
        rw [if_neg hinput, copyWrites, copyWrites, List.filter_cons_of_pos (by simpa using hout),
          hl3]
        rfl
    · rw [blocks_cons_of_not hcopy] at hnodup hlive ⊢
      have hnot : ¬ d.IsCopyOut := fun h => hcopy h.1
      rw [l3CopyRawIn, if_neg hcopy, copyWrites, List.filter_cons_of_neg (by simpa using hnot)]
      exact ih hl3 hnodup hlive hwindow'

/-- Live blocks keep their sizes when another one is allocated. -/
theorem blockSize_l3Malloc {mem : L3State} {b : Nat} (hinv : L3Inv env.plat env.window mem)
    (hb : b ∈ mem.live) (sizeB : BitVec 32) :
    blockSize env.plat (l3Malloc env mem sizeB).2.heap b = blockSize env.plat mem.heap b := by
  obtain ⟨hheap, -, hkeep⟩ := hinv.heap.o1heapAllocate (alignSize sizeB).toNat
  obtain ⟨f, hf, hused, rfl⟩ := hinv.blocks b hb
  rw [l3Malloc, pulpL3Malloc, blockSize, blockSize, Nat.add_sub_cancel,
    hheap.sizeOf_eq (hkeep f hf hused), hinv.heap.sizeOf_eq hf]

theorem l3Malloc_spec {mem : L3State} {sizeB : BitVec 32} {b : Nat × Nat}
    (hinv : L3Inv env.plat env.window mem) (hres : (l3Malloc env mem sizeB).1 = some b)
    (hwindow : env.InWindow b.1 sizeB.toNat) :
    BlockOk env.plat env.window mem (l3Malloc env mem sizeB).2.heap sizeB b.1 b.2 ∧
      (l3Malloc env mem sizeB).2.live = b.1 :: mem.live := by
  simp only [l3Malloc] at hres ⊢
  have hlive : (((pulpL3Malloc env.plat env.window mem.heap sizeB).1.map Prod.fst).toList ++
      mem.live) = b.1 :: mem.live := by rw [hres]; rfl
  simp only [pulpL3Malloc, Option.map_eq_some_iff] at hres
  obtain ⟨vAddr, hres, rfl⟩ := hres
  exact ⟨hinv.block hres hwindow.2, hlive⟩

/-- A descriptor without the addresses of the copy -/
def DataDesc.bare (d : DataDesc) : DataDesc := { d with ptrL3V := 0, ptrL3P := 0 }

/-- The descriptor of an element that is copied to a block -/
def DataDesc.copyTo (d : DataDesc) (b : Nat × Nat) : DataDesc :=
  { d with ptrL3V := b.1, ptrL3P := b.2 }

@[simp] theorem DataDesc.copyTo_bare (b : Nat × Nat) : (d.copyTo b).bare = d.bare := rfl

@[simp] theorem DataDesc.copyTo_passType (b : Nat × Nat) : (d.copyTo b).passType = d.passType := rfl

@[simp] theorem DataDesc.copyTo_ptrL3V (b : Nat × Nat) : (d.copyTo b).ptrL3V = b.1 := rfl

@[simp] theorem DataDesc.copyTo_size (b : Nat × Nat) : (d.copyTo b).size = d.size := rfl

/-- What copying the elements of a task to the L3 memory does -/
structure Copied (env : OffloadEnv) (s : OffloadState) (ds ds' : List DataDesc)
    (s' : OffloadState) : Prop where
  host : s'.host = s.host
  same : ds'.map DataDesc.bare = ds.map DataDesc.bare
  values : ds'.filter (·.IsValOut) = ds.filter (·.IsValOut)
  live : s'.mem.live = (blocks ds').reverse ++ s.mem.live
  fresh : ∀ b ∈ s.mem.live, b ∉ blocks ds'
  nodup : (blocks ds').Nodup
  window : ∀ d ∈ ds', d.passType = .refCopy → env.InWindow d.ptrL3V d.size.toNat
  old : ∀ b ∈ s.mem.live, ∀ e ∈ ds', e.passType = .refCopy →
    b + blockSize env.plat s.mem.heap b ≤ e.ptrL3V ∨ e.ptrL3V + e.size.toNat ≤ b
  apart : (ds'.filter fun d => d.passType = .refCopy).Pairwise BlocksApart
  sent : ∀ d ∈ ds', d.passType = .refCopy → d.type ≠ .output →
    ∀ k < d.size.toNat, s'.l3 (d.ptrL3V + k) = s.host (d.ptr + k)
  frame : ∀ a, (∀ d ∈ ds', d.passType = .refCopy → a < d.ptrL3V ∨ d.ptrL3V + d.size.toNat ≤ a) →
    s'.l3 a = s.l3 a

/-- An element that is not copied -/
theorem Copied.skip {s s' : OffloadState} {ds' : List DataDesc} (hd : d.passType ≠ .refCopy)
    (h : Copied env s ds ds' s') : Copied env s (d :: ds) (d :: ds') s' where
  host := h.host
  same := by rw [List.map_cons, List.map_cons, h.same]
  values := by rw [List.filter_cons, List.filter_cons, h.values]
  live := by rw [blocks_cons_of_not hd, h.live]
  fresh := by rw [blocks_cons_of_not hd]; exact h.fresh
  nodup := by rw [blocks_cons_of_not hd]; exact h.nodup
  window := List.forall_mem_cons.mpr ⟨fun hcopy => absurd hcopy hd, h.window⟩
  old := fun b hb => List.forall_mem_cons.mpr ⟨fun hcopy => absurd hcopy hd, h.old b hb⟩
  apart := by rw [List.filter_cons_of_neg (by simpa using hd)]; exact h.apart
  sent := List.forall_mem_cons.mpr ⟨fun hcopy => absurd hcopy hd, h.sent⟩
  frame := fun a ha => h.frame a (List.forall_mem_cons.mp ha).2

/-- An element that is copied -/
theorem Copied.copy {s t s' : OffloadState} {ds' : List DataDesc} {b : Nat × Nat}
    (h : Copied env t ds ds' s') (hcopy : d.passType = .refCopy)
    (hinv : L3Inv env.plat env.window s.mem) (hres : (l3Malloc env s.mem d.size).1 = some b)
    (hwindow : env.InWindow b.1 d.size.toNat)
    (hmem : t.mem = (l3Malloc env s.mem d.size).2) (hhost : t.host = s.host)
    (hsent : d.type ≠ .output → ∀ k < d.size.toNat, t.l3 (b.1 + k) = s.host (d.ptr + k))
    (hframe : ∀ a, a < b.1 ∨ b.1 + d.size.toNat ≤ a → t.l3 a = s.l3 a) :
    Copied env s (d :: ds) (d.copyTo b :: ds') s' := by
  obtain ⟨hblock, hlive⟩ := l3Malloc_spec hinv hres hwindow
  have hsize := DataDesc.lt_size hcopy
  have hbsize := hblock.size
  have hcopy' : (d.copyTo b).passType = .refCopy := hcopy
  have hnot : ¬ d.IsValOut := fun hval => by rw [hval.1] at hcopy; cases hcopy
  have hnot' : ¬ (d.copyTo b).IsValOut := hnot
  rw [← hmem] at hlive hbsize
  have hhead : ∀ e ∈ ds', e.passType = .refCopy →
      b.1 + d.size.toNat ≤ e.ptrL3V ∨ e.ptrL3V + e.size.toNat ≤ b.1 := by
    intro e he hecopy
    have hold := h.old b.1 (by simp [hlive]) e he hecopy
    omega
  have hnew : ∀ c ∈ s.mem.live,
      c + blockSize env.plat s.mem.heap c ≤ b.1 ∨ b.1 + d.size.toNat ≤ c := by
    intro c hc
    have hdisj := hblock.disjoint c hc
    rw [blockSize_l3Malloc hinv hc, ← hmem] at hdisj
    omega
  refine ⟨h.host.trans hhost, ?_, ?_, ?_, ?_, ?_, ?_, ?_, ?_, ?_, ?_⟩
  · rw [List.map_cons, List.map_cons, h.same, DataDesc.copyTo_bare]
  · rw [List.filter_cons_of_neg (by simpa using hnot'), List.filter_cons_of_neg (by simpa using hnot),
      h.values]
  · rw [blocks_cons_of_copy hcopy', List.reverse_cons, List.append_assoc, h.live, hlive]
    rfl
  · intro c hc
    rw [blocks_cons_of_copy hcopy', List.mem_cons, not_or]
    refine ⟨?_, h.fresh c (by simp [hlive, hc])⟩
    rintro rfl
    have hdisj := hblock.disjoint _ hc
    rw [DataDesc.copyTo_ptrL3V, ← hmem] at hdisj
    omega
  · rw [blocks_cons_of_copy hcopy', List.nodup_cons]
    exact ⟨h.fresh b.1 (by simp [hlive]), h.nodup⟩
  · exact List.forall_mem_cons.mpr ⟨fun _ => hwindow, h.window⟩
  · intro c hc
    refine List.forall_mem_cons.mpr ⟨fun _ => ?_, ?_⟩
    · exact hnew c hc
    · intro e he hecopy
      have hold := h.old c (by simp [hlive, hc]) e he hecopy
      rwa [hmem, blockSize_l3Malloc hinv hc] at hold
  · have hhead' : decide ((d.copyTo b).passType = .refCopy) = true := decide_eq_true hcopy'
    rw [List.filter_cons, if_pos hhead', List.pairwise_cons]
    refine ⟨?_, h.apart⟩
    intro e he
    simp only [List.mem_filter, decide_eq_true_eq] at he
    exact hhead e he.1 he.2
  · rw [← hhost]
    refine List.forall_mem_cons.mpr ⟨fun _ htype k hk => ?_, h.sent⟩
    rw [h.frame, hhost]
    · exact hsent htype k hk
    · intro e he hecopy
      have hdisj := hhead e he hecopy
      rw [DataDesc.copyTo_size] at hk
      rw [DataDesc.copyTo_ptrL3V]
      omega
  · intro a ha
    rw [List.forall_mem_cons] at ha
    rw [h.frame a ha.2, hframe a (ha.1 hcopy')]

/-- Where all requests for L3 memory are served the elements are copied. -/
theorem l3CopyRawOut_eq {s : OffloadState} (hinv : L3Inv env.plat env.window s.mem)
    (halloc : AllocOk env s.mem ds) :
    ∃ ds' s', l3CopyRawOut env s ds = .ok ds' s' ∧ Copied env s ds ds' s' := by
  induction ds generalizing s with
  | nil =>
    refine ⟨[], s, rfl, ?_⟩
    constructor <;> simp [blocks]
  | cons d ds ih =>
    by_cases hcopy : d.passType = .refCopy
    · rw [AllocOk, if_pos hcopy] at halloc
      obtain ⟨⟨b, hb, hwindow⟩, halloc⟩ := halloc
      have hres := Option.mem_def.mp hb
      have hinv' : L3Inv env.plat env.window (l3Malloc env s.mem d.size).2 := hinv.malloc d.size
      have hd' : d.copyTo b = { d with
          ptrL3V := ((l3Malloc env s.mem d.size).1.map Prod.fst).getD 0
          ptrL3P := ((l3Malloc env s.mem d.size).1.map Prod.snd).getD d.ptrL3P } := by rw [hres]; rfl
      by_cases htype : d.type = .output
      · obtain ⟨ds', s', hrun, hcopied⟩ := ih (s := { s with mem := _ }) hinv' halloc
        refine ⟨d.copyTo b :: ds', s', ?_, ?_⟩
        · rw [l3CopyRawOut, if_pos hcopy, hd']
          dsimp only
          rw [if_pos htype, hrun]
          rfl
        · exact hcopied.copy hcopy hinv hres hwindow rfl rfl (fun hout => absurd htype hout)
            fun _ _ => rfl
      · let t : OffloadState := ⟨s.host, memcpy s.l3 s.host b.1 d.ptr d.size.toNat,
          (l3Malloc env s.mem d.size).2⟩
        obtain ⟨ds', s', hrun, hcopied⟩ := ih (s := t) hinv' halloc
        refine ⟨d.copyTo b :: ds', s', ?_, ?_⟩
        · have hvalid : b.1 ≠ 0 ∧ env.InWindow b.1 d.size.toNat := by
            refine ⟨?_, hwindow⟩
            obtain ⟨f, -, -, heq⟩ := hinv'.blocks b.1 (by simp [(l3Malloc_spec hinv hres hwindow).2])
            have hpos : 0 < (ptrWidth env.plat).alignment := by
              cases ptrWidth env.plat <;> decide
            omega
          rw [l3CopyRawOut, if_pos hcopy]
          dsimp only
          rw [if_neg htype]
          simp only [hres, Option.map_some, Option.getD_some]
          rw [if_pos hvalid, hrun]
          rfl
        · apply hcopied.copy hcopy hinv hres hwindow rfl rfl
          · intro _ k hk
            change memcpy s.l3 s.host b.1 d.ptr d.size.toNat (b.1 + k) = _
            exact memcpy_inside hk
          · intro a ha
            exact memcpy_outside ha
    · rw [AllocOk, if_neg hcopy] at halloc
      obtain ⟨ds', s', hrun, hcopied⟩ := ih hinv halloc
      exact ⟨d :: ds', s', by rw [l3CopyRawOut, if_neg hcopy, hrun]; rfl, hcopied.skip hcopy⟩

theorem l3CopyRawOut_noError {s : OffloadState} : (l3CopyRawOut env s ds).NoError := by
  induction ds generalizing s with
  | nil => exact Outcome.noError_ok _
  | cons d ds ih =>
    rw [l3CopyRawOut]
    dsimp only
    split_ifs
    · exact ih.bind fun _ _ => Outcome.noError_ok _
    · exact ih.bind fun _ _ => Outcome.noError_ok _
    · exact Outcome.noError_fault
    · exact ih.bind fun _ _ => Outcome.noError_ok _

theorem l3CopyRawIn_noError {s : OffloadState} : (l3CopyRawIn env s ds).NoError := by
  induction ds generalizing s with
  | nil => exact Outcome.noError_ok _
  | cons d ds ih =>
    rw [l3CopyRawIn]
    dsimp only
    split_ifs <;> first | exact ih | exact Outcome.noError_fault

/-- All words that are counted are stored. -/
theorem getDesc_noError {stream : Nat → BitVec 32} {s : OffloadState} :
    (getDesc env stream s ds).NoError := by
  rw [getDesc]
  dsimp only
  split
  · exact Outcome.noError_fault
  · rw [storeValues_eq ⟨_, s.l3⟩ fun _ _ _ => rfl]
    dsimp only
    rw [if_neg (by omega)]
    exact Outcome.noError_ok _

variable {s s' : OffloadState} {task : TaskDesc} {accel : Accelerator}

theorem rabSetup_fault (h : ¬ (0 < task.nRefSvmStripe → task.nStriped ≤ task.nRefSvmStripe)) :
    rabSetup env s task = .fault := by
  rw [rabSetup, if_pos (by omega), if_pos (by omega)]

theorem rabSetup_error (hentries : 0 < task.nRefSvmStripe → task.nStriped ≤ task.nRefSvmStripe)
    (h : ¬ StripedOk env task) : rabSetup env s task = .error env.rabReqStriped s := by
  rw [StripedOk, Classical.not_imp] at h
  have hle := hentries h.1
  rw [rabSetup, if_pos h.1, if_neg (by omega), if_pos h.2]

theorem rabSetup_ok (hentries : 0 < task.nRefSvmStripe → task.nStriped ≤ task.nRefSvmStripe)
    (h : StripedOk env task) : rabSetup env s task = .ok () s := by
  rw [rabSetup]
  split
  · next hpos =>
    have hle := hentries hpos
    rw [if_neg (by omega), if_neg (not_not.mpr (h hpos))]
  · rfl

/-- With the striped mappings a round trip cannot return an error. -/
theorem roundTrip_noError (hentries : 0 < task.nRefSvmStripe → task.nStriped ≤ task.nRefSvmStripe)
    (h : StripedOk env task) : (roundTrip env accel s task).NoError := by
  rw [roundTrip, offloadOut, rabSetup_ok hentries h, Outcome.ok_bind]
  refine (l3CopyRawOut_noError.bind fun _ _ => Outcome.noError_ok _).bind fun _ _ => ?_
  refine Outcome.NoError.bind ?_ fun _ _ => Outcome.noError_ok _
  exact l3CopyRawIn_noError.bind fun _ _ => getDesc_noError

theorem roundTrip_answer {f : Finished} (h : roundTrip env accel s task = .ok f s') :
    ∃ words sent, f.answer = accel words sent := by
  rw [roundTrip, Outcome.bind_eq_ok] at h
  obtain ⟨out, t, -, hin⟩ := h
  rw [Outcome.bind_eq_ok] at hin
  obtain ⟨_, _, -, hf⟩ := hin
  cases hf
  exact ⟨_, _, rfl⟩

/-- Taking a task back, where the mailbox returns what the accelerator sends. -/
theorem offloadIn_eq {t : OffloadState} {ds' : List DataDesc} {answer : Answer}
    (hcopied : Copied env s ds ds' t)
    (hreads : Reads env answer.stream (ds.countP (·.IsValOut))) :
    ∃ s', offloadIn env answer.stream { t with l3 := answer.l3 } ds' = .ok () s' ∧
      s'.host = Write.applyAll s.host ((returnWrites ds').map (Write.map (Place.read answer))) ∧
      s'.mem.live = s.mem.live := by
  obtain ⟨-, hoverrun, hbuf⟩ := hreads
  have hcount : ds'.countP (·.IsValOut) = ds.countP (·.IsValOut) := by
    rw [List.countP_eq_length_filter, hcopied.values, ← List.countP_eq_length_filter]
  have hlive : ∀ b ∈ blocks ds', b ∈ t.mem.live := by
    intro b hb
    simp [hcopied.live, hb]
  obtain ⟨heap, hin⟩ := l3CopyRawIn_eq (s := { t with l3 := answer.l3 }) answer rfl hcopied.nodup
    hlive hcopied.window
  rw [offloadIn, hin, Outcome.ok_bind, getDesc]
  dsimp only
  rw [hcount, hoverrun, if_neg (by decide), storeValues_eq answer]
  · dsimp only
    rw [if_neg (by omega)]
    refine ⟨_, rfl, ?_, ?_⟩
    · rw [returnWrites, List.map_append, Write.applyAll_append, hcopied.host]
    · change t.mem.live.filter (· ∉ blocks ds') = s.mem.live
      rw [hcopied.live, List.filter_append, List.filter_eq_nil_iff.mpr, List.nil_append,
        List.filter_eq_self]
      · intro b hb
        exact decide_eq_true (hcopied.fresh b hb)
      · intro b hb
        simpa using hb
  · intro i _ hi
    exact hbuf i (by omega)

/-- A round trip no step of which fails returns the bytes at the places of the writes. -/
theorem roundTrip_eq (hinv : L3Inv env.plat env.window s.mem)
    (hentries : 0 < task.nRefSvmStripe → task.nStriped ≤ task.nRefSvmStripe)
    (hstriped : StripedOk env task) (halloc : AllocOk env s.mem task.dataDesc)
    (hreads : ∀ stream, Reads env stream (task.dataDesc.countP (·.IsValOut))) :
    ∃ ds t words, ∃ s' : Answer → OffloadState, Copied env s task.dataDesc ds t ∧
      (∀ accel, roundTrip env accel s task =
        .ok ⟨ds, t.l3, accel words t.l3⟩ (s' (accel words t.l3))) ∧
      ∀ answer, (s' answer).host =
          Write.applyAll s.host ((returnWrites ds).map (Write.map (Place.read answer))) ∧
        (s' answer).mem.live = s.mem.live := by
  obtain ⟨ds, t, hout, hcopied⟩ := l3CopyRawOut_eq hinv halloc
  choose s' hin hhost hlive using fun answer : Answer =>
    offloadIn_eq hcopied (hreads answer.stream)
  refine ⟨ds, t, passDesc t.host ds, s', hcopied, ?_, fun answer => ⟨hhost answer, hlive answer⟩⟩
  intro accel
  rw [roundTrip, offloadOut, rabSetup_ok hentries hstriped, Outcome.ok_bind, hout, Outcome.ok_bind,
    Outcome.ok_bind]
  dsimp only
  rw [hin]
  rfl

theorem separate_bare : Separate (ds.map DataDesc.bare) ↔ Separate ds := by
  have hvalues : (ds.map DataDesc.bare).filter (·.IsValOut) =
      (ds.filter (·.IsValOut)).map DataDesc.bare := List.filter_map
  have hcopies : (ds.map DataDesc.bare).filter (·.IsCopyOut) =
      (ds.filter (·.IsCopyOut)).map DataDesc.bare := List.filter_map
  constructor
  · intro h
    obtain ⟨hv, hc, hacross, hinputs⟩ := h
    rw [hvalues, List.pairwise_map] at hv
    rw [hcopies, List.pairwise_map] at hc
    simp only [List.forall_mem_map] at hacross hinputs
    exact ⟨hv, hc, hacross, hinputs⟩
  · intro h
    refine ⟨?_, ?_, ?_, ?_⟩
    · rw [hvalues, List.pairwise_map]
      exact h.values
    · rw [hcopies, List.pairwise_map]
      exact h.copies
    · simp only [List.forall_mem_map]
      exact h.across
    · simp only [List.forall_mem_map]
      exact h.inputs

/-- The results are where they belong after every answer if and only if the elements are separate and
the words contained. -/
theorem returned_copied_iff {t : OffloadState} {ds' : List DataDesc} {s' : Answer → OffloadState}
    (hcopied : Copied env s ds ds' t)
    (hs' : ∀ answer, (s' answer).host =
        Write.applyAll s.host ((returnWrites ds').map (Write.map (Place.read answer))) ∧
      (s' answer).mem.live = s.mem.live) :
    (∀ answer, Returned s (s' answer) ⟨ds', t.l3, answer⟩) ↔
      Separate ds ∧ Contained (ds.filter (·.IsValOut)) := by
  have hblocks : (ds'.filter (·.IsCopyOut)).Pairwise BlocksApart := by
    have hsub : ds'.filter (·.IsCopyOut) =
        (ds'.filter fun d => d.passType = .refCopy).filter (·.type ≠ .input) := by
      rw [List.filter_filter]
      congr 1
      funext d
      by_cases hpass : d.passType = .refCopy <;> by_cases htype : d.type = .input <;>
        simp [DataDesc.IsCopyOut, hpass, htype]
    rw [hsub]
    exact hcopied.apart.filter _
  rw [returned_iff (Write.written (returnWrites ds')) _ hcopied.sent fun a => (hs' a).2]
  · rw [met_iff hblocks, hcopied.values, ← separate_bare, hcopied.same, separate_bare]
  · intro answer x
    rw [(hs' answer).1, Write.applyAll_map]

/-- Where the data of a task make the round trip or an error is returned, the condition is met. -/
theorem RoundTripOk.cond (hinv : L3Inv env.plat env.window s.mem) (hok : RoundTripOk env s task) :
    RoundTripCond env s task := by
  have hentries : 0 < task.nRefSvmStripe → task.nStriped ≤ task.nRefSvmStripe := by
    by_contra hnot
    have hfault := hok fun _ _ => Place.zero
    rw [roundTrip, offloadOut, rabSetup_fault hnot] at hfault
    exact hfault
  refine ⟨hentries, fun hstriped => ?_⟩
  have hreturns : ∀ answer : Answer, ∃ f s',
      roundTrip env (fun _ _ => answer) s task = .ok f s' ∧
        NoFailure env s task answer.stream ∧ Returned s s' f := by
    intro answer
    have hres := hok fun _ _ => answer
    cases hround : roundTrip env (fun _ _ => answer) s task with
    | ok f s' =>
      obtain ⟨_, _, hanswer⟩ := roundTrip_answer hround
      rw [hround] at hres
      rw [← hanswer]
      exact ⟨f, s', rfl, hres⟩
    | error code s' => exact absurd hround (roundTrip_noError hentries hstriped code s')
    | fault =>
      rw [hround] at hres
      exact hres.elim
  have hnofail : ∀ stream, NoFailure env s task stream := by
    intro stream
    obtain ⟨_, _, -, hnofail, -⟩ := hreturns ⟨stream, fun _ => 0⟩
    exact hnofail
  have halloc := (hnofail fun _ => 0).alloc
  obtain ⟨ds, t, words, s', hcopied, hround, hs'⟩ :=
    roundTrip_eq hinv hentries hstriped halloc fun stream => (hnofail stream).mbox
  refine ⟨(hnofail fun _ => 0).static, halloc, fun stream => (hnofail stream).mbox, ?_⟩
  rw [← returned_copied_iff hcopied hs']
  intro answer
  obtain ⟨f, u, hf, -, hret⟩ := hreturns answer
  rw [hround] at hf
  cases hf
  exact hret

theorem RoundTripCond.ok (hinv : L3Inv env.plat env.window s.mem)
    (hcond : RoundTripCond env s task) : RoundTripOk env s task := by
  intro accel
  by_cases hstriped : StripedOk env task
  · obtain ⟨hstatic, halloc, hreads, hdata⟩ := hcond.run hstriped
    obtain ⟨ds, t, words, s', hcopied, hround, hs'⟩ :=
      roundTrip_eq hinv hcond.entries hstriped halloc hreads
    rw [hround]
    exact ⟨⟨hstatic, hstriped, halloc, hreads _⟩, (returned_copied_iff hcopied hs').mpr hdata _⟩
  · rw [roundTrip, offloadOut, rabSetup_error hcond.entries hstriped]
    refine ⟨?_, rfl, fun h => hstriped (h fun _ => 0).striped⟩
    rw [StripedOk, Classical.not_imp] at hstriped
    exact hstriped.2

end Runs

/-- The allocator keeps its invariant in every run. -/
theorem l3Inv_run {plat : Platform} {window : Nat} {heap : O1Heap} {ops : List L3Op}
    {es : List Empty} {mem : L3State} (hinit : l3HeapInit plat window = some heap)
    (hrun : (l3Machine plat window).run ⟨heap, []⟩ ops = some (mem, es)) :
    L3Inv plat window mem :=
  Machine.run_invariant (L3Inv plat window) (fun _ _ => True)
    (fun _ _ _ _ hinv _ hstep => hinv.step hstep) (l3Inv_init hinit)
    (Machine.along_of_forall fun _ _ _ => trivial) hrun

/-- What `pulp_mbox_read` of the library does, where the `i`-th call of `read` finds `avail i` words -/
def mboxReadResult (w : Nat) (avail : Nat → Nat) (stream : Nat → BitVec 32) (n : Nat) : MboxResult :=
  match pulpMboxRead w stream avail (n + 1) (fun _ => 0) n with
  | none => ⟨0, fun _ => 0, true⟩
  | some (ret, s) => ⟨ret, fun i => s.buffer i, s.writes.any fun a => a.1 < 0 ∨ n < a.1 + a.2⟩

private def window₁ : Nat := 0x10000000

private def heap₁ : O1Heap := (l3HeapInit .juno window₁).get (by decide +kernel)

/-- All requests for mappings are granted, and the words are in the mailbox when they are read. -/
private def env₁ : OffloadEnv := ⟨.juno, window₁, fun _ _ => 0, 0, mboxReadResult 64 fun _ => 32⟩

private def state₁ : OffloadState := ⟨fun _ => 0, fun _ => 0, ⟨heap₁, []⟩⟩

/-- Two values, two copies and two mappings -/
private def task₁ : TaskDesc := ⟨3, [
  ⟨0x1000, 0, 0, 4, .inout, .copy, 0, 0⟩,
  ⟨0x2000, 0, 0, 24, .inout, .copy, 0, 0⟩,
  ⟨0x1004, 0, 0, 4, .output, .copy, 0, 0⟩,
  ⟨0x3000, 0, 0, 100, .input, .copyTryx, 0, 0⟩,
  ⟨0x4000, 0, 0, 0x2000, .input, .svmStatic, 0, 0⟩,
  ⟨0x8000, 0, 0, 0x1000, .output, .svmMh, 0, 0⟩]⟩

private theorem reads₁ (stream : Nat → BitVec 32) : Reads env₁ stream 2 := by
  refine ⟨rfl, rfl, ?_⟩
  intro j hj
  obtain rfl | rfl : j = 0 ∨ j = 1 := by omega
  · rfl
  · rfl

private theorem cond₁ : RoundTripCond env₁ state₁ task₁ where
  entries := by decide
  run := fun _ => ⟨fun _ _ => rfl, by decide +kernel, reads₁,
    ⟨by decide, by decide, by decide, by decide⟩, by decide⟩

end Hero.Libpulp
