import Mathlib.Data.List.Nodup
import Hero.Toolchain.HostPointerLegalizer

/-!
# Memory intrinsics expanded into loops

What is in a function after the expansion of its memory intrinsics: the ones that stay on the device
and the other instructions are still there, and what is new are the parts of loops over bytes.
-/

namespace Hero.Toolchain

variable {R : Type}

/-- The pass expands the memory intrinsic. -/
def Op.Expanded (dl : DataLayout) : Op R → Prop
  | .mem .memcpy dst src _ | .mem .memmove dst src _ => ¬ (src = dl.deviceAS ∧ dst = dl.deviceAS)
  | .mem .memset dst _ _ => dst ≠ dl.deviceAS
  | _ => False

/-- What a loop for a memory intrinsic is made of: it moves bytes. -/
def Op.MovesBytes (k : MemIntrinsic) (dst src : AddrSpace) : Op R → Prop
  | .load ty space _ => k ≠ .memset ∧ ty = .int 8 ∧ space = src
  | .store ty space _ _ => ty = .int 8 ∧ space = dst
  | .compute _ _ => True
  | _ => False

/-- A loop in front of a memory intrinsic, which is still there. -/
structure IsLoop (k : MemIntrinsic) (dst src : AddrSpace) (f f' : Func R) : Prop where
  name : f'.name = f.name
  kept : ∀ j ∈ f.insts, j ∈ f'.insts
  added : ∀ j ∈ f'.insts, j ∈ f.insts ∨ j.op.MovesBytes k dst src

/-- The three expansions of LLVM give loops over bytes. -/
structure LowerMemIntrinsics.GivesLoops (lib : LowerMemIntrinsics R) : Prop where
  memcpy : ∀ f, ∀ i ∈ f.insts, ∀ dst src args, i.op = .mem .memcpy dst src args →
    IsLoop .memcpy dst src f (lib.expandMemCpyAsLoop f i)
  memmove : ∀ f, ∀ i ∈ f.insts, ∀ dst src args, i.op = .mem .memmove dst src args →
    IsLoop .memmove dst src f (lib.expandMemMoveAsLoop f i)
  memset : ∀ f, ∀ i ∈ f.insts, ∀ dst src args, i.op = .mem .memset dst src args →
    IsLoop .memset dst src f (lib.expandMemSetAsLoop f i)

/-- Every value is defined once. -/
def Func.DefinesOnce (f : Func R) : Prop := (f.insts.map Inst.id).Nodup

/-- The function has its memory intrinsics expanded that are not on the device alone, and is
otherwise as it was. -/
structure Func.ExpandedTo (dl : DataLayout) (f g : Func R) : Prop where
  name : g.name = f.name
  kept : ∀ j ∈ f.insts, ¬ j.op.Expanded dl → j ∈ g.insts
  origin : ∀ j ∈ g.insts, j ∈ f.insts ∧ ¬ j.op.Expanded dl ∨ ∃ i ∈ f.insts, i.op.Expanded dl ∧
    ∃ k dst src args, i.op = .mem k dst src args ∧ j.op.MovesBytes k dst src

/-- A function some uses of which have been looked at; the others are still there. -/
structure ExpandedSo (dl : DataLayout) (f : Func R) (left : List (Inst R)) (g : Func R) :
    Prop where
  name : g.name = f.name
  kept : ∀ j ∈ f.insts, (j.op.Expanded dl → j ∈ left) → j ∈ g.insts
  origin : ∀ j ∈ g.insts, j ∈ f.insts ∧ (j.op.Expanded dl → j ∈ left) ∨
    ∃ i ∈ f.insts, i.op.Expanded dl ∧ ∃ k dst src args, i.op = .mem k dst src args ∧
      j.op.MovesBytes k dst src

variable {dl : DataLayout} {f g : Func R} {i j : Inst R}

/-- Nothing is left to expand. -/
theorem Func.ExpandedTo.not_expanded (h : f.ExpandedTo dl g) (hj : j ∈ g.insts) :
    ¬ j.op.Expanded dl := by
  obtain ⟨-, hnot⟩ | ⟨i, -, -, k, dst, src, args, -, hmoves⟩ := h.origin j hj
  · exact hnot
  · intro hexp
    obtain ⟨r, op⟩ := j
    cases op with
    | mem => exact hmoves
    | _ => exact hexp

/-- What is left to be expanded behind a use that is not, or that just has been. -/
theorem ExpandedSo.left_of_cons {left : List (Inst R)} (h : j.op.Expanded dl → j ∈ i :: left)
    (hne : j.op.Expanded dl → j ≠ i) : j.op.Expanded dl → j ∈ left := by
  intro hj
  exact (List.mem_cons.mp (h hj)).resolve_left (hne hj)

variable [DecidableEq R] {lib : LowerMemIntrinsics R}

theorem mem_eraseFromParent : j ∈ (f.eraseFromParent i).insts ↔ j ∈ f.insts ∧ j.id ≠ i.id := by
  simp only [Func.insts, Func.eraseFromParent, List.flatMap_map, List.mem_flatMap, List.mem_filter,
    decide_eq_true_eq]
  constructor
  · intro h
    obtain ⟨b, hb, hj, hne⟩ := h
    exact ⟨⟨b, hb, hj⟩, hne⟩
  · intro h
    obtain ⟨⟨b, hb, hj⟩, hne⟩ := h
    exact ⟨b, hb, hj, hne⟩

/-- A use is left alone, or a loop takes its place. -/
theorem expandMemIntrinsicUse_cases (hlib : lib.GivesLoops) (hi : i ∈ g.insts) :
    ¬ i.op.Expanded dl ∧ expandMemIntrinsicUse lib dl g i = g ∨
      i.op.Expanded dl ∧ ∃ k dst src args g', i.op = .mem k dst src args ∧ IsLoop k dst src g g' ∧
        expandMemIntrinsicUse lib dl g i = g'.eraseFromParent i := by
  obtain ⟨r, op⟩ := i
  cases op with
  | mem k dst src args =>
    cases k with
    | memcpy =>
      by_cases hdevice : src = dl.deviceAS ∧ dst = dl.deviceAS
      · exact Or.inl ⟨fun hno => hno hdevice, if_pos hdevice⟩
      · exact Or.inr ⟨hdevice, .memcpy, dst, src, args, _, rfl,
          hlib.memcpy g _ hi dst src args rfl, if_neg hdevice⟩
    | memmove =>
      by_cases hdevice : src = dl.deviceAS ∧ dst = dl.deviceAS
      · exact Or.inl ⟨fun hno => hno hdevice, if_pos hdevice⟩
      · exact Or.inr ⟨hdevice, .memmove, dst, src, args, _, rfl,
          hlib.memmove g _ hi dst src args rfl, if_neg hdevice⟩
    | memset =>
      by_cases hdevice : dst = dl.deviceAS
      · exact Or.inl ⟨fun hno => hno hdevice, if_pos hdevice⟩
      · exact Or.inr ⟨hdevice, .memset, dst, src, args, _, rfl,
          hlib.memset g _ hi dst src args rfl, if_neg hdevice⟩
    | other name => exact Or.inl ⟨fun hno => hno, rfl⟩
  | _ => exact Or.inl ⟨fun hno => hno, rfl⟩

theorem ExpandedSo.step (hlib : lib.GivesLoops) {left : List (Inst R)}
    (hleft : ∀ j ∈ i :: left, j ∈ f.insts) (hi : i ∉ left)
    (honce : ∀ j ∈ f.insts, j.id = i.id → j = i) (hg : ExpandedSo dl f (i :: left) g) :
    ExpandedSo dl f left (expandMemIntrinsicUse lib dl g i) := by
  have hif : i ∈ f.insts := hleft i List.mem_cons_self
  have hig : i ∈ g.insts := hg.kept i hif fun _ => List.mem_cons_self
  have hcases := @expandMemIntrinsicUse_cases R dl g i _ lib hlib hig
  obtain ⟨hnot, heq⟩ | ⟨hexp, k, dst, src, args, g', hop, hloop, heq⟩ := hcases
  · rw [heq]
    refine ⟨hg.name, ?_, ?_⟩
    · intro j hj h
      exact hg.kept j hj fun hexp => List.mem_cons_of_mem i (h hexp)
    · intro j hj
      obtain ⟨hjf, h⟩ | hnew := hg.origin j hj
      · exact Or.inl ⟨hjf, left_of_cons h fun hexp hji => hnot (hji ▸ hexp)⟩
      · exact Or.inr hnew
  · rw [heq]
    refine ⟨hloop.name.trans hg.name, ?_, ?_⟩
    · intro j hj h
      have hne : j ≠ i := fun hji => hi (h (hji ▸ hexp) |> fun hmem => hji ▸ hmem)
      have hjg := hg.kept j hj fun hexp => List.mem_cons_of_mem i (h hexp)
      exact mem_eraseFromParent.mpr ⟨hloop.kept j hjg, fun hid => hne (honce j hj hid)⟩
    · intro j hj
      obtain ⟨hjg', hid⟩ := mem_eraseFromParent.mp hj
      obtain hjg | hmoves := hloop.added j hjg'
      · obtain ⟨hjf, h⟩ | hnew := hg.origin j hjg
        · exact Or.inl ⟨hjf, left_of_cons h fun _ hji => hid (congrArg Inst.id hji)⟩
        · exact Or.inr hnew
      · exact Or.inr ⟨i, hif, hexp, k, dst, src, args, hop, hmoves⟩

/-- The uses of a function, the ones behind `left` looked at, one after the other. -/
theorem ExpandedSo.foldl (hlib : lib.GivesLoops) (hf : f.DefinesOnce) {left : List (Inst R)}
    (hleft : left.Sublist f.insts) (hg : ExpandedSo dl f left g) :
    ExpandedSo dl f [] (left.foldl (expandMemIntrinsicUse lib dl) g) := by
  induction left generalizing g with
  | nil => exact hg
  | cons i left ih =>
    have hmem : ∀ j ∈ i :: left, j ∈ f.insts := fun j hj => hleft.subset hj
    have hnodup : ((i :: left).map Inst.id).Nodup := hf.sublist (hleft.map Inst.id)
    rw [List.map_cons, List.nodup_cons] at hnodup
    have honce : ∀ j ∈ f.insts, j.id = i.id → j = i := by
      intro j hj hid
      exact List.inj_on_of_nodup_map hf hj (hmem i List.mem_cons_self) hid
    apply ih ((List.sublist_cons_self i left).trans hleft)
    exact hg.step hlib hmem (fun hi => hnodup.1 (List.mem_map_of_mem hi)) honce

theorem expandMemIntrinsicUses_expandedTo (hlib : lib.GivesLoops) (hf : f.DefinesOnce) :
    f.ExpandedTo dl (expandMemIntrinsicUses lib dl f) := by
  have hstart : ExpandedSo dl f f.insts f :=
    ⟨rfl, fun j hj _ => hj, fun j hj => Or.inl ⟨hj, fun _ => hj⟩⟩
  have hend := hstart.foldl hlib hf (List.Sublist.refl _)
  refine ⟨hend.name, ?_, ?_⟩
  · intro j hj hnot
    exact hend.kept j hj fun hexp => absurd hexp hnot
  · intro j hj
    obtain ⟨hjf, h⟩ | hnew := hend.origin j hj
    · exact Or.inl ⟨hjf, fun hexp => List.not_mem_nil (h hexp)⟩
    · exact Or.inr hnew

end Hero.Toolchain
