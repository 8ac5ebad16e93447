import Hero.Framework.FreeList
import Mathlib.Algebra.BigOperators.Group.List.Basic

/-!
# Shares of an arena

The live blocks and the free chunks of an arena share out its bytes.  Taking a block from the free
list, cutting a block up and giving one back keep the shares.
-/

namespace Hero.FreeList

/-- Blocks and spaced chunks to which every byte of the arena belongs exactly once. -/
structure Shares (lo hi : Nat) (live l : List Chunk) : Prop where
  spaced : Spaced lo hi l
  pos : ∀ b ∈ live, 0 < b.size
  apart : live.Pairwise fun b b' => Disjoint b.bytes b'.bytes
  used : ∀ b ∈ live, Disjoint b.bytes (bytes l)
  covers : bytes live ∪ bytes l = Set.Ico lo hi
  sum : total live + total l = hi - lo

variable {lo hi m n a : Nat} {b c : Chunk} {live live' l l' rest : List Chunk}

namespace Shares

/-- An arena that is free. -/
theorem initial (hlt : lo < hi) : Shares lo hi [] [⟨lo, hi - lo⟩] := by
  have hstop : (⟨lo, hi - lo⟩ : Chunk).stop = hi := by
    unfold Chunk.stop
    dsimp only
    omega
  refine ⟨⟨le_refl _, Nat.sub_pos_of_lt hlt, hstop.le, trivial⟩, by simp, List.Pairwise.nil,
    by simp, ?_, by simp⟩
  rw [bytes_nil, Set.empty_union, bytes_cons, bytes_nil, Set.union_empty, Chunk.bytes, hstop]

theorem perm (h : Shares lo hi live l) (hperm : live.Perm live') : Shares lo hi live' l := by
  have hbytes : bytes live' = bytes live := by
    ext x
    simp only [bytes, hperm.mem_iff]
  have htotal : total live' = total live := by
    unfold total
    exact ((hperm.map Chunk.size).sum_eq).symm
  refine ⟨h.spaced, fun b hb => h.pos b (hperm.mem_iff.mpr hb), ?_,
    fun b hb => h.used b (hperm.mem_iff.mpr hb), hbytes ▸ h.covers, htotal ▸ h.sum⟩
  exact (hperm.pairwise_iff fun hdisj => Disjoint.symm hdisj).mp h.apart

theorem inside (h : Shares lo hi live l) (hb : b ∈ live) : lo ≤ b.addr ∧ b.stop ≤ hi := by
  have hpos := h.pos b hb
  have hsub : ∀ x ∈ b.bytes, lo ≤ x ∧ x < hi := by
    intro x hx
    have hin : x ∈ bytes live ∪ bytes l := Or.inl ⟨b, hb, hx⟩
    rw [h.covers] at hin
    exact hin
  have hfirst := hsub b.addr ⟨le_refl _, Nat.lt_add_of_pos_right hpos⟩
  have hlast := hsub (b.stop - 1) (by
    rw [Chunk.mem_bytes]
    unfold Chunk.stop
    omega)
  omega

/-- A block moves from the free bytes to the live ones. -/
theorem take (h : Shares lo hi live l) (hspaced : Spaced lo hi l') (hpos : 0 < b.size)
    (hbytes : bytes l = b.bytes ∪ bytes l') (hapart : Disjoint b.bytes (bytes l'))
    (htotal : total l = b.size + total l') : Shares lo hi (b :: live) l' := by
  have hb : b.bytes ⊆ bytes l := hbytes ▸ Set.subset_union_left
  have hl' : bytes l' ⊆ bytes l := hbytes ▸ Set.subset_union_right
  refine ⟨hspaced, ?_, List.Pairwise.cons ?_ h.apart, ?_, ?_, ?_⟩
  · intro d hd
    cases hd with
    | head => exact hpos
    | tail _ hd => exact h.pos d hd
  · intro d hd
    exact ((h.used d hd).mono_right hb).symm
  · intro d hd
    cases hd with
    | head => exact hapart
    | tail _ hd => exact (h.used d hd).mono_right hl'
  · rw [bytes_cons, ← h.covers, hbytes, Set.union_comm b.bytes, Set.union_assoc]
  · have hsum := h.sum
    rw [total_cons]
    omega

/-- A block moves back to the free bytes. -/
theorem give (h : Shares lo hi (b :: live) l) : Shares lo hi live (FreeList.give b l) := by
  obtain ⟨hlo, hhi⟩ := h.inside List.mem_cons_self
  obtain ⟨hfirst, hrest⟩ := List.pairwise_cons.mp h.apart
  have hb := h.used b List.mem_cons_self
  refine ⟨?_, fun d hd => h.pos d (List.mem_cons_of_mem _ hd), hrest, ?_, ?_, ?_⟩
  · exact h.spaced.give hlo (h.pos b List.mem_cons_self) hhi
      fun x hx => Set.disjoint_left.mp hb hx
  · intro d hd
    rw [bytes_give, Set.disjoint_union_right]
    exact ⟨(hfirst d hd).symm, h.used d (List.mem_cons_of_mem _ hd)⟩
  · rw [bytes_give, ← h.covers, bytes_cons, ← Set.union_assoc, Set.union_comm (bytes live)]
  · have hsum := h.sum
    rw [total_cons] at hsum
    rw [total_give]
    omega

/-- A block is cut in two. -/
theorem split (h : Shares lo hi (⟨a, m + n⟩ :: live) l) (hm : 0 < m) (hn : 0 < n) :
    Shares lo hi (⟨a, m⟩ :: ⟨a + m, n⟩ :: live) l := by
  obtain ⟨hfirst, hrest⟩ := List.pairwise_cons.mp h.apart
  have hparts : (⟨a, m + n⟩ : Chunk).bytes = (⟨a, m⟩ : Chunk).bytes ∪ (⟨a + m, n⟩ : Chunk).bytes := by
    ext x
    simp only [Set.mem_union, Chunk.mem_bytes, Chunk.stop]
    omega
  have hleft : (⟨a, m⟩ : Chunk).bytes ⊆ (⟨a, m + n⟩ : Chunk).bytes :=
    hparts ▸ Set.subset_union_left
  have hright : (⟨a + m, n⟩ : Chunk).bytes ⊆ (⟨a, m + n⟩ : Chunk).bytes :=
    hparts ▸ Set.subset_union_right
  have hb := h.used _ List.mem_cons_self
  refine ⟨h.spaced, ?_, List.Pairwise.cons ?_ (List.Pairwise.cons ?_ hrest), ?_, ?_, ?_⟩
  · intro d hd
    cases hd with
    | head => exact hm
    | tail _ hd =>
      cases hd with
      | head => exact hn
      | tail _ hd => exact h.pos d (List.mem_cons_of_mem _ hd)
  · intro d hd
    cases hd with
    | head =>
      rw [Set.disjoint_left]
      intro x hx hx'
      simp only [Chunk.mem_bytes, Chunk.stop] at hx hx'
      omega
    | tail _ hd => exact (hfirst d hd).mono_left hleft
  · intro d hd
    exact (hfirst d hd).mono_left hright
  · intro d hd
    cases hd with
    | head => exact hb.mono_left hleft
    | tail _ hd =>
      cases hd with
      | head => exact hb.mono_left hright
      | tail _ hd => exact h.used d (List.mem_cons_of_mem _ hd)
  · rw [bytes_cons, bytes_cons, ← Set.union_assoc, ← hparts, ← bytes_cons]
    exact h.covers
  · have hsum := h.sum
    simp only [total_cons] at hsum ⊢
    omega

end Shares

end Hero.FreeList
