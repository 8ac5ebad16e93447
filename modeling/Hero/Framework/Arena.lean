import Mathlib.Data.List.Basic
import Mathlib.Tactic.Common

/-!
# Fragments of an arena

An arena is cut into used and free fragments that lie end to end.  Fragments are known by their
starts; cutting one of them up and merging two neighbours keep the tiling.
-/

namespace Hero.Arena

structure Fragment where
  start : Nat
  size : Nat
  used : Bool
  deriving DecidableEq, Repr

/-- Nonempty fragments from `lo` to `hi`, end to end. -/
def Tiles : Nat → Nat → List Fragment → Prop
  | lo, hi, [] => lo = hi
  | lo, hi, f :: l => f.start = lo ∧ 0 < f.size ∧ Tiles (lo + f.size) hi l

/-- Replace the fragment at `a`. -/
def replace (a : Nat) (new : List Fragment) (l : List Fragment) : List Fragment :=
  l.flatMap fun f => if f.start = a then new else [f]

/-- Add the fragment at `b` to the one at `a`. -/
def merge (a b n : Nat) (l : List Fragment) : List Fragment :=
  (l.filter fun f => f.start ≠ b).map fun f => if f.start = a then { f with size := f.size + n } else f

variable {lo mid hi a b n : Nat} {f g : Fragment} {l l' new : List Fragment}

theorem Tiles.le (h : Tiles lo hi l) : lo ≤ hi := by
  induction l generalizing lo with
  | nil => exact Nat.le_of_eq h
  | cons f l ih => exact Nat.le_trans (Nat.le_add_right _ _) (ih h.2.2)

/-- A fragment lies in the arena. -/
theorem Tiles.mem (h : Tiles lo hi l) (hf : f ∈ l) :
    lo ≤ f.start ∧ 0 < f.size ∧ f.start + f.size ≤ hi := by
  induction l generalizing lo with
  | nil => cases hf
  | cons g l ih =>
    obtain ⟨hstart, hpos, hrest⟩ := h
    cases hf with
    | head => exact ⟨by omega, hpos, by have := hrest.le; omega⟩
    | tail _ hf =>
      obtain ⟨hle, hpos', hend⟩ := ih hrest hf
      exact ⟨by omega, hpos', hend⟩

/-- Different fragments do not overlap. -/
theorem Tiles.disjoint (h : Tiles lo hi l) (hf : f ∈ l) (hg : g ∈ l) (hne : f ≠ g) :
    f.start + f.size ≤ g.start ∨ g.start + g.size ≤ f.start := by
  induction l generalizing lo with
  | nil => cases hf
  | cons x l ih =>
    obtain ⟨hstart, hpos, hrest⟩ := h
    cases hf with
    | head =>
      cases hg with
      | head => exact absurd rfl hne
      | tail _ hg =>
        have hmem := hrest.mem hg
        left
        omega
    | tail _ hf =>
      cases hg with
      | head =>
        have hmem := hrest.mem hf
        right
        omega
      | tail _ hg => exact ih hrest hf hg

/-- Fragments with the same start are the same. -/
theorem Tiles.eq_of_start (h : Tiles lo hi l) (hf : f ∈ l) (hg : g ∈ l) (hstart : f.start = g.start) :
    f = g := by
  by_contra hne
  have hdisj := h.disjoint hf hg hne
  have hfpos := h.mem hf
  have hgpos := h.mem hg
  omega

theorem Tiles.append (h : Tiles lo mid l) (h' : Tiles mid hi l') : Tiles lo hi (l ++ l') := by
  induction l generalizing lo with
  | nil =>
    cases h
    exact h'
  | cons f l ih => exact ⟨h.1, h.2.1, ih h.2.2⟩

theorem mem_replace : g ∈ replace a new l ↔ (g ∈ l ∧ g.start ≠ a) ∨ ((∃ f ∈ l, f.start = a) ∧ g ∈ new) := by
  simp only [replace, List.mem_flatMap]
  constructor
  · intro h
    obtain ⟨f, hf, hg⟩ := h
    split at hg
    · next hstart => exact Or.inr ⟨⟨f, hf, hstart⟩, hg⟩
    · next hstart =>
      rw [List.mem_singleton] at hg
      subst hg
      exact Or.inl ⟨hf, hstart⟩
  · intro h
    obtain ⟨hg, hstart⟩ | ⟨⟨f, hf, hstart⟩, hg⟩ := h
    · exact ⟨g, hg, by simp [hstart]⟩
    · exact ⟨f, hf, by simp [hstart, hg]⟩

/-- A fragment that is not there is not replaced. -/
theorem replace_of_lt (h : Tiles lo hi l) (ha : a < lo) : replace a new l = l := by
  induction l generalizing lo with
  | nil => rfl
  | cons f l ih =>
    have hne : f.start ≠ a := by
      have := h.1
      omega
    rw [replace, List.flatMap_cons, if_neg hne]
    exact congrArg (f :: ·) (ih h.2.2 (by omega))

theorem Tiles.replace (h : Tiles lo hi l) (hf : f ∈ l) (hnew : Tiles f.start (f.start + f.size) new) :
    Tiles lo hi (replace f.start new l) := by
  induction l generalizing lo with
  | nil => cases hf
  | cons g l ih =>
    have htiles := h
    obtain ⟨hstart, hpos, hrest⟩ := h
    rw [Arena.replace, List.flatMap_cons]
    by_cases hg : g.start = f.start
    · have hfg : f = g := htiles.eq_of_start hf (by simp) hg.symm
      subst hfg
      have htail : Arena.replace f.start new l = l := replace_of_lt hrest (by omega)
      rw [if_pos rfl]
      rw [Arena.replace] at htail
      rw [htail]
      rw [hstart] at hnew
      exact hnew.append hrest
    · have hmem : f ∈ l := by
        cases hf with
        | head => exact absurd rfl hg
        | tail _ hf => exact hf
      rw [if_neg hg]
      exact ⟨hstart, hpos, ih hrest hmem⟩

theorem mem_merge (h : Tiles lo hi l) (hf : f ∈ l) (hab : f.start ≠ b) :
    g ∈ merge f.start b n l ↔
      (g ∈ l ∧ g.start ≠ f.start ∧ g.start ≠ b) ∨ g = { f with size := f.size + n } := by
  simp only [merge, List.mem_map, List.mem_filter, decide_eq_true_eq]
  constructor
  · intro hg
    obtain ⟨x, ⟨hx, hxb⟩, rfl⟩ := hg
    by_cases hxa : x.start = f.start
    · have hxf := h.eq_of_start hx hf hxa
      subst hxf
      right
      rw [if_pos rfl]
    · left
      rw [if_neg hxa]
      exact ⟨hx, hxa, hxb⟩
  · intro hg
    obtain ⟨hg, hga, hgb⟩ | rfl := hg
    · exact ⟨g, ⟨hg, hgb⟩, if_neg hga⟩
    · exact ⟨f, ⟨hf, hab⟩, if_pos rfl⟩

private theorem merge_of_lt (h : Tiles lo hi l) (ha : a < lo) (hb : b < lo) : merge a b n l = l := by
  have hfilter : (l.filter fun f => f.start ≠ b) = l := by
    apply List.filter_eq_self.mpr
    intro f hf
    have := (h.mem hf).1
    simp only [decide_eq_true_eq]
    omega
  rw [merge, hfilter]
  conv_rhs => rw [← List.map_id l]
  apply List.map_congr_left
  intro f hf
  have := (h.mem hf).1
  rw [if_neg (by omega)]
  rfl

/-- Neighbours may be merged. -/
theorem Tiles.merge (h : Tiles lo hi l) (hf : f ∈ l) (hg : g ∈ l)
    (hnext : f.start + f.size = g.start) : Tiles lo hi (merge f.start g.start g.size l) := by
  induction l generalizing lo with
  | nil => cases hf
  | cons x l ih =>
    have htiles := h
    obtain ⟨hstart, hpos, hrest⟩ := h
    have hfmem := htiles.mem hf
    have hxg : x.start ≠ g.start := by omega
    rw [Arena.merge, List.filter_cons_of_pos (by simpa using hxg), List.map_cons]
    by_cases hx : x.start = f.start
    · have hxf := htiles.eq_of_start (by simp) hf hx
      subst hxf
      have hgl : g ∈ l := by
        cases hg with
        | head => exact absurd rfl hxg
        | tail _ hg => exact hg
      rw [if_pos rfl]
      cases l with
      | nil => cases hgl
      | cons y l =>
        have hy : y = g := hrest.eq_of_start (by simp) hgl (by
          have := hrest.1
          omega)
        subst hy
        obtain ⟨hystart, hypos, hyrest⟩ := hrest
        have htail : Arena.merge x.start y.start y.size l = l := merge_of_lt hyrest (by omega) (by omega)
        rw [Arena.merge] at htail
        rw [List.filter_cons_of_neg (by simp), htail]
        refine ⟨hstart, by dsimp only; omega, ?_⟩
        rw [← Nat.add_assoc]
        exact hyrest
    · have hfl : f ∈ l := by
        cases hf with
        | head => exact absurd rfl hx
        | tail _ hf => exact hf
      have hgl : g ∈ l := by
        cases hg with
        | head => exact absurd rfl hxg
        | tail _ hg => exact hg
      rw [if_neg hx]
      exact ⟨hstart, hpos, ih hrest hfl hgl⟩

end Hero.Arena
