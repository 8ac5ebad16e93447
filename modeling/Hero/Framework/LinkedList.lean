import Mathlib.Data.List.Basic
import Mathlib.Data.List.TakeWhile
import Mathlib.Logic.Function.Basic

/-!
# Singly linked lists

Nodes with a link to the next one, as a function.  A segment is the list of the nodes on the way from
one link to another; all changes to a list are redirections of the link at the end of a segment.
-/

namespace Hero.LinkedList

variable {α : Type*}

/-- The way from `p` through the nodes of the list to `q`. -/
def Seg (next : α → Option α) : Option α → List α → Option α → Prop
  | p, [], q => p = q
  | p, a :: as, q => p = some a ∧ Seg next (next a) as q

/-- A search from a link on: the node in front of the first that meets `stop`, and that one. -/
def search (next : α → Option α) (stop : α → Bool) :
    Nat → Option α → Option α → Option (Option α × Option α)
  | 0, _, _ => none
  | _ + 1, prev, none => some (prev, none)
  | n + 1, prev, some a =>
    if stop a then some (prev, some a) else search next stop n (some a) (next a)

section

variable {next next' : α → Option α} {p q r : Option α} {a b : α} {as bs : List α}

theorem seg_append : Seg next p (as ++ bs) r ↔ ∃ q, Seg next p as q ∧ Seg next q bs r := by
  induction as generalizing p with
  | nil => simp [Seg]
  | cons a as ih => simp [Seg, ih, and_assoc]

theorem seg_concat : Seg next p (as ++ [a]) r ↔ Seg next p as (some a) ∧ next a = r := by
  simp [seg_append, Seg]

/-- Only the links of the nodes on the way matter. -/
theorem Seg.congr (h : Seg next p as q) (hnext : ∀ a ∈ as, next' a = next a) : Seg next' p as q := by
  induction as generalizing p with
  | nil => exact h
  | cons a as ih =>
    refine ⟨h.1, ?_⟩
    rw [hnext a List.mem_cons_self]
    exact ih h.2 fun b hb => hnext b (List.mem_cons_of_mem a hb)

theorem Seg.head (h : Seg next p as none) : p = as.head? := by
  cases as with
  | nil => exact h
  | cons a as => exact h.1

theorem Seg.unique (h : Seg next p as none) (h' : Seg next p bs none) : as = bs := by
  induction as generalizing p bs with
  | nil =>
    cases bs with
    | nil => rfl
    | cons b bs => cases h.symm.trans h'.1
  | cons a as ih =>
    cases bs with
    | nil => cases h'.symm.trans h.1
    | cons b bs =>
      cases h.1.symm.trans h'.1
      rw [ih h.2 h'.2]

/-- A list that ends does not come back to a node. -/
theorem Seg.nodup (h : Seg next p as none) : as.Nodup := by
  induction as generalizing p with
  | nil => exact List.nodup_nil
  | cons a as ih =>
    rw [List.nodup_cons]
    refine ⟨?_, ih h.2⟩
    intro hmem
    obtain ⟨bs, cs, hsplit⟩ := List.append_of_mem hmem
    have hrest := h.2
    rw [hsplit] at hrest
    obtain ⟨q, -, hq⟩ := seg_append.mp hrest
    have heq := h.2.unique hq.2
    have hlength := congrArg List.length (hsplit.symm.trans heq)
    simp at hlength
    omega

theorem Seg.not_mem_front (h : Seg next p (as ++ a :: bs) none) : a ∉ as := by
  intro hmem
  exact (List.nodup_append.mp h.nodup).2.2 a hmem a List.mem_cons_self rfl

section Update

variable [DecidableEq α]

theorem Seg.update (h : Seg next p as q) (ha : a ∉ as) (r : Option α) :
    Seg (Function.update next a r) p as q := by
  apply h.congr
  intro b hb
  have hne : b ≠ a := by
    intro heq
    rw [heq] at hb
    exact ha hb
  exact Function.update_of_ne hne r next

/-- The link of the last node leads elsewhere. -/
theorem Seg.redirect (h : Seg next p (as ++ [a]) q) (ha : a ∉ as) (r : Option α) :
    Seg (Function.update next a r) p (as ++ [a]) r := by
  rw [seg_concat] at h ⊢
  exact ⟨h.1.update ha r, Function.update_self a r next⟩

omit [DecidableEq α] in
/-- A list that ends has each of its nodes once. -/
theorem Seg.not_mem (h : Seg next p (as ++ [b] ++ bs) none) : b ∉ as ∧ b ∉ bs := by
  obtain ⟨hfront, -, hdisjoint⟩ := List.nodup_append.mp h.nodup
  obtain ⟨-, -, hlast⟩ := List.nodup_append.mp hfront
  constructor
  · intro hb
    exact hlast b hb b (List.mem_singleton.mpr rfl) rfl
  · intro hb
    exact hdisjoint b List.mem_concat_self b hb rfl

/-- A node is put behind the last one. -/
theorem Seg.enqueue (h : Seg next p (as ++ [b]) none) (ha : a ∉ as ++ [b]) :
    Seg (Function.update (Function.update next a none) b (some a)) p (as ++ [b] ++ [a]) none := by
  have hne : a ≠ b := by
    intro heq
    rw [heq] at ha
    exact ha List.mem_concat_self
  rw [← List.append_nil (as ++ [b])] at h
  have hb := h.not_mem.1
  rw [List.append_nil] at h
  rw [seg_concat]
  refine ⟨(h.update ha none).redirect hb (some a), ?_⟩
  rw [Function.update_of_ne hne, Function.update_self]

/-- A node behind another one is taken out. -/
theorem Seg.unlink (h : Seg next p (as ++ [b] ++ a :: bs) none) :
    Seg (Function.update next b (next a)) p (as ++ [b] ++ bs) none := by
  obtain ⟨hb, hbs⟩ := h.not_mem
  obtain ⟨q, hfront, hq, hrest⟩ := seg_append.mp h
  exact seg_append.mpr ⟨next a, hfront.redirect hb (next a),
    hrest.update (fun hmem => hbs (List.mem_cons_of_mem a hmem)) (next a)⟩

/-- A node is put behind another one. -/
theorem Seg.insert (h : Seg next p (as ++ [b] ++ bs) none) (ha : a ∉ as ++ [b] ++ bs) :
    Seg (Function.update (Function.update next b (some a)) a (next b)) p (as ++ [b] ++ a :: bs) none := by
  obtain ⟨hb, hbs⟩ := h.not_mem
  obtain ⟨q, hfront, hrest⟩ := seg_append.mp h
  have hq : next b = q := (seg_concat.mp hfront).2
  have hfront' := (hfront.redirect hb (some a)).update
    (fun hmem => ha (List.mem_append_left bs hmem)) (next b)
  have hrest' := (hrest.update hbs (some a)).update
    (fun hmem => ha (List.mem_append_right (as ++ [b]) hmem)) (next b)
  refine seg_append.mpr ⟨some a, hfront', rfl, ?_⟩
  rw [Function.update_self, hq]
  rw [hq] at hrest'
  exact hrest'

end Update

/-- More rounds do not change what was found. -/
theorem search_mono {stop : α → Bool} {n m : Nat} {prev : Option α} {found : Option α × Option α}
    (h : search next stop n prev p = some found) (hnm : n ≤ m) :
    search next stop m prev p = some found := by
  induction n generalizing m prev p with
  | zero => cases h
  | succ n ih =>
    obtain ⟨m, rfl⟩ : ∃ l, m = l + 1 := ⟨m - 1, by omega⟩
    cases p with
    | none => exact h
    | some a =>
      rw [search] at h ⊢
      by_cases hstop : stop a = true
      · rw [if_pos hstop] at h ⊢
        exact h
      · rw [if_neg hstop] at h ⊢
        exact ih h (Nat.le_of_succ_le_succ hnm)

/-- The node in front of the one found is one of the list, or the one that the search began behind. -/
theorem search_prev {stop : α → Bool} {n : Nat} {prev : Option α} {found : Option α × Option α}
    (h : Seg next p as none) (hfound : search next stop n prev p = some found) :
    ∀ b ∈ found.1, b ∈ as ∨ prev = some b := by
  induction as generalizing p n prev with
  | nil =>
    cases n with
    | zero => cases hfound
    | succ n =>
      cases h
      cases hfound
      intro b hb
      exact Or.inr hb
  | cons a as ih =>
    cases n with
    | zero => cases hfound
    | succ n =>
      rw [h.1, search] at hfound
      intro b hb
      by_cases hstop : stop a = true
      · rw [if_pos hstop] at hfound
        cases hfound
        exact Or.inr hb
      · rw [if_neg hstop] at hfound
        rcases ih h.2 hfound b hb with hmem | heq
        · exact Or.inl (List.mem_cons_of_mem a hmem)
        · cases heq
          exact Or.inl List.mem_cons_self

/-- The search goes past the nodes that do not meet the condition. -/
theorem search_spec (stop : α → Bool) {n : Nat} (h : Seg next p as none) (hn : as.length < n)
    (prev : Option α) : search next stop n prev p =
      some (((as.takeWhile fun a => !stop a).getLast?).or prev, (as.dropWhile fun a => !stop a).head?) := by
  induction as generalizing p n prev with
  | nil =>
    cases n with
    | zero => cases hn
    | succ n =>
      cases h
      rfl
  | cons a as ih =>
    cases n with
    | zero => cases hn
    | succ n =>
      rw [h.1, search]
      by_cases hstop : stop a = true
      · simp [hstop]
      · rw [if_neg hstop, ih h.2 (Nat.lt_of_succ_lt_succ hn)]
        rw [Bool.not_eq_true] at hstop
        simp only [List.takeWhile_cons, List.dropWhile_cons, hstop, Bool.not_false, if_true]
        cases hlast : (as.takeWhile fun a => !stop a).getLast? with
        | none => simp [List.getLast?_cons, hlast]
        | some b => simp [List.getLast?_cons, hlast]

theorem search_split {stop : α → Bool} {n : Nat} (h : Seg next p (as ++ bs) none)
    (hn : (as ++ bs).length < n) (has : ∀ b ∈ as, stop b = false) (hbs : ∀ b ∈ bs.head?, stop b = true)
    (prev : Option α) : search next stop n prev p = some (as.getLast?.or prev, bs.head?) := by
  have hpass : ∀ b ∈ as, (!stop b) = true := by
    intro b hb
    rw [has b hb]
    rfl
  rw [search_spec stop h hn, List.takeWhile_append_of_pos hpass, List.dropWhile_append_of_pos hpass]
  cases bs with
  | nil => simp
  | cons b bs => simp [hbs b rfl]

theorem search_found {stop : α → Bool} {n : Nat} (h : Seg next p (as ++ a :: bs) none)
    (hn : (as ++ a :: bs).length < n) (has : ∀ b ∈ as, stop b = false) (ha : stop a = true)
    (prev : Option α) : search next stop n prev p = some (as.getLast?.or prev, some a) := by
  apply search_split h hn has
  intro b hb
  cases hb
  exact ha

theorem search_missed {stop : α → Bool} {n : Nat} (h : Seg next p as none) (hn : as.length < n)
    (has : ∀ b ∈ as, stop b = false) (prev : Option α) :
    search next stop n prev p = some (as.getLast?.or prev, none) := by
  rw [← List.append_nil as] at h hn
  exact search_split h hn has nofun prev

end

end Hero.LinkedList
