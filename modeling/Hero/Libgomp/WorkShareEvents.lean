import Hero.Libgomp.WorkShareChain

/-!
# Events of a region

The events of a region tell which thread has opened each construct and when its work share has gone
back to the pool.
-/

namespace Hero.Libgomp

/-- What the events of a region say about its constructs. -/
structure RegionOf (passed : Nat → Prop) (c : Chain) (r : List WsEvent) : Prop where
  entered : ∀ d pid i ws first, .entered d pid i ws first ∈ r →
    1 ≤ i ∧ i ≤ c.last ∧ ws = c.obj i
  opened_once : ∀ i, 1 ≤ i → i ≤ c.last → r.countP (WsEvent.opens i) = 1
  returned : ∀ d i ws, .returned d i ws ∈ r → 1 ≤ i ∧ i ≤ c.last ∧ ws = c.obj i ∧ passed i
  returned_once : ∀ i, 1 ≤ i → i ≤ c.last → passed i → r.countP (WsEvent.returns i) = 1

variable {h : List WsEvent} {d : TeamId} {c : Chain} {pid : Nat} {ws : WsId}

theorem region_append (d : TeamId) (h : List WsEvent) (e : WsEvent) :
    region d (h ++ [e]) =
      if e = .started d then [] else if e.isOf d then region d h ++ [e] else region d h := by
  simp [region]

theorem region_append_of {e : WsEvent} (he : e.isOf d = true) :
    region d (h ++ [e]) = region d h ++ [e] := by
  rw [region_append, if_neg, if_pos he]
  intro hstart
  rw [hstart] at he
  cases he

theorem region_append_other {e : WsEvent} (hstart : e ≠ .started d) (he : e.isOf d = false) :
    region d (h ++ [e]) = region d h := by
  rw [region_append, if_neg hstart, he]
  rfl

/-- The events are those of team `d`, and none is a fault. -/
def OwnEvents (d : TeamId) (es : List WsEvent) : Prop :=
  ∀ e ∈ es, (∀ d' ≠ d, e ≠ .started d' ∧ e.isOf d' = false) ∧ ∀ d' pid, e ≠ .fault d' pid

theorem OwnEvents.entered {i : Nat} {first : Bool} :
    OwnEvents d [.entered d pid i ws first] := by
  intro e he
  rw [List.mem_singleton] at he
  subst he
  constructor
  · intro d' hd'
    simp [WsEvent.isOf, hd'.symm]
  · simp

theorem OwnEvents.returned {i : Nat} (o : Option WsId) : OwnEvents d (returnedEvent d i o) := by
  intro e he
  cases o with
  | none => cases he
  | some w =>
    rw [returnedEvent, List.mem_singleton] at he
    subst he
    constructor
    · intro d' hd'
      simp [WsEvent.isOf, hd'.symm]
    · simp

theorem OwnEvents.started : OwnEvents d [.started d] := by
  intro e he
  rw [List.mem_singleton] at he
  subst he
  constructor
  · intro d' hd'
    simp [WsEvent.isOf, hd'.symm]
  · simp

theorem OwnEvents.region_ne {es : List WsEvent} (hes : OwnEvents d es) {d' : TeamId}
    (hd' : d' ≠ d) : region d' (h ++ es) = region d' h := by
  induction es using List.reverseRecOn with
  | nil => rw [List.append_nil]
  | append_singleton es e ih =>
    obtain ⟨hstart, hof⟩ := (hes e (by simp)).1 d' hd'
    rw [← List.append_assoc, region_append_other hstart hof]
    exact ih fun e he => hes e (by simp [he])

theorem region_append_returned {i : Nat} (o : Option WsId) :
    region d (h ++ returnedEvent d i o) = region d h ++ returnedEvent d i o := by
  cases o with
  | none => simp [returnedEvent]
  | some w => exact region_append_of (by simp [WsEvent.isOf])

theorem isOf_of_mem_region {e : WsEvent} (he : e ∈ region d h) : e.isOf d = true := by
  induction h using List.reverseRecOn with
  | nil => cases he
  | append_singleton h e' ih =>
    rw [region_append] at he
    split at he
    · cases he
    · split at he
      · rename_i hof
        obtain he | he := List.mem_append.mp he
        · exact ih he
        · rw [List.mem_singleton] at he
          rwa [he]
      · exact ih he

namespace RegionOf

variable {passed passed' : Nat → Prop} {r : List WsEvent}

theorem countP_opens_eq_zero (hr : RegionOf passed c r) {i : Nat} (hi : c.last < i) :
    r.countP (WsEvent.opens i) = 0 := by
  rw [List.countP_eq_zero]
  intro e he hopens
  cases e with
  | entered d pid j ws first =>
    have := (hr.entered d pid j ws first he).2.1
    cases first with
    | false => cases hopens
    | true =>
      have : j = i := by simpa [WsEvent.opens] using hopens
      omega
  | _ => cases hopens

theorem countP_returns_eq_zero (hr : RegionOf passed c r) {i : Nat} (hi : ¬ passed i) :
    r.countP (WsEvent.returns i) = 0 := by
  rw [List.countP_eq_zero]
  intro e he hreturns
  cases e with
  | returned d j ws =>
    have hpassed := (hr.returned d j ws he).2.2.2
    have hj : j = i := by simpa [WsEvent.returns] using hreturns
    exact hi (hj ▸ hpassed)
  | _ => cases hreturns

/-- A construct is entered that has been opened before. -/
theorem follow (hr : RegionOf passed c r) {i : Nat} (hpos : 1 ≤ i) (hi : i ≤ c.last) :
    RegionOf passed c (r ++ [.entered d pid i (c.obj i) false]) where
  entered := by
    intro d' pid' j ws first he
    obtain he | he := List.mem_append.mp he
    · exact hr.entered d' pid' j ws first he
    · rw [List.mem_singleton] at he
      cases he
      exact ⟨hpos, hi, rfl⟩
  opened_once := by
    intro j hjpos hj
    rw [List.countP_append, hr.opened_once j hjpos hj]
    rfl
  returned := by
    intro d' j ws he
    obtain he | he := List.mem_append.mp he
    · exact hr.returned d' j ws he
    · rw [List.mem_singleton] at he
      cases he
  returned_once := by
    intro j hjpos hj hpassed
    rw [List.countP_append, hr.returned_once j hjpos hj hpassed]
    rfl

/-- A construct is opened. -/
theorem extend (hr : RegionOf passed c r) (hnot : ¬ passed (c.last + 1)) :
    RegionOf passed (c.extend ws) (r ++ [.entered d pid (c.last + 1) ws true]) where
  entered := by
    intro d' pid' j w first he
    rw [Chain.extend_last]
    obtain he | he := List.mem_append.mp he
    · obtain ⟨hpos, hj, hw⟩ := hr.entered d' pid' j w first he
      exact ⟨hpos, by omega, by rw [Chain.extend_obj_le hj, hw]⟩
    · rw [List.mem_singleton] at he
      cases he
      exact ⟨by omega, Nat.le_refl _, Chain.extend_obj_last.symm⟩
  opened_once := by
    intro j hjpos hj
    rw [Chain.extend_last] at hj
    rw [List.countP_append]
    by_cases hlast : j = c.last + 1
    · rw [hr.countP_opens_eq_zero (by omega), List.countP_singleton]
      simp [WsEvent.opens, hlast]
    · rw [hr.opened_once j hjpos (by omega), List.countP_singleton]
      simp [WsEvent.opens, Ne.symm hlast]
  returned := by
    intro d' j w he
    rw [Chain.extend_last]
    obtain he | he := List.mem_append.mp he
    · obtain ⟨hpos, hj, hw, hpassed⟩ := hr.returned d' j w he
      exact ⟨hpos, by omega, by rw [Chain.extend_obj_le hj, hw], hpassed⟩
    · rw [List.mem_singleton] at he
      cases he
  returned_once := by
    intro j hjpos hj hpassed
    rw [Chain.extend_last] at hj
    have hne : j ≠ c.last + 1 := by
      intro heq
      exact hnot (heq ▸ hpassed)
    rw [List.countP_append, hr.returned_once j hjpos (by omega) hpassed]
    rfl

/-- No construct is passed. -/
theorem congr (hr : RegionOf passed c r)
    (hiff : ∀ i, 1 ≤ i → i ≤ c.last → (passed' i ↔ passed i)) : RegionOf passed' c r where
  entered := hr.entered
  opened_once := hr.opened_once
  returned := by
    intro d' j w he
    obtain ⟨hpos, hj, hw, hpassed⟩ := hr.returned d' j w he
    exact ⟨hpos, hj, hw, (hiff j hpos hj).mpr hpassed⟩
  returned_once := by
    intro j hpos hj hpassed
    exact hr.returned_once j hpos hj ((hiff j hpos hj).mp hpassed)

/-- A construct is passed, and its work share goes to the pool. -/
theorem passes (hr : RegionOf passed c r) {k : Nat} (hpos : 1 ≤ k) (hk : k ≤ c.last)
    (hnot : ¬ passed k) (hiff : ∀ i, 1 ≤ i → i ≤ c.last → (passed' i ↔ passed i ∨ i = k)) :
    RegionOf passed' c (r ++ [.returned d k (c.obj k)]) where
  entered := by
    intro d' pid' j w first he
    obtain he | he := List.mem_append.mp he
    · exact hr.entered d' pid' j w first he
    · rw [List.mem_singleton] at he
      cases he
  opened_once := by
    intro j hjpos hj
    rw [List.countP_append, hr.opened_once j hjpos hj]
    rfl
  returned := by
    intro d' j w he
    obtain he | he := List.mem_append.mp he
    · obtain ⟨hjpos, hj, hw, hpassed⟩ := hr.returned d' j w he
      exact ⟨hjpos, hj, hw, (hiff j hjpos hj).mpr (Or.inl hpassed)⟩
    · rw [List.mem_singleton] at he
      cases he
      exact ⟨hpos, hk, rfl, (hiff k hpos hk).mpr (Or.inr rfl)⟩
  returned_once := by
    intro j hjpos hj hpassed
    rw [List.countP_append, List.countP_singleton]
    obtain hpassed | hjk := (hiff j hjpos hj).mp hpassed
    · have hne : k ≠ j := by
        intro heq
        exact hnot (heq ▸ hpassed)
      rw [hr.returned_once j hjpos hj hpassed]
      simp [WsEvent.returns, hne]
    · rw [hjk, hr.countP_returns_eq_zero hnot]
      simp [WsEvent.returns]

end RegionOf

end Hero.Libgomp
