import Hero.Vmm.RecentPages

/-!
# Misses taken from the FIFO

The miss handler with the FIFO that it takes misses from.  Each miss that it takes is recorded, with
the states before and after and the cores that are woken up for it.
-/

namespace Hero.Vmm

open Interp VmmState

/-- A page, and the core that is woken up for it. -/
abbrev WakeUp := CoreId × Vpn

def Call.wakeUps : Call → List WakeUp
  | .wakeUpCore clusterId coreId page => [(⟨clusterId, coreId⟩, page)]
  | _ => []

/-- The library with the wake-ups issued so far. -/
def waking (c : Config) : Interp VmmState Call (VmmState × List WakeUp) :=
  ⟨Prod.fst, fun t call => (t.1.step c call, t.2 ++ call.wakeUps)⟩

/-- A miss that has been taken, with the page tables and the states at that time. -/
structure TakenMiss where
  miss : RabMiss
  walk : PageWalk
  before : VmmState
  after : VmmState
  woken : List WakeUp
  ret : Except Stop Unit

/-- What a call of the handler comes to; `fifo` is what remains. -/
structure Handled where
  ret : Except Stop Unit
  vmm : VmmState
  fifo : List (RabMiss × PageWalk)
  taken : List TakenMiss

def Handled.cons (t : TakenMiss) (h : Handled) : Handled := { h with taken := t :: h.taken }

/-- A miss of another core, handled in state `s`. -/
def takeMiss (c : Config) (s : VmmState) (miss : RabMiss) (walk : PageWalk) : TakenMiss :=
  let (ret, after, woken) := (waking c).exec (handleMiss c walk miss) (s, [])
  ⟨miss, walk, s, after, woken, ret⟩

/-- A miss that is taken, but not handled. -/
def passMiss (s : VmmState) (miss : RabMiss) (walk : PageWalk) (ret : Except Stop Unit) : TakenMiss :=
  ⟨miss, walk, s, s, [], ret⟩

/-- `handle_rab_misses`, where `get_rab_miss` takes one miss after the other from the FIFO. -/
def handleFifo (c : Config) (mht : CoreId) : Nat → VmmState → List (RabMiss × PageWalk) → Handled
  | nMissesHandled, s, [] =>
    ⟨if nMissesHandled > 0 then .ok () else .error (.errno .enoent), s, [], []⟩
  | nMissesHandled, s, (miss, walk) :: fifo =>
    if miss.intraClusterId ≠ 2 then
      ⟨.error (.errno .efault), s, fifo, [passMiss s miss walk (.error (.errno .efault))]⟩
    else if miss.core = mht then
      (handleFifo c mht nMissesHandled s fifo).cons (passMiss s miss walk (.ok ()))
    else
      let t := takeMiss c s miss walk
      match t.ret with
      | .error e => ⟨.error e, t.after, fifo, [t]⟩
      | .ok () => (handleFifo c mht (nMissesHandled + 1) t.after fifo).cons t

/-- No core sleeps: the miss is not one of a core, or one of the handler's own. -/
def TakenMiss.NoSleeper (mht : CoreId) (t : TakenMiss) : Prop :=
  t.miss.intraClusterId ≠ 2 ∨ t.miss.core = mht

/-- The wake-ups that a miss needs. -/
def RabMiss.wakeUps (miss : RabMiss) : List WakeUp :=
  if miss.isPrefetch then [] else [(miss.core, vpn miss.virtAddr)]

/-- The page is mapped, and the core has been woken up. -/
def TakenMiss.Served (c : Config) (t : TakenMiss) : Prop :=
  (c.host (vpn t.miss.virtAddr) = true ∨ t.after.Mapped c (vpn t.miss.virtAddr)) ∧
    t.woken = t.miss.wakeUps

/-- The handler returns the error that it met for the miss; `reports` are the errors that tell the
caller about a sleeping core. -/
def TakenMiss.Reported (reports : Errno → Prop) (ret : Except Stop Unit) (t : TakenMiss) : Prop :=
  ∃ e, t.ret = .error (.errno e) ∧ ret = .error (.errno e) ∧ (t.miss.isPrefetch = true ∨ reports e)

/-- No miss that was taken is dropped, and those behind remain. -/
structure NoneDropped (c : Config) (mht : CoreId) (reports : Errno → Prop) (s : VmmState)
    (fifo : List (RabMiss × PageWalk)) : Prop where
  accounted : ∀ t ∈ (handleFifo c mht 0 s fifo).taken,
    t.NoSleeper mht ∨ t.Served c ∨ t.Reported reports (handleFifo c mht 0 s fifo).ret
  behind : fifo = (handleFifo c mht 0 s fifo).taken.map (fun t => (t.miss, t.walk)) ++
    (handleFifo c mht 0 s fifo).fifo

/-- The page is mapped; or it is not in the list, and a failure to find it would be reported. -/
def VmmState.Handles (c : Config) (reports : Errno → Prop) (s : VmmState) (miss : RabMiss)
    (walk : PageWalk) : Prop :=
  s.pageIsMapped c (vpn miss.virtAddr) = true ∨
    s.pageHasRecentlyBeenMapped (vpn miss.virtAddr) = false ∧
      ∀ e, walk (vpn miss.virtAddr) = .error e → miss.isPrefetch = true ∨ reports e

section

variable {c : Config} {mht : CoreId} {reports : Errno → Prop} {s : VmmState} {miss : RabMiss}
  {walk : PageWalk} {fifo : List (RabMiss × PageWalk)} {n : Nat} {t : TakenMiss}

private theorem exec_wakeUp (log : List WakeUp) :
    (waking c).exec (wakeUp miss) (s, log) = (.ok (), s, log ++ miss.wakeUps) := by
  rw [wakeUp, RabMiss.wakeUps]
  split
  · rw [List.append_nil]
    rfl
  · rfl

private theorem exec_mapMissed {page : Vpn} : (waking c).exec (mapMissed c walk page) (s, []) =
    (waking c).exec (if !s.pageHasRecentlyBeenMapped page && !s.pageIsMapped c page then
      mapPage walk true page else Prog.ret ()) (s, []) :=
  rfl

/-- A miss whose page is mapped, or taken to be so. -/
private theorem takeMiss_ok {s' : VmmState}
    (h : (waking c).exec (mapMissed c walk (vpn miss.virtAddr)) (s, []) = (.ok (), s', [])) :
    takeMiss c s miss walk = ⟨miss, walk, s, s', miss.wakeUps, .ok ()⟩ := by
  have hbind := exec_bind (I := waking c) (mapMissed c walk (vpn miss.virtAddr))
    (fun _ => wakeUp miss) (s, [])
  rw [h] at hbind
  have hexec : (waking c).exec (handleMiss c walk miss) (s, []) = (.ok (), s', miss.wakeUps) :=
    hbind.trans (exec_wakeUp [])
  rw [takeMiss, hexec]

/-- A page that is known, in the list or mapped, is not mapped again. -/
theorem takeMiss_known (walk : PageWalk) (h : s.pageHasRecentlyBeenMapped (vpn miss.virtAddr) = true ∨
    s.pageIsMapped c (vpn miss.virtAddr) = true) :
    takeMiss c s miss walk = ⟨miss, walk, s, s, miss.wakeUps, .ok ()⟩ := by
  have hknown : ¬ (!s.pageHasRecentlyBeenMapped (vpn miss.virtAddr) &&
      !s.pageIsMapped c (vpn miss.virtAddr)) = true := by
    rcases h with h | h
    · simp [h]
    · simp [h]
  apply takeMiss_ok
  rw [exec_mapMissed, if_neg hknown]
  rfl

theorem takeMiss_mapped {r : Nat × Bool}
    (hlist : s.pageHasRecentlyBeenMapped (vpn miss.virtAddr) = false)
    (hmapped : s.pageIsMapped c (vpn miss.virtAddr) = false)
    (hwalk : walk (vpn miss.virtAddr) = .ok r) : takeMiss c s miss walk =
      ⟨miss, walk, s, s.step c (.config ⟨vpn miss.virtAddr, r.1, r.2⟩ true), miss.wakeUps, .ok ()⟩ := by
  apply takeMiss_ok
  rw [exec_mapMissed, if_pos (by rw [hlist, hmapped]; rfl), mapPage, hwalk]
  rfl

/-- A failed walk leaves everything as it is, and wakes up no core. -/
theorem takeMiss_failed {e : Errno} (hlist : s.pageHasRecentlyBeenMapped (vpn miss.virtAddr) = false)
    (hmapped : s.pageIsMapped c (vpn miss.virtAddr) = false)
    (hwalk : walk (vpn miss.virtAddr) = .error e) :
    takeMiss c s miss walk = ⟨miss, walk, s, s, [], .error (.errno e)⟩ := by
  have hfail : (waking c).exec (mapMissed c walk (vpn miss.virtAddr)) (s, []) =
      (.error (.errno e), s, []) := by
    rw [exec_mapMissed, if_pos (by rw [hlist, hmapped]; rfl), mapPage, hwalk]
    rfl
  have hbind := exec_bind (I := waking c) (mapMissed c walk (vpn miss.virtAddr))
    (fun _ => wakeUp miss) (s, [])
  rw [hfail] at hbind
  have hexec : (waking c).exec (handleMiss c walk miss) (s, []) = (.error (.errno e), s, []) := hbind
  rw [takeMiss, hexec]

/-- A miss of another core is served or reported if and only if its page is not wrongly in the list. -/
theorem takeMiss_accounted_iff {ret : Except Stop Unit}
    (hret : ∀ e, (takeMiss c s miss walk).ret = .error e → ret = .error e) :
    (takeMiss c s miss walk).Served c ∨ (takeMiss c s miss walk).Reported reports ret ↔
      s.Handles c reports miss walk := by
  cases hmapped : s.pageIsMapped c (vpn miss.virtAddr) with
  | true =>
    have htake := takeMiss_known walk (Or.inr hmapped)
    constructor
    · intro _
      exact Or.inl hmapped
    · intro _
      rw [htake]
      exact Or.inl ⟨pageIsMapped_iff.mp hmapped, rfl⟩
  | false =>
    have hnot : ¬ (c.host (vpn miss.virtAddr) = true ∨ s.Mapped c (vpn miss.virtAddr)) := by
      rw [← pageIsMapped_iff, hmapped]
      exact Bool.false_ne_true
    have hhandles : s.Handles c reports miss walk ↔
        s.pageHasRecentlyBeenMapped (vpn miss.virtAddr) = false ∧
          ∀ e, walk (vpn miss.virtAddr) = .error e → miss.isPrefetch = true ∨ reports e := by
      rw [Handles, hmapped, or_iff_right Bool.false_ne_true]
    rw [hhandles]
    cases hlist : s.pageHasRecentlyBeenMapped (vpn miss.virtAddr) with
    | true =>
      rw [takeMiss_known walk (Or.inl hlist)]
      constructor
      · intro h
        rcases h with hserved | ⟨e, he, -⟩
        · exact absurd hserved.1 hnot
        · cases he
      · intro h
        exact absurd h.1.symm Bool.false_ne_true
    | false =>
      cases hwalk : walk (vpn miss.virtAddr) with
      | error e =>
        have htake := takeMiss_failed hlist hmapped hwalk
        rw [htake] at hret ⊢
        constructor
        · intro h
          rcases h with hserved | ⟨e', he', -, hreports⟩
          · exact absurd hserved.1 hnot
          · refine ⟨rfl, ?_⟩
            intro e'' he''
            cases he'
            cases he''
            exact hreports
        · intro h
          exact Or.inr ⟨e, rfl, hret (.errno e) rfl, h.2 e rfl⟩
      | ok r =>
        rw [takeMiss_mapped hlist hmapped hwalk]
        constructor
        · intro _
          refine ⟨rfl, ?_⟩
          intro e he
          cases he
        · intro _
          refine Or.inl ⟨Or.inr ⟨s.victim c (vpn miss.virtAddr), ?_⟩, rfl⟩
          rw [step_config_serves, if_pos rfl]

theorem takeMiss_fields : (takeMiss c s miss walk).miss = miss ∧ (takeMiss c s miss walk).walk = walk ∧
    (takeMiss c s miss walk).before = s :=
  ⟨rfl, rfl, rfl⟩

/-- Every miss that is taken is one without a sleeping core, or is handled in the state at that time;
an error is the end. -/
theorem handleFifo_taken (n : Nat) (s : VmmState) (fifo : List (RabMiss × PageWalk)) :
    ∀ t ∈ (handleFifo c mht n s fifo).taken, t.NoSleeper mht ∨
      t = takeMiss c t.before t.miss t.walk ∧
        ∀ e, t.ret = .error e → (handleFifo c mht n s fifo).ret = .error e := by
  induction fifo generalizing n s with
  | nil =>
    intro t ht
    cases ht
  | cons m fifo ih =>
    obtain ⟨miss, walk⟩ := m
    rw [handleFifo]
    by_cases hforeign : miss.intraClusterId ≠ 2
    · rw [if_pos hforeign]
      intro t ht
      cases List.mem_singleton.mp ht
      exact Or.inl (Or.inl hforeign)
    · rw [if_neg hforeign]
      by_cases hown : miss.core = mht
      · rw [if_pos hown]
        intro t ht
        rcases List.mem_cons.mp ht with heq | hrest
        · rw [heq]
          exact Or.inl (Or.inr hown)
        · exact ih n s t hrest
      · rw [if_neg hown]
        cases hret : (takeMiss c s miss walk).ret with
        | error e =>
          simp only [hret]
          intro t ht
          cases List.mem_singleton.mp ht
          refine Or.inr ⟨rfl, ?_⟩
          intro e' he'
          exact hret.symm.trans he'
        | ok _ =>
          simp only [hret]
          intro t ht
          rcases List.mem_cons.mp ht with heq | hrest
          · rw [heq]
            refine Or.inr ⟨rfl, ?_⟩
            intro e' he'
            cases hret.symm.trans he'
          · exact ih (n + 1) (takeMiss c s miss walk).after t hrest

/-- What is taken and what remains are the FIFO. -/
theorem handleFifo_behind (n : Nat) (s : VmmState) (fifo : List (RabMiss × PageWalk)) :
    fifo = (handleFifo c mht n s fifo).taken.map (fun t => (t.miss, t.walk)) ++
      (handleFifo c mht n s fifo).fifo := by
  induction fifo generalizing n s with
  | nil => rfl
  | cons m fifo ih =>
    obtain ⟨miss, walk⟩ := m
    rw [handleFifo]
    by_cases hforeign : miss.intraClusterId ≠ 2
    · rw [if_pos hforeign]
      rfl
    · rw [if_neg hforeign]
      by_cases hown : miss.core = mht
      · rw [if_pos hown]
        exact congrArg (List.cons (miss, walk)) (ih n s)
      · rw [if_neg hown]
        cases hret : (takeMiss c s miss walk).ret with
        | error e =>
          simp only [hret]
          rfl
        | ok _ =>
          simp only [hret]
          exact congrArg (List.cons (miss, walk)) (ih (n + 1) (takeMiss c s miss walk).after)

/-- The handler with its FIFO does to the library what the handler on a list of misses does. -/
theorem exec_handleRabMisses (n : Nat) (s : VmmState) (fifo : List (RabMiss × PageWalk)) :
    (vmm c).exec (handleRabMisses c mht n fifo) s =
      ((handleFifo c mht n s fifo).ret, (handleFifo c mht n s fifo).vmm) := by
  induction fifo generalizing n s with
  | nil =>
    rw [handleRabMisses, handleFifo]
    by_cases hn : n > 0
    · rw [if_pos hn, if_pos hn]
      rfl
    · rw [if_neg hn, if_neg hn]
      rfl
  | cons m fifo ih =>
    obtain ⟨miss, walk⟩ := m
    rw [handleRabMisses, handleFifo]
    by_cases hforeign : miss.intraClusterId ≠ 2
    · rw [if_pos hforeign, if_pos hforeign]
      rfl
    · rw [if_neg hforeign, if_neg hforeign]
      by_cases hown : miss.core = mht
      · rw [if_pos hown, if_pos hown]
        exact ih n s
      · rw [if_neg hown, if_neg hown]
        have hone : (vmm c).exec (handleMiss c walk miss) s =
            ((takeMiss c s miss walk).ret, (takeMiss c s miss walk).after) :=
          exec_project (I := vmm c) (J := waking c) Prod.fst (fun _ => rfl) (fun _ _ => rfl)
            (handleMiss c walk miss) (s, [])
        have hbind := exec_bind (I := vmm c) (handleMiss c walk miss)
          (fun _ => handleRabMisses c mht (n + 1) fifo) s
        rw [hone] at hbind
        cases hret : (takeMiss c s miss walk).ret with
        | error e =>
          simp only [hret] at hbind ⊢
          exact hbind
        | ok _ =>
          simp only [hret] at hbind ⊢
          exact hbind.trans (ih (n + 1) (takeMiss c s miss walk).after)

/-- The first miss is handled, if it is one of another core. -/
theorem handleFifo_first (hcore : miss.intraClusterId = 2) (hother : miss.core ≠ mht) :
    takeMiss c s miss walk ∈ (handleFifo c mht n s ((miss, walk) :: fifo)).taken := by
  rw [handleFifo, if_neg (not_not.mpr hcore), if_neg hother]
  cases hret : (takeMiss c s miss walk).ret with
  | error e =>
    simp only [hret]
    exact List.mem_singleton.mpr rfl
  | ok _ =>
    simp only [hret]
    exact List.mem_cons_self

theorem NoneDropped.handles (h : NoneDropped c mht reports s fifo)
    (ht : t ∈ (handleFifo c mht 0 s fifo).taken) :
    t.NoSleeper mht ∨ t.before.Handles c reports t.miss t.walk := by
  rcases h.accounted t ht with hnone | haccounted
  · exact Or.inl hnone
  · rcases handleFifo_taken 0 s fifo t ht with hnone | ⟨heq, hret⟩
    · exact Or.inl hnone
    · rw [heq] at haccounted hret
      exact Or.inr ((takeMiss_accounted_iff hret).mp haccounted)

end

/-- No miss is dropped exactly in the calls in which each miss that is taken from another core finds
its page mapped, or not in the list and such that a failed walk is reported. -/
theorem none_dropped_iff (c : Config) (mht : CoreId) (reports : Errno → Prop) (s : VmmState)
    (fifo : List (RabMiss × PageWalk)) : NoneDropped c mht reports s fifo ↔
      ∀ t ∈ (handleFifo c mht 0 s fifo).taken,
        t.NoSleeper mht ∨ t.before.Handles c reports t.miss t.walk := by
  constructor
  · intro h t ht
    exact h.handles ht
  · intro h
    refine ⟨?_, handleFifo_behind 0 s fifo⟩
    intro t ht
    rcases h t ht with hnone | hhandles
    · exact Or.inl hnone
    · rcases handleFifo_taken 0 s fifo t ht with hnone | ⟨heq, hret⟩
      · exact Or.inl hnone
      · rw [heq] at hret ⊢
        exact Or.inr ((takeMiss_accounted_iff hret).mpr hhandles)

/-- The library after a miss on page one and the mappings that replace its entry. -/
def pageOneReplaced : VmmState :=
  ((vmm shipped).exec (workload shipped missAfterMappings.dropLast) (resetVmm start)).2

private theorem pageOneReplaced_known :
    pageOneReplaced.pageIsMapped shipped (vpn missOne.virtAddr) = false ∧
      pageOneReplaced.pageHasRecentlyBeenMapped (vpn missOne.virtAddr) = true := by
  decide +kernel

/-- The next miss on page one is taken, but the page is not mapped. -/
theorem replaced_page_dropped :
    ¬ NoneDropped shipped ⟨0, 0⟩ (fun _ => True) pageOneReplaced [(missOne, walkOne)] := by
  intro h
  obtain ⟨hmapped, hlist⟩ := pageOneReplaced_known
  rcases h.handles (handleFifo_first rfl (by decide)) with hnone | hhandles
  · revert hnone
    change ¬ (missOne.intraClusterId ≠ 2 ∨ missOne.core = ⟨0, 0⟩)
    decide
  · rcases hhandles with hknown | ⟨hnew, -⟩
    · exact Bool.false_ne_true (hmapped.symm.trans hknown)
    · exact Bool.false_ne_true (hnew.symm.trans hlist)

end Hero.Vmm
