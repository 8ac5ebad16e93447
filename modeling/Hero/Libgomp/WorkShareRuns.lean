import Hero.Libgomp.WorkShareEvents

/-!
# Runs of work-sharing constructs

The chains of the teams share no work share that is in use, and a work share that goes to the pool
is one that no thread will come from.
-/

namespace Hero.Libgomp

open WsData

variable {s s' s₁ : WsData} {h : List WsEvent} {d d' : TeamId} {c : Chain} {pid : Nat} {ws : WsId}
  {mem first : Bool}

namespace WsData

/-- The team runs a parallel region. -/
def Parallel (s : WsData) (d : TeamId) : Prop := (s.team d).running = true ∧ d ≠ masterTeam

/-- A thread that is to enter a construct finds a work share or memory for one. -/
def Enterable (s : WsData) (d : TeamId) (pid : Nat) (mem : Bool) : Prop :=
  d ≠ masterTeam ∧ (mem = true ∨ s.wsPoolList ≠ [] ∨
    ∃ curr, (s.team d).workShare pid = some curr ∧ (s.ws curr).nextWs ≠ none)

theorem ChainOf.inUse_cases (hc : s.ChainOf d c) (hws : s.InUse d c ws) :
    ws = .root d ∨ ∃ n < s.brk, ws = .heap n := by
  obtain ⟨j, hj, -, rfl⟩ := hws
  cases j with
  | zero => exact Or.inl hc.obj_zero
  | succ j => exact Or.inr (hc.heap (j + 1) (by omega) hj)

end WsData

local instance neZeroDescriptors : NeZero 4 := ⟨four_ne_zero⟩

/-- The calls the library handles: the initial thread enters no construct outside a region, memory
is left when the pool is empty, and the work share of descriptor 0, which is not marked as embedded,
does not go to the pool. -/
def WsCallOk (s : WsData) : WsCall → Prop
  | .start _ _ => True
  | .enter d pid mem => s.CanEnter d pid → s.Enterable d pid mem
  | .single d pid mem _ => s.CanEnter d pid → s.Enterable d pid mem ∧
      ¬ (d = 0 ∧ (s.team d).entered pid = 0 ∧ s.OthersLeft d pid 1)
  | .leave d pid _ => s.Inside d pid →
      ¬ (d = 0 ∧ (s.team d).entered pid = 1 ∧ s.OthersLeft d pid 1)
  | .leaveCombined _ _ => True
  | .finish d pid => s.CanFinish d pid → ¬ (d = 0 ∧ (s.team d).entered pid = 0)

/-- The chains of all teams. -/
structure WsInv (s : WsData) (h : List WsEvent) (c : TeamId → Chain) : Prop where
  pool : s.PoolOk
  chain : ∀ d, s.Parallel d → s.ChainOf d (c d)
  disjoint : ∀ d d' ws, d ≠ d' → s.Parallel d → s.Parallel d' → s.InUse d (c d) ws →
    ¬ s.InUse d' (c d') ws
  regionOf : ∀ d, d ≠ masterTeam → RegionOf (s.Passed d) (c d) (region d h)
  no_fault : ∀ d pid, .fault d pid ∉ h
  master_region : region masterTeam h = []
  master_running : (s.team masterTeam).running = true
  master_workShare : ∀ pid, (s.team masterTeam).workShare pid = none
  master_idle : ∀ pid, (s.team masterTeam).entered pid = (s.team masterTeam).left pid

namespace WsInv

variable {c : TeamId → Chain}

theorem sound (hinv : WsInv s h c) : WsSound s h := by
  have hregion : ∀ d e, e ∈ region d h →
      RegionOf (s.Passed d) (c d) (region d h) := by
    intro d e he
    apply hinv.regionOf
    intro hd
    rw [hd, hinv.master_region] at he
    cases he
  -- the event a count stands for
  have hopened : ∀ d i, RegionOf (s.Passed d) (c d) (region d h) → 1 ≤ i →
      i ≤ (c d).last → ∃ pid, .entered d pid i ((c d).obj i) true ∈ region d h := by
    intro d i hr hpos hi
    have hcount := hr.opened_once i hpos hi
    obtain ⟨e, he, hopens⟩ := List.countP_pos_iff.mp (by omega :
      0 < (region d h).countP (WsEvent.opens i))
    have hof := isOf_of_mem_region he
    cases e with
    | entered d' pid j ws first =>
      cases first with
      | false => cases hopens
      | true =>
        have hj : j = i := by simpa [WsEvent.opens] using hopens
        have hd : d' = d := by simpa [WsEvent.isOf] using hof
        subst hj hd
        exact ⟨pid, (hr.entered d' pid j ws true he).2.2 ▸ he⟩
    | _ => cases hopens
  constructor
  case no_fault => exact hinv.no_fault
  case same =>
    intro d pid pid' i ws ws' first first' he he'
    have hr := hregion d _ he
    rw [(hr.entered d pid i ws first he).2.2, (hr.entered d pid' i ws' first' he').2.2]
  case opened_once =>
    intro d pid i ws first he
    have hr := hregion d _ he
    obtain ⟨hpos, hi, -⟩ := hr.entered d pid i ws first he
    exact hr.opened_once i hpos hi
  case returned_passed =>
    intro d i ws he
    have hr := hregion d _ he
    obtain ⟨hpos, hi, rfl, hpassed⟩ := hr.returned d i ws he
    obtain ⟨pid, hopen⟩ := hopened d i hr hpos hi
    exact ⟨hpassed, pid, true, hopen⟩
  case returned_once =>
    intro d i
    by_cases hd : d = masterTeam
    · rw [hd, hinv.master_region]
      exact Nat.zero_le 1
    · have hr := hinv.regionOf d hd
      by_cases hpassed : s.Passed d i ∧ 1 ≤ i ∧ i ≤ (c d).last
      · rw [hr.returned_once i hpassed.2.1 hpassed.2.2 hpassed.1]
      · have hzero : (region d h).countP (WsEvent.returns i) = 0 := by
          rw [List.countP_eq_zero]
          intro e he hreturns
          cases e with
          | returned d' j ws =>
            obtain ⟨hpos, hj, -, hp⟩ := hr.returned d' j ws he
            have hji : j = i := by simpa [WsEvent.returns] using hreturns
            subst hji
            exact hpassed ⟨hp, hpos, hj⟩
          | _ => cases hreturns
        omega
  case returned_of_passed =>
    intro d pid i ws first he hpassed
    have hr := hregion d _ he
    obtain ⟨hpos, hi, hws⟩ := hr.entered d pid i ws first he
    have hcount := hr.returned_once i hpos hi hpassed
    obtain ⟨e, he', hreturns⟩ := List.countP_pos_iff.mp (by omega :
      0 < (region d h).countP (WsEvent.returns i))
    have hof := isOf_of_mem_region he'
    cases e with
    | returned d' j w =>
      have hj : j = i := by simpa [WsEvent.returns] using hreturns
      have hd : d' = d := by simpa [WsEvent.isOf] using hof
      subst hj hd
      rwa [hws, ← (hr.returned d' j w he').2.2.1]
    | _ => cases hreturns
  case pool_nodup => exact hinv.pool.nodup
  case not_embedded =>
    intro d hmem
    obtain ⟨n, -, hn⟩ := hinv.pool.heap _ hmem
    cases hn
  case unused =>
    intro ws hmem d hrunning pid hpid heq
    by_cases hd : d = masterTeam
    · rw [hd, hinv.master_workShare] at heq
      cases heq
    · have hc := hinv.chain d ⟨hrunning, hd⟩
      rw [hc.workShare pid hpid, Option.some.injEq] at heq
      subst heq
      exact hc.unpooled _ (hc.inUse_entered hpid) hmem

/-- A step of team `d` keeps the chains of the others if it does not touch what they use. -/
theorem step (hinv : WsInv s h c) (c₁ : Chain) {es : List WsEvent} (hd : d ≠ masterTeam)
    (hteam : ∀ d' ≠ d, s'.team d' = s.team d') (hpool : s'.PoolOk) (hbrk : s.brk ≤ s'.brk)
    (hother : ∀ d' ≠ d, s.Parallel d' → ∀ w, s.InUse d' (c d') w →
      s'.ws w = s.ws w ∧ w ∉ s'.wsPoolList ∧ (s'.Parallel d → ¬ s'.InUse d c₁ w))
    (hchain : s'.Parallel d → s'.ChainOf d c₁) (hes : OwnEvents d es)
    (hregion : RegionOf (s'.Passed d) c₁ (region d (h ++ es))) :
    ∃ c', WsInv s' (h ++ es) c' := by
  have hparallel : ∀ d' ≠ d, s'.Parallel d' ↔ s.Parallel d' := by
    intro d' hd'
    rw [Parallel, Parallel, hteam d' hd']
  have hupdate : ∀ d' ≠ d, Function.update c d c₁ d' = c d' :=
    fun d' hd' => Function.update_of_ne hd' _ _
  have hinUse : ∀ d' ≠ d, ∀ w, s'.InUse d' (c d') w ↔ s.InUse d' (c d') w :=
    fun d' hd' w => inUse_congr (hteam d' hd')
  refine ⟨Function.update c d c₁, ?_⟩
  constructor
  case pool => exact hpool
  case chain =>
    intro d' hp
    by_cases hd' : d' = d
    · subst hd'
      rw [Function.update_self]
      exact hchain hp
    · rw [hparallel d' hd'] at hp
      rw [hupdate d' hd']
      exact (hinv.chain d' hp).frame (hteam d' hd') (fun w hw => (hother d' hd' hp w hw).1) hbrk
        fun w hw => (hother d' hd' hp w hw).2.1
  case disjoint =>
    intro d' d'' w hne hp hp' hw hw'
    by_cases hd' : d' = d
    · subst hd'
      rw [Function.update_self] at hw
      rw [hupdate d'' hne.symm, hinUse d'' hne.symm] at hw'
      rw [hparallel d'' hne.symm] at hp'
      exact (hother d'' hne.symm hp' w hw').2.2 hp hw
    · rw [hupdate d' hd', hinUse d' hd'] at hw
      rw [hparallel d' hd'] at hp
      by_cases hd'' : d'' = d
      · subst hd''
        rw [Function.update_self] at hw'
        exact (hother d' hd' hp w hw).2.2 hp' hw'
      · rw [hupdate d'' hd'', hinUse d'' hd''] at hw'
        rw [hparallel d'' hd''] at hp'
        exact hinv.disjoint d' d'' w hne hp hp' hw hw'
  case regionOf =>
    intro d' hd'm
    by_cases hd' : d' = d
    · subst hd'
      rw [Function.update_self]
      exact hregion
    · rw [hupdate d' hd', hes.region_ne hd']
      apply (hinv.regionOf d' hd'm).congr
      intro i _ _
      rw [Passed, Passed, hteam d' hd']
  case no_fault =>
    intro d' pid hmem
    obtain hmem | hmem := List.mem_append.mp hmem
    · exact hinv.no_fault d' pid hmem
    · exact (hes _ hmem).2 d' pid rfl
  case master_region => rw [hes.region_ne hd.symm, hinv.master_region]
  case master_running => rw [hteam _ hd.symm, hinv.master_running]
  case master_workShare =>
    rw [hteam _ hd.symm]
    exact hinv.master_workShare
  case master_idle =>
    rw [hteam _ hd.symm]
    exact hinv.master_idle

theorem linked_pool (hinv : WsInv s h c) {curr : WsId} (hl : s.Linked d pid curr ws s₁) :
    s₁.PoolOk where
  nodup := hl.pool_nodup
  heap := by
    intro w hw
    obtain ⟨n, hn, heq⟩ := hinv.pool.heap w (hl.pool_subset w hw)
    exact ⟨n, hn.trans_le hl.brk_le, heq⟩
  embedded_root := by
    intro d'
    obtain ⟨n, -, hn⟩ := hl.toTaken.heap
    by_cases hcurr : .root d' = curr
    · rw [hcurr, hl.curr, ← hcurr]
      exact hinv.pool.embedded_root d'
    · rw [hl.ws_ne _ (by simp [hn]) hcurr, hinv.pool.embedded_root]
  embedded_heap := by
    intro n
    by_cases hws : .heap n = ws
    · rw [hws, hl.new]
    · by_cases hcurr : .heap n = curr
      · rw [hcurr, hl.curr, ← hcurr]
        exact hinv.pool.embedded_heap n
      · rw [hl.ws_ne _ hws hcurr, hinv.pool.embedded_heap]

/-- A thread enters a construct. -/
theorem enter (hinv : WsInv s h c) (hp : s.Parallel d) (hcan : s.CanEnter d pid)
    (hstart : gompWorkShareStart d pid mem s = some (ws, first, s₁)) :
    s.Entered d pid ws (s₁.enters d pid) ∧ ∃ c', WsInv (s₁.enters d pid)
      (h ++ [.entered d pid ((s.team d).entered pid + 1) ws first]) c' := by
  obtain ⟨hrunning, hpid, hbetween, -⟩ := hcan
  have hc := hinv.chain d hp
  have hr := hinv.regionOf d hp.2
  have hwork := hc.workShare pid hpid
  have hheld := hc.held_entered hpid
  have hof : (WsEvent.entered d pid ((s.team d).entered pid + 1) ws first).isOf d = true := by
    simp [WsEvent.isOf]
  have hle := hc.entered_le pid hpid
  by_cases hlt : (s.team d).entered pid < (c d).last
  · rw [gompWorkShareStart_of_next hwork (hc.nextWs _ hlt hheld), Option.some.injEq, Prod.mk.injEq,
      Prod.mk.injEq] at hstart
    obtain ⟨rfl, rfl, rfl⟩ := hstart
    have hentered : s.Entered d pid ((c d).obj ((s.team d).entered pid + 1))
        ((s.setWorkShare d pid ((c d).obj ((s.team d).entered pid + 1))).enters d pid) :=
      entered_of_team rfl
    have hchain := hc.follow hpid hbetween hlt hentered rfl rfl rfl
    refine ⟨hentered, hinv.step (c d) hp.2 hentered.team_ne ?_ (Nat.le_refl _) ?_
      (fun _ => hchain) OwnEvents.entered ?_⟩
    · exact ⟨hinv.pool.nodup, hinv.pool.heap, hinv.pool.embedded_root, hinv.pool.embedded_heap⟩
    · intro d' hd' hp' w hw
      refine ⟨rfl, (hinv.chain d' hp').unpooled w hw, ?_⟩
      intro _ hw'
      refine hinv.disjoint d' d w hd' hp' hp hw ?_
      simpa only [InUse, hentered.held_iff] using hw'
    · rw [region_append_of hof]
      apply (hr.follow (by omega) (by omega)).congr
      intro i _ _
      exact hentered.passed_iff
  · have hlast : (s.team d).entered pid = (c d).last := by omega
    rw [hlast] at hwork
    have hcurr : s.InUse d (c d) ((c d).obj (c d).last) :=
      ⟨_, Nat.le_refl _, hc.held_last, rfl⟩
    obtain ⟨rfl, hl⟩ := hinv.pool.linked hwork hc.nextWs_last (hc.unpooled _ hcurr)
      (fun n hn => hc.heap_lt hcurr hn) hstart
    have hentered : s.Entered d pid ws (s₁.enters d pid) := entered_of_team hl.team
    have hchain := hc.extend hpid hbetween hlast hentered hl rfl rfl rfl
    refine ⟨hentered, hinv.step ((c d).extend ws) hp.2 hentered.team_ne ?_ hl.brk_le ?_
      (fun _ => hchain) OwnEvents.entered ?_⟩
    · have hpool := hinv.linked_pool hl
      exact ⟨hpool.nodup, hpool.heap, hpool.embedded_root, hpool.embedded_heap⟩
    · intro d' hd' hp' w hw
      have hc' := hinv.chain d' hp'
      have hne : w ≠ ws := by
        intro heq
        exact hc'.not_inUse_of_linked hl (heq ▸ hw)
      have hnecurr : w ≠ (c d).obj (c d).last := by
        intro heq
        exact hinv.disjoint d' d w hd' hp' hp hw (heq ▸ hcurr)
      refine ⟨hl.ws_ne w hne hnecurr, ?_, ?_⟩
      · intro hmem
        exact hc'.unpooled w hw (hl.pool_subset w hmem)
      · intro _ hw'
        obtain rfl | hw' := hentered.inUse_extend hw'
        · exact hne rfl
        · exact hinv.disjoint d' d w hd' hp' hp hw hw'
    · rw [region_append_of hof, hlast]
      have hnot : ¬ s.Passed d ((c d).last + 1) := by
        intro hpassed
        have := hpassed hrunning pid hpid
        omega
      apply (hr.extend hnot).congr
      intro i _ _
      exact hentered.passed_iff

/-- A thread leaves a construct, and the work share before it may go to the pool. -/
theorem leave (hinv : WsInv s h c) (hp : s.Parallel d) (hinside : s.Inside d pid)
    (hok : ¬ (d = 0 ∧ (s.team d).entered pid = 1 ∧ s.OthersLeft d pid 1)) (wait : Bool) :
    ∃ s₁ returned, gompWorkShareEndNowait d pid s = some (s₁, returned) ∧
      ∃ c', WsInv (s₁.leaves d pid wait)
        (h ++ returnedEvent d ((s.team d).left pid) returned) c' := by
  obtain ⟨hrunning, hpid, hentered⟩ := hinside
  have hc := hinv.chain d hp
  have hr := hinv.regionOf d hp.2
  obtain ⟨s₁, returned, hend, hout⟩ := hc.countedOut hinv.pool hpid hentered
  have hleft : s.Left d pid (s₁.leaves d pid wait) := left_of_team hout.team wait
  have hchain := hc.leave hpid hentered hleft hout rfl rfl rfl
  have hle := hc.entered_le pid hpid
  have hsub : (s.team d).entered pid - 1 = (s.team d).left pid := by omega
  have hbefore : s.InUse d (c d) ((c d).obj ((s.team d).entered pid - 1)) :=
    ⟨_, by omega, ⟨pid, hpid, by omega⟩, rfl⟩
  have hobj : s.InUse d (c d) ((c d).obj ((s.team d).entered pid)) := hc.inUse_entered hpid
  have hpool : returned = none ∧ s₁.wsPoolList = s.wsPoolList ∧
      ((s.team d).entered pid = 1 ∨ ¬ s.OthersLeft d pid ((s.team d).entered pid)) ∨
      returned = some ((c d).obj ((s.team d).left pid)) ∧
        s₁.wsPoolList = (c d).obj ((s.team d).left pid) :: s.wsPoolList ∧
        s.OthersLeft d pid ((s.team d).entered pid) ∧ 2 ≤ (s.team d).entered pid := by
    rw [← hsub]
    obtain ⟨hnone, hsame, hwhy⟩ | ⟨hsome, hpush, hothers, hwhy⟩ := hout.pool
    · exact Or.inl ⟨hnone, hsame, hwhy.imp_left fun hone => hone.1⟩
    · refine Or.inr ⟨hsome, hpush, hothers, ?_⟩
      by_contra hlt
      have hone : (s.team d).entered pid = 1 := by omega
      exact hok ⟨hwhy.resolve_left hlt, hone, hone ▸ hothers⟩
  rw [hsub] at hbefore
  refine ⟨s₁, returned, hend, ?_⟩
  refine hinv.step (c d) hp.2 hleft.team_ne ?_ hout.brk.ge ?_ (fun _ => hchain)
    (OwnEvents.returned returned) ?_
  · have hembedded : ∀ w, (s₁.ws w).embedded = (s.ws w).embedded := by
      intro w
      by_cases hw : w = (c d).obj ((s.team d).entered pid)
      · rw [hw, hout.ws_obj]
      · rw [hout.ws_ne w hw]
    constructor
    case embedded_root => exact fun d' => (hembedded _).trans (hinv.pool.embedded_root d')
    case embedded_heap => exact fun n => (hembedded _).trans (hinv.pool.embedded_heap n)
    case nodup =>
      change s₁.wsPoolList.Nodup
      obtain ⟨-, hsame, -⟩ | ⟨-, hpush, -, -⟩ := hpool
      · rw [hsame]
        exact hinv.pool.nodup
      · rw [hpush, List.nodup_cons]
        exact ⟨hc.unpooled _ hbefore, hinv.pool.nodup⟩
    case heap =>
      intro w hw
      change w ∈ s₁.wsPoolList at hw
      change ∃ n < s₁.brk, w = .heap n
      rw [hout.brk]
      obtain ⟨-, hsame, -⟩ | ⟨-, hpush, -, htwo⟩ := hpool
      · exact hinv.pool.heap w (hsame ▸ hw)
      · rw [hpush, List.mem_cons] at hw
        obtain rfl | hw := hw
        · exact hc.heap _ (by omega) (by omega)
        · exact hinv.pool.heap w hw
  · intro d' hd' hp' w hw
    have hc' := hinv.chain d' hp'
    refine ⟨hout.ws_ne w ?_, ?_, ?_⟩
    · intro heq
      exact hinv.disjoint d' d w hd' hp' hp hw (heq ▸ hobj)
    · change w ∉ s₁.wsPoolList
      obtain ⟨-, hsame, -⟩ | ⟨-, hpush, -, -⟩ := hpool
      · rw [hsame]
        exact hc'.unpooled w hw
      · rw [hpush, List.mem_cons, not_or]
        refine ⟨?_, hc'.unpooled w hw⟩
        intro heq
        exact hinv.disjoint d' d w hd' hp' hp hw (heq ▸ hbefore)
    · intro _ hw'
      exact hinv.disjoint d' d w hd' hp' hp hw (hleft.inUse hw')
  · rw [region_append_returned]
    have hiff := fun i => hleft.passed_iff hrunning hpid (i := i)
    obtain ⟨hnone, -, hwhy⟩ | ⟨hsome, -, hothers, htwo⟩ := hpool
    · rw [hnone, returnedEvent, List.append_nil]
      apply hr.congr
      intro i hpos _
      rw [hiff, or_iff_left]
      intro hlast
      obtain ⟨hi, hothers⟩ := hlast
      obtain hone | hnot := hwhy
      · omega
      · apply hnot
        rw [hentered, ← hi]
        exact hothers
    · rw [hsome, returnedEvent]
      apply hr.passes (by omega) (by omega)
      · intro hpassed
        have := hpassed hrunning pid hpid
        omega
      · intro i _ _
        rw [hiff]
        refine or_congr_right (and_iff_left_of_imp ?_)
        intro hi
        rw [hi, ← hentered]
        exact hothers

/-- A region starts with the work share of its team. -/
theorem start (hinv : WsInv s h c) {threads : Finset Nat} (hstopped : (s.team d).running = false)
    (hthreads : threads.Nonempty) :
    ∃ c', WsInv (gompTeamStartWs d threads s) (h ++ [.started d]) c' := by
  have hd : d ≠ masterTeam := by
    intro heq
    rw [heq, hinv.master_running] at hstopped
    cases hstopped
  have hws_ne : ∀ w, w ≠ .root d → (gompTeamStartWs d threads s).ws w = s.ws w := by
    intro w hw
    simp [gompTeamStartWs, modifyWs, modifyTeam, hw]
  have hroot : (gompTeamStartWs d threads s).ws (.root d) =
      { s.ws (.root d) with nextWs := none, prevWs := none } := by
    simp [gompTeamStartWs, modifyWs, modifyTeam]
  have hteam : (gompTeamStartWs d threads s).team d =
      { running := true, threads := threads, nthreads := threads.card,
        workShare := fun pid => if pid ∈ threads then some (.root d) else (s.team d).workShare pid,
        entered := fun _ => 0, left := fun _ => 0, waits := fun _ => false } := by
    simp [gompTeamStartWs, modifyWs, modifyTeam]
  have hinUse : ∀ w, (gompTeamStartWs d threads s).InUse d ⟨fun _ => .root d, 0⟩ w →
      w = .root d := by
    intro w hw
    obtain ⟨j, -, -, rfl⟩ := hw
    rfl
  have hrootPool : WsId.root d ∉ s.wsPoolList := by
    intro hmem
    obtain ⟨n, -, hn⟩ := hinv.pool.heap _ hmem
    cases hn
  refine hinv.step (d := d) ⟨fun _ => .root d, 0⟩ hd ?_ ?_ (Nat.le_refl _) ?_ ?_
    OwnEvents.started ?_
  · intro d' hd'
    simp [gompTeamStartWs, modifyWs, modifyTeam, hd']
  · constructor
    case nodup => exact hinv.pool.nodup
    case heap => exact hinv.pool.heap
    case embedded_root =>
      intro d'
      by_cases hd' : d' = d
      · rw [hd', hroot]
        exact hinv.pool.embedded_root d
      · rw [hws_ne _ (by simp [hd']), hinv.pool.embedded_root]
    case embedded_heap =>
      intro n
      rw [hws_ne _ (by simp), hinv.pool.embedded_heap]
  · intro d' hd' hp' w hw
    have hc' := hinv.chain d' hp'
    have hne : w ≠ .root d := by
      intro heq
      obtain hw' | ⟨n, -, hw'⟩ := hc'.inUse_cases hw
      · rw [heq] at hw'
        cases hw'
        exact hd' rfl
      · rw [heq] at hw'
        cases hw'
    exact ⟨hws_ne w hne, hc'.unpooled w hw, fun _ hw' => hne (hinUse w hw')⟩
  · intro _
    constructor
    case nthreads => rw [hteam]
    case top =>
      obtain ⟨pid, hpid⟩ := hthreads
      exact ⟨pid, by rwa [hteam], by rw [hteam]⟩
    case workShare =>
      intro pid hpid
      rw [hteam] at hpid ⊢
      exact if_pos hpid
    case nextWs_last => rw [hroot]
    case prevWs_zero =>
      intro _
      rw [hroot]
    case inj =>
      intro j k hj hk _ _ _
      rw [Nat.le_zero.mp hj, Nat.le_zero.mp hk]
    case unpooled =>
      intro w hw
      rw [hinUse w hw]
      exact hrootPool
    case obj_zero => rfl
    case nextWs => exact fun j hj => absurd hj (Nat.not_lt_zero j)
    case prevWs => exact fun j hj => absurd hj (Nat.not_lt_zero j)
    case completed => exact fun j hpos hj => absurd (hpos.trans hj) (Nat.not_succ_le_zero 0)
    case heap => exact fun j hpos hj => absurd (hpos.trans hj) (Nat.not_succ_le_zero 0)
    all_goals simp [hteam]
  · rw [region_append, if_pos rfl]
    constructor
    case entered => exact fun _ _ _ _ _ he => by cases he
    case returned => exact fun _ _ _ he => by cases he
    case opened_once => exact fun i hpos hi => absurd (hpos.trans hi) (Nat.not_succ_le_zero 0)
    case returned_once => exact fun i hpos hi => absurd (hpos.trans hi) (Nat.not_succ_le_zero 0)

/-- The end of a combined construct only counts on the work share of the team. -/
theorem leaveCombined (hinv : WsInv s h c) (hinside : s.InsideCombined d pid) :
    ∃ s₁, gompWorkShareEndNowait d pid s = some (s₁, none) ∧ ∃ c', WsInv s₁ h c' := by
  obtain ⟨hd, hrunning, hpid, hentered⟩ := hinside
  have hp : s.Parallel d := ⟨hrunning, hd⟩
  have hc := hinv.chain d hp
  have hwork := hc.workShare pid hpid
  have hleft := hc.left_le pid hpid
  have hheld : s.Held d 0 := ⟨pid, hpid, by omega⟩
  rw [hentered, hc.obj_zero] at hwork
  have hprev := hc.prevWs_zero hheld
  rw [hc.obj_zero] at hprev
  have hother : ∀ d' ≠ d, s.Parallel d' → ∀ w, s.InUse d' (c d') w → w ≠ .root d := by
    intro d' hd' hp' w hw heq
    obtain hw' | ⟨n, -, hw'⟩ := (hinv.chain d' hp').inUse_cases hw
    · rw [heq] at hw'
      cases hw'
      exact hd' rfl
    · rw [heq] at hw'
      cases hw'
  refine ⟨s.modifyWs (.root d) fun w => { w with completed := w.completed + 1 }, ?_, ?_⟩
  · simp [gompWorkShareEndNowait, hwork, modifyWs, hprev]
  · have hws_ne : ∀ w, w ≠ .root d → (s.modifyWs (.root d) fun w =>
        { w with completed := w.completed + 1 }).ws w = s.ws w := by
      intro w hw
      simp [modifyWs, hw]
    have hroot : (s.modifyWs (.root d) fun w => { w with completed := w.completed + 1 }).ws
        (.root d) = { s.ws (.root d) with completed := (s.ws (.root d)).completed + 1 } := by
      simp [modifyWs]
    have hlink : ∀ w, ((s.modifyWs (.root d) fun w => { w with completed := w.completed + 1 }).ws
        w).nextWs = (s.ws w).nextWs ∧ ((s.modifyWs (.root d) fun w =>
        { w with completed := w.completed + 1 }).ws w).prevWs = (s.ws w).prevWs := by
      intro w
      by_cases hw : w = .root d
      · rw [hw, hroot]
        exact ⟨rfl, rfl⟩
      · rw [hws_ne w hw]
        exact ⟨rfl, rfl⟩
    have hes : OwnEvents d [] := fun e he => by cases he
    rw [← List.append_nil h]
    refine hinv.step (c d) hd (fun _ _ => rfl) ?_ (Nat.le_refl _) ?_ ?_ hes ?_
    · constructor
      case nodup => exact hinv.pool.nodup
      case heap => exact hinv.pool.heap
      case embedded_root =>
        intro d'
        by_cases hd' : d' = d
        · rw [hd', hroot]
          exact hinv.pool.embedded_root d
        · rw [hws_ne _ (by simp [hd']), hinv.pool.embedded_root]
      case embedded_heap =>
        intro n
        rw [hws_ne _ (by simp), hinv.pool.embedded_heap]
    · intro d' hd' hp' w hw
      refine ⟨hws_ne w (hother d' hd' hp' w hw), (hinv.chain d' hp').unpooled w hw, ?_⟩
      exact fun _ hw' => hinv.disjoint d' d w hd' hp' hp hw hw'
    · intro _
      constructor
      case nextWs =>
        intro j hj hheld
        rw [(hlink _).1]
        exact hc.nextWs j hj hheld
      case nextWs_last =>
        rw [(hlink _).1]
        exact hc.nextWs_last
      case prevWs =>
        intro j hj hheld
        rw [(hlink _).2]
        exact hc.prevWs j hj hheld
      case prevWs_zero =>
        intro hheld
        rw [(hlink _).2]
        exact hc.prevWs_zero hheld
      case completed =>
        intro j hpos hj hheld
        obtain ⟨n, -, hn⟩ := hc.heap j hpos hj
        rw [hws_ne _ (by simp [hn])]
        exact hc.completed j hpos hj hheld
      case nthreads => exact hc.nthreads
      case obj_zero => exact hc.obj_zero
      case left_le => exact hc.left_le
      case entered_le_left => exact hc.entered_le_left
      case entered_le => exact hc.entered_le
      case top => exact hc.top
      case workShare => exact hc.workShare
      case heap => exact hc.heap
      case inj => exact hc.inj
      case unpooled => exact hc.unpooled
    · rw [List.append_nil]
      exact hinv.regionOf d hd

/-- A region ends, and its last work share goes to the pool. -/
theorem finish (hinv : WsInv s h c) (hfinish : s.CanFinish d pid)
    (hok : ¬ (d = 0 ∧ (s.team d).entered pid = 0)) :
    ∃ s₁ returned, gompTeamEndWs d pid s = some (s₁, returned) ∧
      ∃ c', WsInv s₁ (h ++ returnedEvent d ((s.team d).entered pid) returned) c' := by
  obtain ⟨hd, hrunning, hpid, hall⟩ := hfinish
  have hp : s.Parallel d := ⟨hrunning, hd⟩
  have hc := hinv.chain d hp
  have hr := hinv.regionOf d hd
  have hwork := hc.workShare pid hpid
  have hinUse := hc.inUse_entered hpid
  have hlast : (s.team d).entered pid = (c d).last := by
    obtain ⟨u, hu, htop⟩ := hc.top
    rw [← (hall u hu).1, htop]
  have hnot : ¬ s.Passed d (c d).last := by
    intro hpassed
    have := hpassed hrunning pid hpid
    have := (hall pid hpid).2
    omega
  have hpassed : ∀ i, i < (c d).last → s.Passed d i := by
    intro i hi _ u hu
    have := (hall u hu).2
    omega
  rw [hlast] at hwork hinUse hok ⊢
  -- what is left to show of each of the two cases
  have hstep : ∀ s₁ returned, s₁.ws = s.ws → s₁.brk = s.brk →
      s₁.team = (s.modifyTeam d fun team => { team with running := false }).team →
      (returned = none ∧ s₁.wsPoolList = s.wsPoolList ∧ (c d).last = 0 ∨
        returned = some ((c d).obj (c d).last) ∧
          s₁.wsPoolList = (c d).obj (c d).last :: s.wsPoolList ∧ 1 ≤ (c d).last) →
      ∃ c', WsInv s₁ (h ++ returnedEvent d (c d).last returned) c' := by
    intro s₁ returned hws hbrk hteam hpool
    have hstopped : (s₁.team d).running = false := by
      rw [hteam]
      simp [modifyTeam]
    have hpassed₁ : ∀ i, s₁.Passed d i := by
      intro i hrun
      rw [hstopped] at hrun
      cases hrun
    have hnotParallel : ¬ s₁.Parallel d := by
      intro hp₁
      rw [Parallel, hstopped] at hp₁
      cases hp₁.1
    refine hinv.step (c d) hd ?_ ?_ hbrk.ge ?_ (fun hp₁ => absurd hp₁ hnotParallel)
      (OwnEvents.returned returned) ?_
    · intro d' hd'
      rw [hteam]
      simp [modifyTeam, hd']
    · constructor
      case nodup =>
        obtain ⟨-, hsame, -⟩ | ⟨-, hpush, -⟩ := hpool
        · rw [hsame]
          exact hinv.pool.nodup
        · rw [hpush, List.nodup_cons]
          exact ⟨hc.unpooled _ hinUse, hinv.pool.nodup⟩
      case heap =>
        intro w hw
        rw [hbrk]
        obtain ⟨-, hsame, -⟩ | ⟨-, hpush, hpos⟩ := hpool
        · exact hinv.pool.heap w (hsame ▸ hw)
        · rw [hpush, List.mem_cons] at hw
          obtain rfl | hw := hw
          · exact hc.heap _ hpos (Nat.le_refl _)
          · exact hinv.pool.heap w hw
      case embedded_root =>
        rw [hws]
        exact hinv.pool.embedded_root
      case embedded_heap =>
        rw [hws]
        exact hinv.pool.embedded_heap
    · intro d' hd' hp' w hw
      refine ⟨by rw [hws], ?_, fun hp₁ => absurd hp₁ hnotParallel⟩
      have hunpooled := (hinv.chain d' hp').unpooled w hw
      obtain ⟨-, hsame, -⟩ | ⟨-, hpush, -⟩ := hpool
      · rwa [hsame]
      · rw [hpush, List.mem_cons, not_or]
        refine ⟨?_, hunpooled⟩
        intro heq
        exact hinv.disjoint d' d w hd' hp' hp hw (heq ▸ hinUse)
    · rw [region_append_returned]
      obtain ⟨hnone, -, hzero⟩ | ⟨hsome, -, hpos⟩ := hpool
      · rw [hnone, returnedEvent, List.append_nil]
        apply hr.congr
        intro i hpos hi
        omega
      · rw [hsome, returnedEvent]
        apply hr.passes hpos (Nat.le_refl _) hnot
        intro i _ hi
        have hor : s.Passed d i ∨ i = (c d).last := by
          obtain hlt | heq := Nat.lt_or_eq_of_le hi
          · exact Or.inl (hpassed i hlt)
          · exact Or.inr heq
        exact ⟨fun _ => hor, fun _ => hpassed₁ i⟩
  by_cases hzero : (c d).last = 0
  · have hembedded : (s.ws ((c d).obj (c d).last)).embedded = true := by
      rw [hzero, hc.obj_zero, hinv.pool.embedded_root]
      simp [Fin.one_le_of_ne_zero fun hd0 => hok ⟨hd0, hzero⟩]
    refine ⟨_, _, by
      simp only [gompTeamEndWs, hwork, gompFreeWorkShare, hembedded, if_true, Option.bind_eq_bind,
        Option.bind_some, Option.pure_def]
      rfl, ?_⟩
    exact hstep _ none rfl rfl rfl (Or.inl ⟨rfl, rfl, hzero⟩)
  · have hembedded : (s.ws ((c d).obj (c d).last)).embedded = false := by
      obtain ⟨n, -, hn⟩ := hc.heap (c d).last (by omega) (Nat.le_refl _)
      rw [hn, hinv.pool.embedded_heap]
    refine ⟨_, _, by
      simp only [gompTeamEndWs, hwork, gompFreeWorkShare, hembedded, Bool.false_eq_true, if_false,
        Option.bind_eq_bind, Option.bind_some, Option.pure_def]
      rfl, ?_⟩
    exact hstep _ (some _) rfl rfl rfl (Or.inr ⟨rfl, rfl, by omega⟩)

end WsInv

/-! ## Singles -/

theorem gompSingleStart_eq (hstart : gompWorkShareStart d pid mem s = some (ws, first, s₁))
    (hwork : (s₁.team d).workShare pid = some ws) (hprev : (s₁.ws ws).prevWs ≠ none) :
    gompSingleStart d pid mem s =
      (gompWorkShareEndNowait d pid s₁).map fun r => (ws, first, r.1, r.2) := by
  obtain ⟨prev, hprev⟩ := Option.ne_none_iff_exists'.mp hprev
  have hprev' : ((s₁.modifyWs ws fun w => { w with completed := w.completed + 1 }).ws
      ws).prevWs = some prev := by
    simp [modifyWs, hprev]
  simp only [gompSingleStart, gompWorkShareEndNowait, hstart, hwork, hprev', Option.bind_eq_bind,
    Option.bind_some, Option.pure_def]
  split <;> rfl

theorem gompSingleStart_of_none (hstart : gompWorkShareStart d pid mem s = none) :
    gompSingleStart d pid mem s = none := by
  simp [gompSingleStart, hstart]

/-- The count of a thread does not depend on how many constructs it has entered. -/
theorem gompWorkShareEndNowait_enters : gompWorkShareEndNowait d pid (s.enters d pid) =
    (gompWorkShareEndNowait d pid s).map fun r => (r.1.enters d pid, r.2) := by
  cases hwork : (s.team d).workShare pid with
  | none => simp [gompWorkShareEndNowait, enters, modifyTeam, hwork]
  | some w =>
    simp only [gompWorkShareEndNowait, enters, modifyTeam, modifyWs, Function.update_self, hwork,
      Option.bind_eq_bind, Option.bind_some, Option.pure_def]
    by_cases hlast : (s.ws w).completed + 1 = (s.team d).nthreads
    · simp only [hlast, if_true]
      cases (s.ws w).prevWs with
      | none => rfl
      | some prev =>
        simp only [gompFreeWorkShare, gompPushWsPool, Option.map_some]
        split <;> rfl
    · simp only [hlast, if_false, Option.map_some]

namespace WsInv

variable {c : TeamId → Chain}

/-- A thread that has entered a construct is in it. -/
theorem inside_of_entered (h : s.Entered d pid ws s') (hcan : s.CanEnter d pid) :
    s'.Inside d pid := by
  obtain ⟨hrunning, hpid, hbetween, -⟩ := hcan
  exact ⟨h.running ▸ hrunning, h.threads ▸ hpid, by rw [h.entered_pid, h.left, hbetween]⟩

theorem parallel_of_entered (h : s.Entered d pid ws s') (hp : s.Parallel d) : s'.Parallel d :=
  ⟨h.running ▸ hp.1, hp.2⟩

theorem othersLeft_of_entered (h : s.Entered d pid ws s') {e : Nat} :
    s'.OthersLeft d pid e ↔ s.OthersLeft d pid e := by
  rw [OthersLeft, OthersLeft, h.threads, h.left]

/-- A single is a construct that is entered and left at once. -/
theorem single_eq (hinv : WsInv s h c) (hp : s.Parallel d) (hcan : s.CanEnter d pid)
    (hstart : gompWorkShareStart d pid mem s = some (ws, first, s₁)) {s₂ : WsData}
    {returned : Option WsId}
    (hend : gompWorkShareEndNowait d pid (s₁.enters d pid) = some (s₂, returned)) :
    ∃ s₃, gompSingleStart d pid mem s = some (ws, first, s₃, returned) ∧
      s₃.enters d pid = s₂ := by
  obtain ⟨hentered, c', hinv'⟩ := hinv.enter hp hcan hstart
  have hc := hinv'.chain d (parallel_of_entered hentered hp)
  have hpid : pid ∈ ((s₁.enters d pid).team d).threads := hentered.threads ▸ hcan.2.1
  have hwork : ((s₁.enters d pid).team d).workShare pid = some ws := hentered.workShare_pid
  have hobj : ws = (c' d).obj (((s₁.enters d pid).team d).entered pid) := by
    have := hc.workShare pid hpid
    rw [hwork, Option.some.injEq] at this
    exact this
  have hle := hc.entered_le pid hpid
  have hheld := hc.held_entered hpid
  rw [hentered.entered_pid] at hobj hle hheld
  have hprev := hc.prevWs _ hle hheld
  rw [← hobj] at hprev
  have hwork₁ : (s₁.team d).workShare pid = some ws := by
    simpa [enters, modifyTeam] using hwork
  have hprev₁ : (s₁.ws ws).prevWs ≠ none := by
    change (s₁.ws ws).prevWs = _ at hprev
    rw [hprev]
    exact Option.some_ne_none _
  rw [gompSingleStart_eq hstart hwork₁ hprev₁]
  rw [gompWorkShareEndNowait_enters] at hend
  obtain ⟨⟨s₃, r⟩, hs₃, heq⟩ := Option.map_eq_some_iff.mp hend
  cases heq
  exact ⟨s₃, by rw [hs₃, Option.map_some], rfl⟩

theorem single (hinv : WsInv s h c) (hp : s.Parallel d) (hcan : s.CanEnter d pid)
    (hstart : gompWorkShareStart d pid mem s = some (ws, first, s₁))
    (hok : ¬ (d = 0 ∧ (s.team d).entered pid = 0 ∧ s.OthersLeft d pid 1)) (wait : Bool) :
    ∃ s₃ returned, gompSingleStart d pid mem s = some (ws, first, s₃, returned) ∧
      ∃ c', WsInv ((s₃.enters d pid).leaves d pid wait)
        (h ++ .entered d pid ((s.team d).entered pid + 1) ws first ::
          returnedEvent d ((s.team d).entered pid) returned) c' := by
  obtain ⟨hentered, c', hinv'⟩ := hinv.enter hp hcan hstart
  have hok' : ¬ (d = 0 ∧ ((s₁.enters d pid).team d).entered pid = 1 ∧
      (s₁.enters d pid).OthersLeft d pid 1) := by
    rw [hentered.entered_pid, othersLeft_of_entered hentered, Nat.add_eq_right]
    exact hok
  obtain ⟨s₂, returned, hend, c'', hinv''⟩ := hinv'.leave (parallel_of_entered hentered hp)
    (inside_of_entered hentered hcan) hok' wait
  obtain ⟨s₃, hsingle, rfl⟩ := hinv.single_eq hp hcan hstart hend
  refine ⟨s₃, returned, hsingle, c'', ?_⟩
  rwa [hentered.left, hcan.2.2.1, List.append_assoc] at hinv''

/-! ## Steps that are not handled -/

theorem fault_not_sound {es : List WsEvent} (hfault : .fault d pid ∈ es) :
    ¬ WsSound s (h ++ es) := by
  intro hsound
  exact hsound.no_fault d pid (List.mem_append_right h hfault)

theorem workShareStart_eq_none (hinv : WsInv s h c) (hcan : s.CanEnter d pid)
    (hnot : ¬ s.Enterable d pid mem) : gompWorkShareStart d pid mem s = none := by
  by_cases hd : d = masterTeam
  · simp [gompWorkShareStart, hd, hinv.master_workShare]
  · have hc := hinv.chain d ⟨hcan.1, hd⟩
    have hwork := hc.workShare pid hcan.2.1
    rw [Enterable, not_and] at hnot
    have hempty := hnot hd
    simp only [not_or, not_exists, not_and, not_not] at hempty
    obtain ⟨hmem, hlist, hnext⟩ := hempty
    simp [gompWorkShareStart, hwork, hnext _ hwork, gompNewWorkShare, allocWorkShare, hlist, hmem]

theorem exists_workShareStart (hinv : WsInv s h c) (hcan : s.CanEnter d pid)
    (henter : s.Enterable d pid mem) :
    ∃ ws first s₁, gompWorkShareStart d pid mem s = some (ws, first, s₁) := by
  have hc := hinv.chain d ⟨hcan.1, henter.1⟩
  have hwork := hc.workShare pid hcan.2.1
  have hmem : mem = true ∨ s.wsPoolList ≠ [] ∨
      (s.ws ((c d).obj ((s.team d).entered pid))).nextWs ≠ none := by
    refine henter.2.imp_right (Or.imp_right ?_)
    intro hnext
    obtain ⟨curr, hcurr, hne⟩ := hnext
    rw [hwork, Option.some.injEq] at hcurr
    rwa [hcurr]
  obtain ⟨⟨ws, first, s₁⟩, hstart⟩ := exists_gompWorkShareStart hwork hmem
  exact ⟨ws, first, s₁, hstart⟩

/-- The last thread that leaves the first construct of descriptor 0 returns the work share of the
team. -/
theorem root_returned (hinv : WsInv s h c) (hp : s.Parallel 0) (hinside : s.Inside 0 pid)
    (hone : (s.team 0).entered pid = 1) (hothers : s.OthersLeft 0 pid 1) :
    ∃ s₁ returned, gompWorkShareEndNowait 0 pid s = some (s₁, returned) ∧
      .root 0 ∈ s₁.wsPoolList := by
  have hc := hinv.chain 0 hp
  obtain ⟨s₁, returned, hend, hout⟩ := hc.countedOut hinv.pool hinside.2.1 hinside.2.2
  refine ⟨s₁, returned, hend, ?_⟩
  rw [hone] at hout
  obtain ⟨-, -, hwhy⟩ | ⟨-, hpush, -⟩ := hout.pool
  · obtain hroot | hnot := hwhy
    · exact absurd rfl hroot.2
    · exact absurd hothers hnot
  · rw [hpush, Nat.sub_self, hc.obj_zero]
    exact List.mem_cons_self

end WsInv

theorem not_sound_of_root (hmem : .root d ∈ s.wsPoolList) : ¬ WsSound s h :=
  fun hsound => hsound.not_embedded d hmem

/-- Each call the library handles keeps the chains. -/
theorem WsInv.call {c : TeamId → Chain} (hinv : WsInv s h c) {call : WsCall}
    (hok : WsCallOk s call) {es : List WsEvent} (hstep : workSharing s call = some (s', es)) :
    ∃ c', WsInv s' (h ++ es) c' := by
  cases call with
  | start d threads =>
    simp only [workSharing] at hstep
    split at hstep
    · rename_i hcan
      cases hstep
      exact hinv.start hcan.1 hcan.2
    · cases hstep
  | enter d pid mem =>
    simp only [workSharing] at hstep
    by_cases hcan : s.CanEnter d pid
    · have henter := hok hcan
      obtain ⟨ws, first, s₁, hstart⟩ := hinv.exists_workShareStart hcan henter
      rw [if_pos hcan, hstart] at hstep
      cases hstep
      exact (hinv.enter ⟨hcan.1, henter.1⟩ hcan hstart).2
    · rw [if_neg hcan] at hstep
      cases hstep
  | single d pid mem wait =>
    simp only [workSharing] at hstep
    by_cases hcan : s.CanEnter d pid
    · obtain ⟨henter, hroot⟩ := hok hcan
      obtain ⟨ws, first, s₁, hstart⟩ := hinv.exists_workShareStart hcan henter
      obtain ⟨s₂, returned, hsingle, hnext⟩ :=
        hinv.single ⟨hcan.1, henter.1⟩ hcan hstart hroot wait
      rw [if_pos hcan, hsingle] at hstep
      cases hstep
      exact hnext
    · rw [if_neg hcan] at hstep
      cases hstep
  | leave d pid wait =>
    simp only [workSharing] at hstep
    by_cases hinside : s.Inside d pid
    · have hd : d ≠ masterTeam := by
        intro heq
        have := hinv.master_idle pid
        rw [heq] at hinside
        have := hinside.2.2
        omega
      obtain ⟨s₁, returned, hend, hnext⟩ := hinv.leave ⟨hinside.1, hd⟩ hinside (hok hinside) wait
      rw [if_pos hinside, hend] at hstep
      cases hstep
      exact hnext
    · rw [if_neg hinside] at hstep
      cases hstep
  | leaveCombined d pid =>
    simp only [workSharing] at hstep
    by_cases hinside : s.InsideCombined d pid
    · obtain ⟨s₁, hend, hnext⟩ := hinv.leaveCombined hinside
      rw [if_pos hinside, hend] at hstep
      cases hstep
      rwa [returnedEvent, List.append_nil]
    · rw [if_neg hinside] at hstep
      cases hstep
  | finish d pid =>
    simp only [workSharing] at hstep
    by_cases hfinish : s.CanFinish d pid
    · obtain ⟨s₁, returned, hend, hnext⟩ := hinv.finish hfinish (hok hfinish)
      rw [if_pos hfinish, hend] at hstep
      cases hstep
      exact hnext
    · rw [if_neg hfinish] at hstep
      cases hstep

/-- Each call the library does not handle follows a null pointer or puts the work share of a team in
the pool. -/
theorem WsInv.not_sound {c : TeamId → Chain} (hinv : WsInv s h c) {call : WsCall}
    (hbad : ¬ WsCallOk s call) :
    ∃ s' es, workSharing s call = some (s', es) ∧ ¬ WsSound s' (h ++ es) := by
  cases call with
  | start d threads => exact absurd trivial hbad
  | leaveCombined d pid => exact absurd trivial hbad
  | enter d pid mem =>
    obtain ⟨hcan, hnot⟩ := Classical.not_imp.mp hbad
    have hnone := hinv.workShareStart_eq_none hcan hnot
    refine ⟨s, [.fault d pid], by simp [workSharing, hcan, hnone], ?_⟩
    exact WsInv.fault_not_sound (List.mem_singleton_self _)
  | single d pid mem wait =>
    obtain ⟨hcan, hnot⟩ := Classical.not_imp.mp hbad
    by_cases henter : s.Enterable d pid mem
    · have hroot : d = 0 ∧ (s.team d).entered pid = 0 ∧ s.OthersLeft d pid 1 := by
        by_contra hroot
        exact hnot ⟨henter, hroot⟩
      obtain ⟨rfl, hzero, hothers⟩ := hroot
      have hp : s.Parallel 0 := ⟨hcan.1, henter.1⟩
      obtain ⟨ws, first, s₁, hstart⟩ := hinv.exists_workShareStart hcan henter
      obtain ⟨hentered, c', hinv'⟩ := hinv.enter hp hcan hstart
      obtain ⟨s₂, returned, hend, hmem⟩ := hinv'.root_returned
        (WsInv.parallel_of_entered hentered hp) (WsInv.inside_of_entered hentered hcan)
        (by rw [hentered.entered_pid, hzero]) ((WsInv.othersLeft_of_entered hentered).mpr hothers)
      obtain ⟨s₃, hsingle, rfl⟩ := hinv.single_eq hp hcan hstart hend
      refine ⟨_, _, by
        simp only [workSharing, if_pos hcan, hsingle]
        rfl, ?_⟩
      exact not_sound_of_root (d := 0) hmem
    · have hnone := gompSingleStart_of_none (hinv.workShareStart_eq_none hcan henter)
      refine ⟨s, [.fault d pid], by simp [workSharing, hcan, hnone], ?_⟩
      exact WsInv.fault_not_sound (List.mem_singleton_self _)
  | leave d pid wait =>
    obtain ⟨hinside, hroot⟩ := Classical.not_imp.mp hbad
    obtain ⟨rfl, hone, hothers⟩ := not_not.mp hroot
    obtain ⟨s₁, returned, hend, hmem⟩ :=
      hinv.root_returned ⟨hinside.1, by decide⟩ hinside hone hothers
    refine ⟨_, _, by
      simp only [workSharing, if_pos hinside, hend]
      rfl, ?_⟩
    exact not_sound_of_root (d := 0) hmem
  | finish d pid =>
    obtain ⟨hfinish, hroot⟩ := Classical.not_imp.mp hbad
    obtain ⟨rfl, hzero⟩ := not_not.mp hroot
    have hc := hinv.chain 0 ⟨hfinish.2.1, hfinish.1⟩
    have hwork := hc.workShare pid hfinish.2.2.1
    rw [hzero, hc.obj_zero] at hwork
    have hembedded : (s.ws (.root 0)).embedded = false := hinv.pool.embedded_root 0
    refine ⟨_, _, by
      simp only [workSharing, if_pos hfinish, gompTeamEndWs, hwork, gompFreeWorkShare, hembedded,
        Bool.false_eq_true, if_false, Option.bind_eq_bind, Option.bind_some, Option.pure_def]
      rfl, ?_⟩
    exact not_sound_of_root (d := 0) List.mem_cons_self

theorem WsInv.init (nprocs : Nat) : WsInv (wsInit nprocs) [] fun d => ⟨fun _ => .root d, 0⟩ := by
  have hidle : ∀ d, ¬ (wsInit nprocs).Parallel d := by
    intro d hp
    exact hp.2 (by simpa [wsInit] using hp.1)
  constructor
  case pool =>
    constructor
    case nodup => simp [wsInit]
    case heap =>
      intro ws hws
      simp only [wsInit, List.mem_cons, List.not_mem_nil, or_false] at hws
      obtain rfl | rfl := hws
      · exact ⟨1, by simp [wsInit], rfl⟩
      · exact ⟨0, by simp [wsInit], rfl⟩
    case embedded_root => exact fun _ => rfl
    case embedded_heap => exact fun _ => rfl
  case chain => exact fun d hp => absurd hp (hidle d)
  case disjoint => exact fun d _ _ _ hp => absurd hp (hidle d)
  case regionOf =>
    intro d _
    constructor
    case entered => exact fun _ _ _ _ _ he => by cases he
    case returned => exact fun _ _ _ he => by cases he
    case opened_once => exact fun i hpos hi => absurd (hpos.trans hi) (Nat.not_succ_le_zero 0)
    case returned_once => exact fun i hpos hi => absurd (hpos.trans hi) (Nat.not_succ_le_zero 0)
  case no_fault => simp
  case master_region => rfl
  case master_running => rfl
  case master_workShare => exact fun _ => rfl
  case master_idle => exact fun _ => rfl

/-- In the states along a run, each construct is one work share that one thread initialises and that
goes to the pool once when all threads have left it, and no work share of a team goes there, exactly
if the library handles each call. -/
theorem workSharing_sound_iff (nprocs : Nat) (calls : List WsCall) :
    (∀ made, made <+: calls → ∀ s h, workSharing.run (wsInit nprocs) made = some (s, h) →
      WsSound s h) ↔ Machine.Along workSharing WsCallOk (wsInit nprocs) calls := by
  apply Machine.good_iff_along (h := []) (fun s h => ∃ c, WsInv s h c) WsSound WsCallOk
  case hgood =>
    intro s h hinv
    obtain ⟨c, hinv⟩ := hinv
    exact hinv.sound
  case hstep =>
    intro s h call s' es hinv hok hstep
    obtain ⟨c, hinv⟩ := hinv
    exact hinv.call hok hstep
  case hbad =>
    intro s h call hinv hbad
    obtain ⟨c, hinv⟩ := hinv
    exact hinv.not_sound hbad
  case hinv => exact ⟨_, WsInv.init nprocs⟩

/-- A construct outside all regions follows a null pointer, and the third of three nested regions
puts the work share of its team in the pool. -/
theorem workSharing_unsound :
    (∃ s h, workSharing.run (wsInit 8) [.enter masterTeam 0 true] = some (s, h) ∧ ¬ WsSound s h) ∧
    ∃ s h, workSharing.run (wsInit 8)
      [.start 2 {0, 1}, .start 1 {0, 2}, .start 0 {0, 3}, .finish 0 0] = some (s, h) ∧
      ¬ WsSound s h := by
  constructor
  · have hfault : ∀ r ∈ workSharing.run (wsInit 8) [.enter masterTeam 0 true],
        .fault masterTeam 0 ∈ r.2 := by
      decide
    obtain ⟨⟨s, h⟩, hrun⟩ := Option.isSome_iff_exists.mp
      (by decide : (workSharing.run (wsInit 8) [.enter masterTeam 0 true]).isSome = true)
    exact ⟨s, h, hrun, fun hsound => hsound.no_fault _ _ (hfault _ hrun)⟩
  · have hroot : ∀ r ∈ workSharing.run (wsInit 8)
        [.start 2 {0, 1}, .start 1 {0, 2}, .start 0 {0, 3}, .finish 0 0],
        .root 0 ∈ r.1.wsPoolList := by
      decide
    obtain ⟨⟨s, h⟩, hrun⟩ := Option.isSome_iff_exists.mp (by decide :
      (workSharing.run (wsInit 8)
        [.start 2 {0, 1}, .start 1 {0, 2}, .start 0 {0, 3}, .finish 0 0]).isSome = true)
    exact ⟨s, h, hrun, fun hsound => hsound.not_embedded _ (hroot _ hrun)⟩

end Hero.Libgomp
