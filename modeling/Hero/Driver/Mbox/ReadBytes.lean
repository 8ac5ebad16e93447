import Hero.Driver.Mbox.Mailbox

/-!
# Bytes of a mailbox read

`pulp_mbox_read` counts bytes, while the read pointer moves in words.  What one call reports as
delivered is compared with what it takes out of `mbox_fifo`.
-/

namespace Hero.Mbox

/-- The bytes of words in memory. -/
def bytesOf (ws : List Word) : List (BitVec 8) :=
  ws.flatMap fun w : Word => (List.range 4).map fun i => (w >>> (8 * i)).setWidth 8

/-- What goes on while a reader does not hold the lock: PULP sends a word, or `pulp_mbox_intr` makes
one pass of its loop. -/
inductive Outside where
  | send (w : Word)
  | intr

/-- The protected data with the words written to `mbox_fifo` since the call began. -/
structure Traced where
  shared : Shared
  pushed : List Word

namespace Traced

/-- The word that a pass writes to `mbox_fifo`. -/
def written (m : Shared) : List Word :=
  match m.hardware with
  | [] => []
  | data :: _ => if m.fifo.full || m.nWordsWritten = m.nWordsToWrite then [] else [data]

def pass (t : Traced) : Traced :=
  match drain t.shared with
  | .stop => t
  | .next m | .request m _ => ⟨m, t.pushed ++ written t.shared⟩

def outside (t : Traced) : Outside → Traced
  | .send w => { t with shared := { t.shared with hardware := t.shared.hardware ++ [w] } }
  | .intr => t.pass

def outsides (t : Traced) (steps : List Outside) : Traced := steps.foldl outside t

def empty (t : Traced) : Bool := t.shared.fifo.wr = t.shared.fifo.rd && !t.shared.fifo.full

end Traced

inductive Errno where
  | eagain
  | erestartsys
  | efault
  deriving DecidableEq, Repr

/-- A call, and what happens around it. -/
structure ReadCall where
  nonblock : Bool
  count : Nat
  /-- the bytes of the buffer that `copy_to_user` can write -/
  writable : Nat
  /-- for each wait, what wakes the reader up and whether that is a signal -/
  waits : List (List Outside × Bool)
  copying : List Outside
  /-- before each pass of the drain loop -/
  draining : List (List Outside)

structure ReadResult where
  ret : Except Errno Nat
  /-- what has reached user space -/
  copied : List (BitVec 8)
  state : Traced

namespace ReadCall

/-- The loop that waits for data; `none` while the reader sleeps. -/
def wait (nonblock : Bool) :
    List (List Outside × Bool) → Traced → Option (Except Errno Unit × Traced)
  | waits, t =>
    if t.empty then
      if nonblock then some (.error .eagain, t)
      else match waits with
        | [] => none
        | (steps, signal) :: waits =>
          let t := t.outsides steps
          if signal then some (.error .erestartsys, t) else wait nonblock waits t
    else some (.ok (), t)

/-- The loop over the mailbox that the interrupt is not triggered for anymore; `none` while it goes
on. -/
def drainLoop : List (List Outside) → Traced → Option Traced
  | [], _ => none
  | steps :: rest, t =>
    let t := t.outsides steps
    match drain t.shared with
    | .stop => some t
    | .next _ | .request .. => drainLoop rest t.pass

variable (c : ReadCall)

/-- The bytes to read, limited by what is there up to the end of `mbox_fifo`. -/
def limit (fifo : Ring Word) : Nat := min c.count (4 * fifo.available capacity)

/-- What `copy_to_user` returns. -/
def notCopied (count : Nat) : Nat := count - min count c.writable

/-- `pulp_mbox_read` once there is data. -/
def copyOut (t : Traced) : Option ReadResult :=
  let count := c.limit t.shared.fifo
  -- the lock is released here, `copy_to_user` can sleep
  let t := t.outsides c.copying
  let fifo := t.shared.fifo
  let notCopied := c.notCopied count
  let source := (List.range ((count + 3) / 4)).map fun i => fifo.cells (fifo.rd + i)
  let nWords := (count - notCopied) / 4
  let t := { t with shared := { t.shared with fifo := fifo.advance capacity nWords } }
  let t := if fifo.full && 0 < nWords then drainLoop c.draining t else some t
  t.map fun t =>
    { ret := if notCopied ≠ 0 then .error .efault else .ok count
      copied := (bytesOf source).take (count - notCopied)
      state := t }

def pulpMboxRead (m : Shared) : Option ReadResult :=
  (wait c.nonblock c.waits ⟨m, []⟩).bind fun
    | (.ok (), t) => c.copyOut t
    | (.error e, t) => some ⟨.error e, [], t⟩

/-- The call copies whole words, or so little before an error that the read pointer stays. -/
def WholeWords (fifo : Ring Word) : Prop :=
  if c.limit fifo ≤ c.writable then 4 ∣ c.limit fifo else c.writable < 4

instance (fifo : Ring Word) : Decidable (c.WholeWords fifo) :=
  inferInstanceAs (Decidable (if c.limit fifo ≤ c.writable then 4 ∣ c.limit fifo else c.writable < 4))

end ReadCall

/-- The bytes reported as delivered are the next ones of the queue and leave it; an error leaves it
as it was. -/
def ReadResult.Accounts (r : ReadResult) (m : Shared) : Prop :=
  let queue := bytesOf (m.fifo.contents capacity ++ r.state.pushed)
  let left := bytesOf (r.state.shared.fifo.contents capacity)
  match r.ret with
  | .ok k => k ≤ queue.length ∧ r.copied = queue.take k ∧ left = queue.drop k
  | .error _ => left = queue

theorem bytesOf_append (ws vs : List Word) : bytesOf (ws ++ vs) = bytesOf ws ++ bytesOf vs :=
  List.flatMap_append

@[simp] theorem length_bytesOf (ws : List Word) : (bytesOf ws).length = 4 * ws.length := by
  induction ws with
  | nil => rfl
  | cons w ws ih =>
    rw [show w :: ws = [w] ++ ws from rfl, bytesOf_append, List.length_append, ih]
    simp [bytesOf]
    omega

theorem bytesOf_take (ws : List Word) (n : Nat) :
    bytesOf (ws.take n) = (bytesOf ws).take (4 * n) := by
  rcases Nat.le_total ws.length n with hle | hle
  · rw [List.take_of_length_le hle, List.take_of_length_le]
    rw [length_bytesOf]
    omega
  · conv_rhs => rw [← List.take_append_drop n ws, bytesOf_append]
    rw [List.take_left']
    rw [length_bytesOf, List.length_take, Nat.min_eq_left hle]

theorem bytesOf_drop (ws : List Word) (n : Nat) :
    bytesOf (ws.drop n) = (bytesOf ws).drop (4 * n) := by
  rcases Nat.le_total ws.length n with hle | hle
  · rw [List.drop_of_length_le hle, List.drop_of_length_le]
    · rfl
    · rw [length_bytesOf]
      omega
  · conv_rhs => rw [← List.take_append_drop n ws, bytesOf_append]
    rw [List.drop_left']
    rw [length_bytesOf, List.length_take, Nat.min_eq_left hle]

/-- Words have been appended to the buffer, and nothing else has happened to it. -/
def Traced.Extends (t t' : Traced) : Prop :=
  t'.shared.fifo.Valid capacity ∧ t'.shared.fifo.rd = t.shared.fifo.rd ∧
    ∃ new, t'.pushed = t.pushed ++ new ∧
      t'.shared.fifo.contents capacity = t.shared.fifo.contents capacity ++ new

namespace Traced.Extends

variable {t u v : Traced}

theorem refl (h : t.shared.fifo.Valid capacity) : t.Extends t :=
  ⟨h, rfl, [], (List.append_nil _).symm, (List.append_nil _).symm⟩

theorem trans (h : t.Extends u) (h' : u.Extends v) : t.Extends v := by
  obtain ⟨-, hrd, new, hpushed, hcontents⟩ := h
  obtain ⟨hvalid, hrd', new', hpushed', hcontents'⟩ := h'
  refine ⟨hvalid, hrd'.trans hrd, new ++ new', ?_, ?_⟩
  · rw [hpushed', hpushed, List.append_assoc]
  · rw [hcontents', hcontents, List.append_assoc]

theorem pass (h : t.shared.fifo.Valid capacity) : t.Extends t.pass := by
  unfold Traced.pass drain written
  cases hhw : t.shared.hardware with
  | nil => exact refl h
  | cons data hardware =>
    cases hfull : t.shared.fifo.full with
    | true => exact refl h
    | false =>
      by_cases hnew : t.shared.nWordsWritten = t.shared.nWordsToWrite
      · simp only [hnew, Bool.false_eq_true, if_false, if_true, decide_true, Bool.or_true,
          List.append_nil]
        split
        · next heq => split at heq <;> cases heq
        · next heq =>
          split at heq
          · cases heq
            exact refl h
          · cases heq
        · next heq =>
          split at heq
          · cases heq
          · cases heq
            exact refl h
      · simp only [hnew, Bool.false_eq_true, if_false, decide_false, Bool.or_self]
        exact ⟨h.push hfull, rfl, [data], rfl, h.contents_push hfull⟩

theorem outside (h : t.shared.fifo.Valid capacity) (step : Outside) : t.Extends (t.outside step) := by
  cases step with
  | send w => exact refl h
  | intr => exact pass h

theorem outsides (h : t.shared.fifo.Valid capacity) (steps : List Outside) :
    t.Extends (t.outsides steps) := by
  induction steps generalizing t with
  | nil => exact refl h
  | cons step steps ih =>
    have hstep := outside h step
    exact hstep.trans (ih hstep.1)

theorem wait (h : t.shared.fifo.Valid capacity) {nonblock : Bool}
    {waits : List (List Outside × Bool)} {ret : Except Errno Unit}
    (hwait : ReadCall.wait nonblock waits t = some (ret, u)) :
    t.Extends u ∧ (ret = .ok () → u.empty = false) := by
  induction waits generalizing t with
  | nil =>
    unfold ReadCall.wait at hwait
    split at hwait
    · split at hwait
      · cases hwait
        exact ⟨refl h, fun hno => by cases hno⟩
      · cases hwait
    · next hempty =>
      cases hwait
      exact ⟨refl h, fun _ => by simpa using hempty⟩
  | cons w waits ih =>
    have hsteps := outsides h w.1
    unfold ReadCall.wait at hwait
    split at hwait
    · split at hwait
      · cases hwait
        exact ⟨refl h, fun hno => by cases hno⟩
      · simp only at hwait
        split at hwait
        · cases hwait
          exact ⟨hsteps, fun hno => by cases hno⟩
        · have hrest := ih hsteps.1 hwait
          exact ⟨hsteps.trans hrest.1, hrest.2⟩
    · next hempty =>
      cases hwait
      exact ⟨refl h, fun _ => by simpa using hempty⟩

theorem drainLoop (h : t.shared.fifo.Valid capacity) {steps : List (List Outside)}
    (hdrain : ReadCall.drainLoop steps t = some u) : t.Extends u := by
  induction steps generalizing t with
  | nil => cases hdrain
  | cons s steps ih =>
    have hsteps := outsides h s
    have hpass := hsteps.trans (pass hsteps.1)
    simp only [ReadCall.drainLoop] at hdrain
    split at hdrain
    · cases hdrain
      exact hsteps
    · exact hpass.trans (ih hpass.1 hdrain)
    · exact hpass.trans (ih hpass.1 hdrain)

end Traced.Extends

private theorem drop_inj {α : Type} {l : List α} {a b : Nat} (ha : a ≤ l.length)
    (hb : b ≤ l.length) : l.drop a = l.drop b ↔ a = b := by
  constructor
  · intro h
    have hlen := congrArg List.length h
    simp only [List.length_drop] at hlen
    omega
  · rintro rfl
    rfl

section

variable {c : ReadCall} {m : Shared} {t : Traced} {r : ReadResult}

theorem ReadCall.limit_le (h : t.shared.fifo.Valid capacity) (hsome : t.empty = false) :
    c.limit t.shared.fifo ≤ 4 * t.shared.fifo.size capacity := by
  have hle := h.available_le (by simpa [Traced.empty, imp_iff_not_or] using hsome)
  unfold ReadCall.limit
  omega

/-- The bytes that are copied are the next ones of the queue. -/
theorem ReadCall.source_eq {u : Traced} (h : t.shared.fifo.Valid capacity) (hsome : t.empty = false)
    (hext : t.Extends u) :
    (bytesOf ((List.range ((c.limit t.shared.fifo + 3) / 4)).map fun i =>
        u.shared.fifo.cells (u.shared.fifo.rd + i))).take (c.limit t.shared.fifo) =
      (bytesOf (t.shared.fifo.contents capacity)).take (c.limit t.shared.fifo) := by
  have havail := h.available_le (by simpa [Traced.empty, imp_iff_not_or] using hsome)
  have hend := h.rd_add_available
  obtain ⟨hvalid, hrd, new, -, hcontents⟩ := hext
  have hsize : t.shared.fifo.size capacity ≤ u.shared.fifo.size capacity := by
    have hlen := congrArg List.length hcontents
    simp only [Ring.length_contents, List.length_append] at hlen
    omega
  have hle : (c.limit t.shared.fifo + 3) / 4 ≤ t.shared.fifo.available capacity := by
    unfold ReadCall.limit
    omega
  have hwords : (List.range ((c.limit t.shared.fifo + 3) / 4)).map
      (fun i => u.shared.fifo.cells (u.shared.fifo.rd + i)) =
        (t.shared.fifo.contents capacity).take ((c.limit t.shared.fifo + 3) / 4) := by
    apply List.ext_getElem?
    intro i
    by_cases hi : i < (c.limit t.shared.fifo + 3) / 4
    · have hget : (u.shared.fifo.contents capacity)[i]? =
          some (u.shared.fifo.cells (u.shared.fifo.rd + i)) :=
        Ring.getElem_contents (by omega) (by omega)
      rw [hcontents, List.getElem?_append_left (by rw [Ring.length_contents]; omega)] at hget
      rw [List.getElem?_take_of_lt hi, hget, List.getElem?_map, List.getElem?_range hi]
      rfl
    · rw [List.getElem?_eq_none (by simpa using hi), List.getElem?_eq_none]
      rw [List.length_take]
      omega
  rw [hwords, bytesOf_take, List.take_take, Nat.min_eq_left (by omega)]

/-- What is copied, what leaves the queue and what is returned. -/
theorem ReadCall.copyOut_spec (h : t.shared.fifo.Valid capacity) (hsome : t.empty = false)
    (hcopy : c.copyOut t = some r) :
    let count := c.limit t.shared.fifo
    let done := count - c.notCopied count
    let queue := t.shared.fifo.contents capacity
    ∃ new, r.state.pushed = t.pushed ++ new ∧
      r.state.shared.fifo.contents capacity = (queue ++ new).drop (done / 4) ∧
      r.copied = (bytesOf queue).take done ∧
      r.ret = if c.notCopied count ≠ 0 then .error .efault else .ok count := by
  intro count done queue
  have hlimit : count ≤ 4 * t.shared.fifo.size capacity := c.limit_le h hsome
  have hle : count ≤ 4 * t.shared.fifo.available capacity := Nat.min_le_right _ _
  have hdone : done ≤ count := Nat.sub_le _ _
  have hext := Traced.Extends.outsides h c.copying
  have hsource := c.source_eq h hsome hext
  simp only [copyOut, Option.map_eq_some_iff] at hcopy
  obtain ⟨u, hu, rfl⟩ := hcopy
  obtain ⟨hvalid, hrd, new, hpushed, hcontents⟩ := hext
  have hend := h.rd_add_available
  have hsize := congrArg List.length hcontents
  simp only [Ring.length_contents, List.length_append] at hsize
  have hadvance := hvalid.advance_spec (n := done / 4) (by omega) (by omega)
  have hrest : ({ t.outsides c.copying with
      shared := { (t.outsides c.copying).shared with
        fifo := (t.outsides c.copying).shared.fifo.advance capacity (done / 4) } } : Traced).Extends
      u := by
    split at hu
    · exact Traced.Extends.drainLoop hadvance.1 hu
    · cases hu
      exact Traced.Extends.refl hadvance.1
  obtain ⟨-, -, new', hpushed', hcontents'⟩ := hrest
  refine ⟨new ++ new', ?_, ?_, ?_, rfl⟩
  · rw [hpushed', hpushed, List.append_assoc]
  · have hdrop : done / 4 ≤ (queue ++ new).length := by
      rw [List.length_append, Ring.length_contents]
      omega
    rw [hcontents', hadvance.2, hcontents, ← List.append_assoc]
    exact (List.drop_append_of_le_length hdrop).symm
  · have htake := congrArg (List.take done) hsource
    rwa [List.take_take, List.take_take, Nat.min_eq_left hdone] at htake

/-- A call accounts for its bytes exactly if what it finds lets it copy whole words, or so little
before an error that no word is given up. -/
theorem pulp_mbox_read_accounts_iff (hm : m.fifo.Valid capacity) (hread : c.pulpMboxRead m = some r) :
    r.Accounts m ↔ ∀ t, ReadCall.wait c.nonblock c.waits ⟨m, []⟩ = some (.ok (), t) →
      c.WholeWords t.shared.fifo := by
  simp only [ReadCall.pulpMboxRead, Option.bind_eq_some_iff] at hread
  obtain ⟨⟨ret, t⟩, hwait, hread⟩ := hread
  obtain ⟨⟨hvalid, -, new, hpushed, hcontents⟩, hsome⟩ := Traced.Extends.wait hm hwait
  simp only [List.nil_append] at hpushed
  rw [hwait]
  cases ret with
  | error e =>
    cases hread
    simp only [ReadResult.Accounts, hcontents, hpushed, true_iff]
    intro u hu
    cases hu
  | ok _ =>
    obtain ⟨new', hpushed', hcontents', hcopied, hret⟩ :=
      ReadCall.copyOut_spec hvalid (hsome rfl) hread
    have hlimit := c.limit_le hvalid (hsome rfl)
    have hqueue : bytesOf (m.fifo.contents capacity ++ r.state.pushed) =
        bytesOf (t.shared.fifo.contents capacity ++ new') := by
      rw [hpushed', hcontents, hpushed, List.append_assoc]
    have hiff : (∀ u, some ((Except.ok () : Except Errno Unit), t) = some (.ok (), u) →
        c.WholeWords u.shared.fifo) ↔ c.WholeWords t.shared.fifo := by
      simp
    rw [hiff, ReadResult.Accounts, hqueue, hcontents', hret, bytesOf_drop, ReadCall.WholeWords,
      bytesOf_append]
    have hlen : c.limit t.shared.fifo ≤ (bytesOf (t.shared.fifo.contents capacity)).length := by
      simpa using hlimit
    by_cases hle : c.limit t.shared.fifo ≤ c.writable
    · have hall : c.notCopied (c.limit t.shared.fifo) = 0 := by
        unfold ReadCall.notCopied
        omega
      rw [hall, Nat.sub_zero] at hcopied
      rw [if_pos hle, hall, if_neg (not_not.mpr rfl), Nat.sub_zero]
      simp only [hcopied, List.take_append_of_le_length hlen, true_and]
      rw [drop_inj (by rw [List.length_append]; omega) (by rw [List.length_append]; omega),
        List.length_append]
      omega
    · have hfault : c.notCopied (c.limit t.shared.fifo) ≠ 0 := by
        unfold ReadCall.notCopied
        omega
      have hdone : c.limit t.shared.fifo - c.notCopied (c.limit t.shared.fifo) = c.writable := by
        unfold ReadCall.notCopied
        omega
      rw [if_neg hle, if_pos hfault, hdone]
      have hkeeps := @drop_inj _ (bytesOf (t.shared.fifo.contents capacity) ++ bytesOf new')
        (4 * (c.writable / 4)) 0 (by rw [List.length_append]; omega) (Nat.zero_le _)
      rw [List.drop_zero] at hkeeps
      simp only [hkeeps]
      omega

end

/-- Two words are in `mbox_fifo`. -/
private def twoWords : Shared := ⟨[], ⟨fun i => BitVec.ofNat 32 (i + 1), 0, 2, false⟩, 0, 0⟩

/-- A call that is not disturbed. -/
private def quietly (count writable : Nat) : ReadCall := ⟨true, count, writable, [], [], []⟩

theorem pulp_mbox_read_accounts_iff_eight : ∃ r,
    (quietly 8 8).pulpMboxRead twoWords = some r ∧ r.Accounts twoWords := by
  refine ⟨_, rfl, (@pulp_mbox_read_accounts_iff (quietly 8 8) twoWords _ ?_ rfl).mpr ?_⟩
  · exact ⟨by decide, by decide, fun hfull => by cases hfull⟩
  · intro t ht
    cases ht
    decide

/-- Of five bytes the last one is delivered again by the next call. -/
theorem pulp_mbox_read_not_accounts : ∃ r,
    (quietly 5 5).pulpMboxRead twoWords = some r ∧ ¬ r.Accounts twoWords := by
  refine ⟨_, rfl, ?_⟩
  rintro ⟨-, -, hleft⟩
  exact absurd hleft (by decide)

end Hero.Mbox
