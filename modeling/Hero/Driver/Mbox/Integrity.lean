import Hero.Driver.Mbox.Mailbox
import Mathlib.Data.List.Perm.Basic

/-!
# Stream integrity of the mailbox

The words taken from the hardware FIFO, read as frames, account for everything: their payload is
what was returned, what the reader holds and what `mbox_fifo` holds, in order, and their requests
are those dispatched and those in flight.
-/

namespace Hero.Mbox

/-- The protected data agree with the words taken so far, of whose payload `out` has left the
buffer. -/
structure Shared.Tracks (m : Shared) (p : Parse) (out : List Word) : Prop where
  valid : m.fifo.Valid capacity
  payload : p.payload = out ++ m.fifo.contents capacity
  written : m.nWordsWritten ≤ m.nWordsToWrite
  remaining : p.remaining = m.nWordsToWrite - m.nWordsWritten

/-- A pass that keeps the lock takes one word and appends to the buffer at most. -/
theorem Shared.Tracks.drain_next {m m' : Shared} {p : Parse} {out : List Word}
    (h : m.Tracks p out) (hd : drain m = .next m') :
    ∃ w, m.hardware = w :: m'.hardware ∧ m'.Tracks (p.step w) out ∧
      (p.step w).requests = p.requests ∧ m'.fifo.rd = m.fifo.rd ∧
      m.fifo.contents capacity <+: m'.fifo.contents capacity := by
  unfold drain at hd
  split at hd
  · cases hd
  · next w hardware hhw =>
    split at hd
    · cases hd
    · next hfull =>
      have hfull' : m.fifo.full = false := by simpa using hfull
      simp only at hd
      split at hd
      · next heq =>
        have hrem : p.remaining = 0 := by
          rw [h.remaining, heq, Nat.sub_self]
        split at hd
        · next htype =>
          cases hd
          have hstep : p.step w = { p with remaining := getNWords w } := by
            simp [Parse.step, hrem, ← htype]
          refine ⟨w, hhw, ?_⟩
          rw [hstep]
          exact ⟨⟨h.valid, h.payload, Nat.zero_le _, rfl⟩, rfl, rfl, List.prefix_rfl⟩
        · cases hd
      · next hne =>
        cases hd
        have hlt : m.nWordsWritten < m.nWordsToWrite := lt_of_le_of_ne h.written hne
        have hrem : p.remaining ≠ 0 := by
          rw [h.remaining]
          omega
        have hstep : p.step w
            = { p with payload := p.payload ++ [w], remaining := p.remaining - 1 } := by
          simp [Parse.step, hrem]
        refine ⟨w, hhw, ?_⟩
        rw [hstep]
        refine ⟨⟨h.valid.push hfull', ?_, hlt, ?_⟩, rfl, rfl, ?_⟩
        · rw [h.valid.contents_push hfull', h.payload, List.append_assoc]
        · rw [h.remaining, Nat.sub_sub]
        · rw [h.valid.contents_push hfull']
          exact List.prefix_append _ _

/-- A pass that drops the lock takes one request word. -/
theorem Shared.Tracks.drain_request {m m' : Shared} {p : Parse} {out : List Word} {w : Word}
    (h : m.Tracks p out) (hd : drain m = .request m' w) :
    m.hardware = w :: m'.hardware ∧ m'.Tracks (p.step w) out ∧
      (p.step w).requests = p.requests ++ [w] ∧ m'.fifo = m.fifo := by
  unfold drain at hd
  split at hd
  · cases hd
  · next data hardware hhw =>
    split at hd
    · cases hd
    · simp only at hd
      split at hd
      · next heq =>
        have hrem : p.remaining = 0 := by
          rw [h.remaining, heq, Nat.sub_self]
        split at hd
        · cases hd
        · next htype =>
          cases hd
          have hstep : p.step w = { p with requests := p.requests ++ [w] } := by
            simp [Parse.step, hrem, Ne.symm htype]
          rw [hstep]
          exact ⟨hhw, ⟨h.valid, h.payload, h.written, h.remaining⟩, rfl, rfl⟩
      · cases hd

/-- The reader asks for some words, and those it is copying are the oldest ones of the buffer. -/
def ReadPc.Copies (fifo : Ring Word) : ReadPc → Prop
  | .checking nWords => 0 < nWords
  | .copying nWords copied => 0 < nWords ∧ copied.length ≤ nWords ∧
      nWords ≤ fifo.size capacity ∧ fifo.rd + nWords ≤ capacity ∧
      copied <+: fifo.contents capacity
  | _ => True

theorem ReadPc.Copies.grow {fifo fifo' : Ring Word} {pc : ReadPc} (h : pc.Copies fifo)
    (hrd : fifo'.rd = fifo.rd) (hgrow : fifo.contents capacity <+: fifo'.contents capacity) :
    pc.Copies fifo' := by
  cases pc with
  | copying nWords copied =>
    obtain ⟨hpos, hlen, hsize, hend, hcopied⟩ := h
    have hle := hgrow.length_le
    simp only [Ring.length_contents] at hle
    exact ⟨hpos, hlen, hsize.trans hle, hrd ▸ hend, hcopied.trans hgrow⟩
  | checking nWords => exact h
  | idle | draining _ | dispatching _ _ | relocking _ | returning _ => trivial

/-- What has happened to the words taken from the hardware FIFO. -/
structure State.Accounts (s : State) (h : List Event) (taken : List Word) : Prop where
  tracks : s.shared.Tracks (parse taken) (returned h ++ s.read.taken)
  copies : s.read.Copies s.shared.fifo
  requests : (dispatched h ++ s.inFlight).Perm ((parse taken).requests.map Request.ofWord)

def State.Sound (stream : List Word) (s : State) (h : List Event) : Prop :=
  ∃ taken, taken ++ s.shared.hardware ++ s.unsent = stream ∧ s.Accounts h taken

variable {stream : List Word} {s s' : State} {h es : List Event}

@[simp] theorem returned_append (h k : List Event) : returned (h ++ k) = returned h ++ returned k := by
  simp [returned]

@[simp] theorem dispatched_append (h k : List Event) :
    dispatched (h ++ k) = dispatched h ++ dispatched k := by
  simp [dispatched]

private theorem sound_send (hs : s.Sound stream h) (hstep : machine s .send = some (s', es)) :
    s'.Sound stream (h ++ es) := by
  obtain ⟨taken, hstream, hacc⟩ := hs
  simp only [machine] at hstep
  split at hstep
  · next w unsent hun =>
    cases hstep
    rw [List.append_nil]
    refine ⟨taken, ?_, ⟨hacc.tracks.valid, hacc.tracks.payload, hacc.tracks.written,
      hacc.tracks.remaining⟩, hacc.copies, hacc.requests⟩
    rw [← hstream, hun]
    simp
  · cases hstep

private theorem perm_insert {r : Request} {A X B : List Request} (h : (A ++ X).Perm B) :
    (A ++ r :: X).Perm (B ++ [r]) :=
  (List.perm_middle.trans (List.perm_append_singleton r _).symm).trans (h.append_right [r])

/-- A pass of a drain loop by either side that keeps the lock. -/
private theorem sound_drained {m : Shared} (hs : s.Sound stream h)
    (hd : drain s.shared = .next m) : ({ s with shared := m } : State).Sound stream h := by
  obtain ⟨taken, hstream, hacc⟩ := hs
  obtain ⟨w, hhw, htracks, hreq, hrd, hgrow⟩ := hacc.tracks.drain_next hd
  refine ⟨taken ++ [w], ?_, ?_⟩
  · rw [← hstream, hhw]
    simp
  · rw [← parse_append] at htracks hreq
    refine ⟨htracks, hacc.copies.grow hrd hgrow, ?_⟩
    rw [hreq]
    exact hacc.requests

/-- A pass that hands a request to the side that drains. -/
private theorem sound_requested {m : Shared} {w : Word} (hs : s.Sound stream h)
    (hd : drain s.shared = .request m w) (hsh : s'.shared = m) (hun : s'.unsent = s.unsent)
    (htaken : s'.read.taken = s.read.taken) (hcopies : s.read.Copies m.fifo → s'.read.Copies m.fifo)
    (hflight : ∀ A B, (A ++ s.inFlight).Perm B →
      (A ++ s'.inFlight).Perm (B ++ [Request.ofWord w])) : s'.Sound stream h := by
  obtain ⟨taken, hstream, hacc⟩ := hs
  obtain ⟨hhw, htracks, hreq, hfifo⟩ := hacc.tracks.drain_request hd
  refine ⟨taken ++ [w], ?_, ?_⟩
  · rw [← hstream, hhw, hsh, hun]
    simp
  · rw [← parse_append] at htracks hreq
    refine ⟨?_, ?_, ?_⟩
    · rw [hsh, htaken]
      exact htracks
    · rw [hsh]
      exact hcopies (hfifo ▸ hacc.copies)
    · rw [hreq, List.map_append]
      exact hflight _ _ hacc.requests

/-- A step that moves no word. -/
private theorem sound_moved (hs : s.Sound stream h) (hsh : s'.shared = s.shared)
    (hun : s'.unsent = s.unsent) (hret : returned (h ++ es) ++ s'.read.taken
      = returned h ++ s.read.taken) (hcopies : s'.read.Copies s.shared.fifo)
    (hflight : (dispatched (h ++ es) ++ s'.inFlight).Perm (dispatched h ++ s.inFlight)) :
    s'.Sound stream (h ++ es) := by
  obtain ⟨taken, hstream, hacc⟩ := hs
  refine ⟨taken, ?_, ?_, ?_, hflight.trans hacc.requests⟩
  · rw [hsh, hun]
    exact hstream
  · rw [hsh, hret]
    exact hacc.tracks
  · rw [hsh]
    exact hcopies

private theorem sound_copies (hs : s.Sound stream h) : s.read.Copies s.shared.fifo := by
  obtain ⟨_, -, hacc⟩ := hs
  exact hacc.copies

private theorem sound_valid (hs : s.Sound stream h) : s.shared.fifo.Valid capacity := by
  obtain ⟨_, -, hacc⟩ := hs
  exact hacc.tracks.valid

private theorem sound_intrDrain (hs : s.Sound stream h)
    (hstep : machine s .intrDrain = some (s', es)) : s'.Sound stream (h ++ es) := by
  simp only [machine] at hstep
  split at hstep
  · next hpc =>
    split at hstep
    · cases hstep
      exact sound_moved hs (by rfl) (by rfl) (by simp) (by exact sound_copies hs)
        (by simp [State.inFlight, hpc])
    · next m hd =>
      cases hstep
      rw [List.append_nil]
      exact sound_drained hs hd
    · next m w hd =>
      cases hstep
      rw [List.append_nil]
      refine sound_requested hs hd (by rfl) (by rfl) (by rfl) (by exact id) ?_
      intro A B hperm
      simp only [State.inFlight, hpc, List.nil_append] at hperm
      exact perm_insert hperm
  · cases hstep

private theorem sound_intrDispatch (hs : s.Sound stream h)
    (hstep : machine s .intrDispatch = some (s', es)) : s'.Sound stream (h ++ es) := by
  simp only [machine] at hstep
  split at hstep
  · next r hpc =>
    cases hstep
    exact sound_moved hs (by rfl) (by rfl) (by simp [returned]) (by exact sound_copies hs)
      (by simp [State.inFlight, hpc, dispatched])
  · cases hstep

private theorem sound_readCheck (hs : s.Sound stream h)
    (hstep : machine s .readCheck = some (s', es)) : s'.Sound stream (h ++ es) := by
  simp only [machine] at hstep
  split at hstep
  · next nWords hpc =>
    split at hstep
    · cases hstep
    · next hguard =>
      cases hstep
      have hvalid := sound_valid hs
      have hsome : s.shared.fifo.wr ≠ s.shared.fifo.rd ∨ s.shared.fifo.full = true := by
        have hnot : ¬ s.empty = true := by
          intro hempty
          exact hguard (by simp [hempty])
        by_cases hfull : s.shared.fifo.full = true
        · exact Or.inr hfull
        · left
          intro heq
          exact hnot (by simp [State.empty, heq, hfull])
      have hle := hvalid.available_le hsome
      have hend := hvalid.rd_add_available
      have hpos := hvalid.available_pos
      refine sound_moved hs (by rfl) (by rfl) (by simp [hpc, ReadPc.taken]) ?_
        (by simp [State.inFlight, hpc])
      have hasked : 0 < nWords := by
        have hcopies := sound_copies hs
        rw [hpc] at hcopies
        exact hcopies
      refine ⟨by omega, Nat.zero_le _, by omega, by omega, List.nil_prefix⟩
  · cases hstep

private theorem sound_readCopy (hs : s.Sound stream h)
    (hstep : machine s .readCopy = some (s', es)) : s'.Sound stream (h ++ es) := by
  simp only [machine] at hstep
  split at hstep
  · next nWords copied hpc =>
    split at hstep
    · next hlt =>
      cases hstep
      have hcopies := sound_copies hs
      rw [hpc] at hcopies
      obtain ⟨hpos, -, hsize, hend, hcopied⟩ := hcopies
      refine sound_moved hs (by rfl) (by rfl) (by simp [hpc, ReadPc.taken]) ?_
        (by simp [State.inFlight, hpc])
      refine ⟨hpos, ?_, hsize, hend, ?_⟩
      · simp only [List.length_append, List.length_singleton]
        exact hlt
      · have hget := Ring.getElem_contents (hend.trans_lt' (Nat.add_lt_add_left hlt _))
          (hlt.trans_le hsize)
        rw [List.prefix_iff_eq_take] at hcopied ⊢
        rw [List.length_append, List.length_singleton, List.take_add_one, ← hcopied, hget]
        rfl
    · cases hstep
  · cases hstep

private theorem sound_intr (hs : s.Sound stream h) (hstep : machine s .intr = some (s', es)) :
    s'.Sound stream (h ++ es) := by
  simp only [machine] at hstep
  split at hstep
  · next hpc =>
    cases hstep
    exact sound_moved hs (by rfl) (by rfl) (by simp) (by exact sound_copies hs)
      (by simp [State.inFlight, hpc])
  · cases hstep

private theorem sound_intrLock (hs : s.Sound stream h)
    (hstep : machine s .intrLock = some (s', es)) : s'.Sound stream (h ++ es) := by
  simp only [machine] at hstep
  split at hstep
  · next hpc =>
    split at hstep
    · cases hstep
    · cases hstep
      exact sound_moved hs (by rfl) (by rfl) (by simp) (by exact sound_copies hs)
        (by simp [State.inFlight, hpc])
  · next hpc =>
    split at hstep
    · cases hstep
    · cases hstep
      exact sound_moved hs (by rfl) (by rfl) (by simp) (by exact sound_copies hs)
        (by simp [State.inFlight, hpc])
  · cases hstep

private theorem sound_read {nWords : Nat} (hs : s.Sound stream h)
    (hstep : machine s (.read nWords) = some (s', es)) : s'.Sound stream (h ++ es) := by
  simp only [machine] at hstep
  split at hstep
  · next hpc =>
    split at hstep
    · next hpos =>
      cases hstep
      exact sound_moved hs (by rfl) (by rfl) (by simp [hpc, ReadPc.taken]) (by exact hpos)
        (by simp [State.inFlight, hpc])
    · cases hstep
  · cases hstep

private theorem sound_readGiveUp (hs : s.Sound stream h)
    (hstep : machine s .readGiveUp = some (s', es)) : s'.Sound stream (h ++ es) := by
  simp only [machine] at hstep
  split at hstep
  · next nWords hpc =>
    split at hstep
    · cases hstep
    · cases hstep
      exact sound_moved hs (by rfl) (by rfl) (by simp [hpc, ReadPc.taken]) trivial
        (by simp [State.inFlight, hpc])
  · cases hstep

/-- The reader gives up the words it has copied. -/
private theorem sound_advance {nWords : Nat} {copied : List Word} (hs : s.Sound stream h)
    (hpc : s.read = .copying nWords copied) (hdone : ¬ copied.length < nWords)
    (hsh : s'.shared = { s.shared with fifo := s.shared.fifo.advance capacity nWords })
    (hun : s'.unsent = s.unsent) (htaken : s'.read.taken = copied)
    (hcopies : s'.read.Copies s'.shared.fifo) (hflight : s'.inFlight = s.inFlight) :
    s'.Sound stream h := by
  obtain ⟨taken, hstream, hacc⟩ := hs
  have hold := hacc.copies
  rw [hpc] at hold
  obtain ⟨hpos, hlen, hsize, hend, hcopied⟩ := hold
  have hlen' : copied.length = nWords := by omega
  have hvalid := hacc.tracks.valid
  refine ⟨taken, ?_, ?_, hcopies, ?_⟩
  · rw [hsh, hun]
    exact hstream
  · have hpayload := hacc.tracks.payload
    rw [hpc, ReadPc.taken, List.append_nil] at hpayload
    rw [hsh, htaken]
    refine ⟨hvalid.advance hpos, ?_, hacc.tracks.written, hacc.tracks.remaining⟩
    have htake : copied = (s.shared.fifo.contents capacity).take nWords := by
      rw [List.prefix_iff_eq_take] at hcopied
      rwa [hlen'] at hcopied
    rw [hpayload, hvalid.contents_advance hpos hsize hend, List.append_assoc, htake,
      List.take_append_drop]
  · rw [hflight]
    exact hacc.requests

private theorem sound_readAdvance (hs : s.Sound stream h)
    (hstep : machine s .readAdvance = some (s', es)) : s'.Sound stream (h ++ es) := by
  simp only [machine] at hstep
  split at hstep
  · next nWords copied hpc =>
    split at hstep
    · cases hstep
    · next hguard =>
      have hdone : ¬ copied.length < nWords := by
        intro hlt
        exact hguard (by simp [hlt])
      split at hstep
      · cases hstep
        rw [List.append_nil]
        exact sound_advance hs hpc hdone (by rfl) (by rfl) (by rfl) trivial
          (by simp [State.inFlight, hpc])
      · cases hstep
        rw [List.append_nil]
        exact sound_advance hs hpc hdone (by rfl) (by rfl) (by rfl) trivial
          (by simp [State.inFlight, hpc])
  · cases hstep

private theorem sound_readDrain (hs : s.Sound stream h)
    (hstep : machine s .readDrain = some (s', es)) : s'.Sound stream (h ++ es) := by
  simp only [machine] at hstep
  split at hstep
  · next copied hpc =>
    split at hstep
    · cases hstep
      exact sound_moved hs (by rfl) (by rfl) (by simp [hpc, ReadPc.taken]) trivial
        (by simp [State.inFlight, hpc])
    · next m hd =>
      cases hstep
      rw [List.append_nil]
      exact sound_drained hs hd
    · next m w hd =>
      cases hstep
      rw [List.append_nil]
      refine sound_requested hs hd (by rfl) (by rfl) (by simp [hpc, ReadPc.taken])
        (fun _ => trivial) ?_
      intro A B hperm
      simp only [State.inFlight, hpc, List.append_nil] at hperm ⊢
      rw [← List.append_assoc]
      exact hperm.append_right _
  · cases hstep

private theorem sound_readDispatch (hs : s.Sound stream h)
    (hstep : machine s .readDispatch = some (s', es)) : s'.Sound stream (h ++ es) := by
  simp only [machine] at hstep
  split at hstep
  · next r copied hpc =>
    cases hstep
    refine sound_moved hs (by rfl) (by rfl) (by simp [hpc, ReadPc.taken, returned]) trivial ?_
    simp only [State.inFlight, hpc, dispatched_append, List.append_assoc, List.append_nil]
    exact List.perm_append_comm.append_left _
  · cases hstep

private theorem sound_readLock (hs : s.Sound stream h)
    (hstep : machine s .readLock = some (s', es)) : s'.Sound stream (h ++ es) := by
  simp only [machine] at hstep
  split at hstep
  · next copied hpc =>
    split at hstep
    · cases hstep
    · cases hstep
      exact sound_moved hs (by rfl) (by rfl) (by simp [hpc, ReadPc.taken]) trivial
        (by simp [State.inFlight, hpc])
  · cases hstep

private theorem sound_readReturn (hs : s.Sound stream h)
    (hstep : machine s .readReturn = some (s', es)) : s'.Sound stream (h ++ es) := by
  simp only [machine] at hstep
  split at hstep
  · next copied hpc =>
    cases hstep
    exact sound_moved hs (by rfl) (by rfl) (by simp [hpc, ReadPc.taken, returned]) trivial
      (by simp [State.inFlight, hpc, dispatched])
  · cases hstep

theorem sound_step {step : Step} (hs : s.Sound stream h)
    (hstep : machine s step = some (s', es)) : s'.Sound stream (h ++ es) := by
  cases step with
  | send => exact sound_send hs hstep
  | intr => exact sound_intr hs hstep
  | intrLock => exact sound_intrLock hs hstep
  | intrDrain => exact sound_intrDrain hs hstep
  | intrDispatch => exact sound_intrDispatch hs hstep
  | read nWords => exact sound_read hs hstep
  | readCheck => exact sound_readCheck hs hstep
  | readGiveUp => exact sound_readGiveUp hs hstep
  | readCopy => exact sound_readCopy hs hstep
  | readAdvance => exact sound_readAdvance hs hstep
  | readDrain => exact sound_readDrain hs hstep
  | readDispatch => exact sound_readDispatch hs hstep
  | readLock => exact sound_readLock hs hstep
  | readReturn => exact sound_readReturn hs hstep

theorem sound_start (m : Shared) (stream : List Word) :
    (State.start m stream).Sound stream [] := by
  have hvalid : (pulpMboxClear m).fifo.Valid capacity := by
    refine ⟨show 0 < capacity by decide, show 0 < capacity by decide, ?_⟩
    intro hfull
    cases hfull
  have hempty : (pulpMboxClear m).fifo.contents capacity = [] := rfl
  refine ⟨[], rfl, ⟨hvalid, ?_, le_rfl, rfl⟩, trivial, List.Perm.refl _⟩
  simp [State.start, hempty, parse, Parse.start, returned, ReadPc.taken]

theorem sound_run {m : Shared} {steps : List Step}
    (hrun : machine.run (State.start m stream) steps = some (s, h)) : s.Sound stream h :=
  Machine.run_history (fun s h => s.Sound stream h) (fun _ _ => True)
    (fun _ _ _ _ _ hs _ hstep => sound_step hs hstep) (h := []) (sound_start m stream)
    (Machine.along_of_forall fun _ _ _ => trivial) hrun

/-- The bytes of a word as they reach user space. -/
def wordBytes (w : Word) : List (BitVec 8) :=
  [w.setWidth 8, (w >>> 8).setWidth 8, (w >>> 16).setWidth 8, (w >>> 24).setWidth 8]

/-- In every interleaving the bytes returned by the reads are a prefix of the payload PULP sent, no
payload word taken from the hardware FIFO is missing from what was returned, what the reader holds
and what is buffered, and the requests dispatched and in flight are the request words taken. -/
theorem mbox_stream_integrity (m : Shared) (frames : List Frame) (steps : List Step) (s : State)
    (h : List Event)
    (hrun : machine.run (State.start m (frames.flatMap Frame.words)) steps = some (s, h)) :
    (returned h).flatMap wordBytes <+: (frames.flatMap Frame.payload).flatMap wordBytes ∧
    ∃ taken, taken ++ s.shared.hardware ++ s.unsent = frames.flatMap Frame.words ∧
      (parse taken).payload
        = returned h ++ s.read.taken ++ s.shared.fifo.contents capacity ∧
      (parse taken).payload <+: frames.flatMap Frame.payload ∧
      (parse taken).requests <+: frames.flatMap Frame.requests ∧
      (dispatched h ++ s.inFlight).Perm ((parse taken).requests.map Request.ofWord) := by
  obtain ⟨taken, hstream, hacc⟩ := sound_run hrun
  have hprefix := parse_prefix taken (s.shared.hardware ++ s.unsent)
  rw [← List.append_assoc, hstream, parse_frames] at hprefix
  obtain ⟨hpayload, hrequests⟩ := hprefix
  refine ⟨?_, taken, hstream, hacc.tracks.payload, hpayload, hrequests, hacc.requests⟩
  have hout : returned h <+: frames.flatMap Frame.payload := by
    apply List.IsPrefix.trans _ hpayload
    rw [hacc.tracks.payload, List.append_assoc]
    exact List.prefix_append _ _
  obtain ⟨rest, hrest⟩ := hout
  rw [← hrest, List.flatMap_append]
  exact List.prefix_append _ _

/-- Two payload words and a switch request. -/
def sampleFrames : List Frame :=
  [.data [5#32, 6#32] (by decide), .switch 0x30000000#32 (by decide)]

/-- The interrupt drains everything and dispatches the switch while a read is copying. -/
def sampleSteps : List Step :=
  [.send, .send, .intr, .intrLock, .intrDrain, .intrDrain, .intrDrain, .read 4, .readCheck,
    .readCopy, .send, .send, .intr, .intrLock, .intrDrain, .intrDrain, .readAdvance,
    .intrDispatch, .intrLock, .intrDrain, .readReturn]

def sampleShared : Shared := ⟨[], ⟨fun _ => 0#32, 0, 0, false⟩, 0, 0⟩

theorem mbox_stream_integrity_sample :
    ∃ s h, machine.run (State.start sampleShared (sampleFrames.flatMap Frame.words)) sampleSteps
        = some (s, h) ∧ returned h = [5#32] ∧ dispatched h = [.switch] ∧
      (returned h).flatMap wordBytes <+:
        (sampleFrames.flatMap Frame.payload).flatMap wordBytes := by
  have hval : (machine.run (State.start sampleShared (sampleFrames.flatMap Frame.words))
      sampleSteps).map (fun r => r.2) = some [.dispatched .switch, .returned [5#32]] := by decide
  obtain ⟨⟨s, h⟩, hrun, heq⟩ := Option.map_eq_some_iff.mp hval
  have heq' : h = [.dispatched .switch, .returned [5#32]] := heq
  refine ⟨s, h, hrun, by rw [heq']; decide, by rw [heq']; decide, ?_⟩
  exact (mbox_stream_integrity sampleShared sampleFrames sampleSteps s h hrun).1

end Hero.Mbox
