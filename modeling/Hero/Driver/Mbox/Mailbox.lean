import Hero.Driver.Mbox.Frames
import Hero.Framework.Machine
import Hero.Framework.RingBuffer

/-!
# The host side of the mailbox

`pulp_mbox_intr` and `pulp_mbox_read` drain the hardware FIFO into `mbox_fifo` under one lock, which
they drop to dispatch a request and to copy to user space.
-/

namespace Hero.Mbox

/-- `MBOX_FIFO_DEPTH` -/
def mboxFifoDepth : Nat := 16

/-- The length of the array `mbox_fifo`. -/
abbrev capacity : Nat := 2 * mboxFifoDepth

/-- What the lock protects, and the words in the hardware FIFO. -/
structure Shared where
  hardware : List Word
  fifo : Ring Word
  nWordsWritten : Nat
  nWordsToWrite : Nat

/-- `pulp_mbox_clear`; the cells keep what they had. -/
def pulpMboxClear (m : Shared) : Shared where
  hardware := []
  fifo := { m.fifo with rd := 0, wr := 0, full := false }
  nWordsWritten := 0
  nWordsToWrite := 0

/-- How one pass of a drain loop ends. -/
inductive Drained where
  | stop
  | next (m : Shared)
  | request (m : Shared) (data : Word)

/-- One pass of the loop `while mailbox not empty and FIFO buffer not full` of both functions. -/
def drain (m : Shared) : Drained :=
  match m.hardware with
  | [] => .stop
  | data :: hardware =>
    if m.fifo.full then .stop
    else
      let m := { m with hardware }
      if m.nWordsWritten = m.nWordsToWrite then
        if toRuntime = getReqType data then
          .next { m with nWordsToWrite := getNWords data, nWordsWritten := 0 }
        else .request m data
      else
        .next { m with
          fifo := m.fifo.push capacity data
          nWordsWritten := m.nWordsWritten + 1 }

/-- Where `pulp_mbox_intr` stands. -/
inductive IntrPc where
  | idle
  | locking
  | draining
  | dispatching (r : Request)
  | relocking

/-- Where `pulp_mbox_read` stands; `copied` is what has reached user space. -/
inductive ReadPc where
  | idle
  | checking (nWords : Nat)
  | copying (nWords : Nat) (copied : List Word)
  | draining (copied : List Word)
  | dispatching (r : Request) (copied : List Word)
  | relocking (copied : List Word)
  | returning (copied : List Word)

structure State where
  shared : Shared
  /-- what PULP has still to send -/
  unsent : List Word
  locked : Bool
  intr : IntrPc
  read : ReadPc

inductive Step where
  | send
  | intr
  | intrLock
  | intrDrain
  | intrDispatch
  | read (nWords : Nat)
  | readCheck
  | readGiveUp
  | readCopy
  | readAdvance
  | readDrain
  | readDispatch
  | readLock
  | readReturn

inductive Event where
  | returned (ws : List Word)
  | dispatched (r : Request)
  deriving DecidableEq

def State.empty (s : State) : Bool :=
  s.shared.fifo.wr = s.shared.fifo.rd && !s.shared.fifo.full

/-- PULP, the interrupt handler and one reader, one step at a time. -/
def machine : Machine State Step Event := fun s step =>
  match step with
  | .send =>
    match s.unsent with
    | w :: unsent =>
      some ({ s with shared := { s.shared with hardware := s.shared.hardware ++ [w] }, unsent }, [])
    | [] => none
  | .intr =>
    match s.intr with
    | .idle => some ({ s with intr := .locking }, [])
    | _ => none
  | .intrLock =>
    match s.intr with
    | .locking | .relocking =>
      if s.locked then none else some ({ s with locked := true, intr := .draining }, [])
    | _ => none
  | .intrDrain =>
    match s.intr with
    | .draining =>
      match drain s.shared with
      | .stop => some ({ s with locked := false, intr := .idle }, [])
      | .next shared => some ({ s with shared }, [])
      | .request shared data =>
        some ({ s with shared, locked := false, intr := .dispatching (.ofWord data) }, [])
    | _ => none
  | .intrDispatch =>
    match s.intr with
    | .dispatching r => some ({ s with intr := .relocking }, [.dispatched r])
    | _ => none
  | .read nWords =>
    match s.read with
    | .idle => if 0 < nWords then some ({ s with read := .checking nWords }, []) else none
    | _ => none
  -- the sections that only look at or move the indices are one step each
  | .readCheck =>
    match s.read with
    | .checking nWords =>
      if s.locked || s.empty then none
      else
        let nWords := min nWords (s.shared.fifo.available capacity)
        some ({ s with read := .copying nWords [] }, [])
    | _ => none
  | .readGiveUp =>
    match s.read with
    | .checking _ => if s.locked || !s.empty then none else some ({ s with read := .idle }, [])
    | _ => none
  | .readCopy =>
    match s.read with
    | .copying nWords copied =>
      if copied.length < nWords then
        let w := s.shared.fifo.cells (s.shared.fifo.rd + copied.length)
        some ({ s with read := .copying nWords (copied ++ [w]) }, [])
      else none
    | _ => none
  | .readAdvance =>
    match s.read with
    | .copying nWords copied =>
      if s.locked || copied.length < nWords then none
      else
        let shared := { s.shared with fifo := s.shared.fifo.advance capacity nWords }
        if s.shared.fifo.full && 0 < nWords then
          some ({ s with shared, locked := true, read := .draining copied }, [])
        else some ({ s with shared, read := .returning copied }, [])
    | _ => none
  | .readDrain =>
    match s.read with
    | .draining copied =>
      match drain s.shared with
      | .stop => some ({ s with locked := false, read := .returning copied }, [])
      | .next shared => some ({ s with shared }, [])
      | .request shared data =>
        some ({ s with shared, locked := false, read := .dispatching (.ofWord data) copied }, [])
    | _ => none
  | .readDispatch =>
    match s.read with
    | .dispatching r copied => some ({ s with read := .relocking copied }, [.dispatched r])
    | _ => none
  | .readLock =>
    match s.read with
    | .relocking copied =>
      if s.locked then none else some ({ s with locked := true, read := .draining copied }, [])
    | _ => none
  | .readReturn =>
    match s.read with
    | .returning copied => some ({ s with read := .idle }, [.returned copied])
    | _ => none

/-- The state after `pulp_mbox_clear`, with all of `stream` to come. -/
def State.start (m : Shared) (stream : List Word) : State :=
  ⟨pulpMboxClear m, stream, false, .idle, .idle⟩

def returned (h : List Event) : List Word :=
  h.flatMap fun
    | .returned ws => ws
    | .dispatched _ => []

def dispatched (h : List Event) : List Request :=
  h.flatMap fun
    | .returned _ => []
    | .dispatched r => [r]

/-- Words the reader has taken out of `mbox_fifo` and not yet returned. -/
def ReadPc.taken : ReadPc → List Word
  | .draining copied | .dispatching _ copied | .relocking copied | .returning copied => copied
  | .idle | .checking _ | .copying .. => []

/-- Requests taken from the hardware FIFO and not yet dispatched. -/
def State.inFlight (s : State) : List Request :=
  (match s.intr with
    | .dispatching r => [r]
    | _ => []) ++
  match s.read with
  | .dispatching r _ => [r]
  | _ => []

end Hero.Mbox
