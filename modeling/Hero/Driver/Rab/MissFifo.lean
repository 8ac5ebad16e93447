import Hero.Driver.Rab.FreeExpired
import Hero.Driver.Rab.RegisterFormat
import Hero.Framework.BitField

/-!
# The FIFO of misses

`pulp_rab_handle_miss` with the words it reads from the FIFO, what the kernel answers and the cores it
wakes.
-/

namespace Hero.Rab

open Driver Flags Interp BitField

/-- The widths of the fields of the word that comes with a miss: `AXI_ID_WIDTH_CORE`,
`AXI_ID_WIDTH_CLUSTER`, `AXI_ID_WIDTH_SOC` and `AXI_USER_WIDTH` -/
structure AxiWidths where
  core : Nat
  cluster : Nat
  soc : Nat
  user : Nat

/-- `AXI_ID_WIDTH` -/
def AxiWidths.id (w : AxiWidths) : Nat := w.core + w.cluster + w.soc

/-- `RAB_MH_FIFO_DEPTH` -/
def Platform.mhFifoDepth : Platform → Nat
  | .zedboard => 8
  | _ => 64

/-- `N_CORES` -/
def Platform.nCores : Platform → Nat
  | .zedboard | .ariane => 2
  | _ => 8

/-- What `get_user_pages_remote` returns for one page. -/
inductive Pinning where
  | pinned (pfn : Nat)
  | efault
  | failed

/-- A miss in the FIFO, and what the kernel answers when it is handled: whether it has memory for a list
of one page, and what pinning the page for writing and for reading gives. -/
structure FifoMiss where
  metaWord : BitVec 32
  addr : BitVec 32
  kmalloc : Bool
  pinWrite : Pinning
  pinRead : Pinning

inductive Effect where
  | kmalloc
  | kfree
  | pin (p : Pin)
  | put (p : Pin)
  | map (start slice : Nat)
  | wake (cluster pe : Nat)
  | report (e : Err)
  deriving DecidableEq

namespace FifoMiss

variable (plat : Platform) (w : AxiWidths) (m : FifoMiss)

def idPe : Nat := (bfGet m.metaWord 0 w.core).toNat

def idCluster : Nat := (bfGet m.metaWord (w.cluster + w.core) w.soc).toNat

def axuser : BitVec 32 := bfGet m.metaWord (w.id + 1) w.user

/-- What an empty FIFO returns -/
def isEmpty : Bool := m.metaWord &&& 0x80000000#32 != 0#32

/-- The miss is on Port 1 and from the data interface of a PE. -/
def served : Bool :=
  bfGet m.metaWord w.id 1 != 0#32 && bfGet m.metaWord w.core w.cluster == 2#32 &&
    !(m.idCluster w > plat.nClusters - 1 || m.idPe w > plat.nCores - 1)

def start : Nat := pageBase m.addr.toNat

/-- Pin the page for writing, or for reading where it may not be written. -/
def page : Option (Bool × Nat) := match m.pinWrite with
  | .pinned pfn => some (true, pfn)
  | .efault => match m.pinRead with
    | .pinned pfn => some (false, pfn)
    | _ => none
  | .failed => none

def wakeUp : List Effect :=
  if m.axuser w = 0#32 then [.wake (m.idCluster w) (m.idPe w)] else []

end FifoMiss

/-- The handler between two misses: the RAB, the request structure and the addresses read so far. -/
structure Handler where
  rab : RabState
  req : SliceReq
  earlier : List Nat

/-- A miss that has been read, what the handler did and the RAB after it. -/
structure Handled where
  miss : FifoMiss
  effects : List Effect
  after : RabState

namespace Handler

variable (plat : Platform) (w : AxiWidths)

/-- There has been a miss to the same page before. -/
def repeats (h : Handler) (m : FifoMiss) : Bool := h.earlier.any fun addr => pageBase addr = m.start

/-- The loop body of `pulp_rab_handle_miss`; nothing is given back after an error. -/
def handle (h : Handler) (m : FifoMiss) : Handler × List Effect :=
  let next : Handler := { h with earlier := h.earlier ++ [m.addr.toNat] }
  if m.served plat w then
    if h.repeats m then (next, m.wakeUp w)
    else if m.kmalloc then
      match m.page with
      | some (write, pfn) =>
        let pin := Effect.pin ⟨h.rab.kernel.nextArray, 0⟩
        match (driver plat).exec (handlePage plat h.req m.start write pfn) h.rab with
        | (.ok req, s) =>
          ({ next with rab := s, req := req }, [.kmalloc, pin, .map m.start req.rabSlice] ++ m.wakeUp w)
        | (.error e, s) => ({ next with rab := s }, [.kmalloc, pin, .report e])
      | none => (next, [.kmalloc, .report .fault])
    else (next, [.report .enomem])
  else (next, [])

def run : Handler → List FifoMiss → List Handled
  | _, [] => []
  | h, m :: ms =>
    let (h', effects) := h.handle plat w m
    ⟨m, effects, h'.rab⟩ :: run h' ms

/-- The handler after some misses -/
def afterAll : Handler → List FifoMiss → Handler
  | h, [] => h
  | h, m :: ms => afterAll (h.handle plat w m).1 ms

end Handler

/-- The misses one run reads -/
def readMisses (plat : Platform) (fifo : List FifoMiss) : List FifoMiss :=
  (fifo.takeWhile fun m => !m.isEmpty).take plat.mhFifoDepth

/-- `pulp_rab_handle_miss` -/
def rabHandleFifo (plat : Platform) (w : AxiWidths) (stack : SliceReq) (s : RabState)
    (fifo : List FifoMiss) : List Handled :=
  Handler.run plat w ⟨s, stack, []⟩ (readMisses plat fifo)

/-- What the handling of slices sees of a miss. -/
def FifoMiss.miss (plat : Platform) (w : AxiWidths) (m : FifoMiss) : Miss where
  addr := m.addr.toNat
  served := m.served plat w
  page := if m.kmalloc then m.page else none

section

variable {plat : Platform} {w : AxiWidths} {s : RabState} {req : SliceReq}

/-- The RAB after a miss -/
theorem Handler.exec_handle (h : Handler) (m : FifoMiss) (ms : List Miss) :
    ((driver plat).exec (handleMisses plat h.req h.earlier (m.miss plat w :: ms)) h.rab).2 =
      ((driver plat).exec (handleMisses plat (h.handle plat w m).1.req (h.handle plat w m).1.earlier ms)
        (h.handle plat w m).1.rab).2 := by
  rw [handleMisses, Handler.handle]
  have hrepeats : (h.earlier.any fun addr => pageBase addr = pageBase (m.miss plat w).addr) = h.repeats m :=
    rfl
  have hserved : (m.miss plat w).served = m.served plat w := rfl
  have hpage : (m.miss plat w).page = if m.kmalloc then m.page else none := rfl
  simp only [hrepeats, hserved, hpage]
  cases m.kmalloc with
  | false =>
    cases m.served plat w with
    | false => rfl
    | true => cases h.repeats m <;> rfl
  | true =>
    cases hp : m.page with
    | none =>
      cases m.served plat w with
      | false => rfl
      | true => cases h.repeats m <;> rfl
    | some page =>
      obtain ⟨write, pfn⟩ := page
      cases m.served plat w with
      | false => rfl
      | true =>
        cases h.repeats m with
        | true => rfl
        | false =>
          simp only [Bool.not_false, Bool.and_self, if_true, Bool.false_eq_true, if_false]
          change ((driver plat).exec (((handlePage plat h.req m.start write pfn).handle _).bind _) h.rab).2 = _
          rw [exec_bind, Interp.exec_handle]
          cases hexec : (driver plat).exec (handlePage plat h.req m.start write pfn) h.rab with
          | mk r s =>
            cases r with
            | ok req => rfl
            | error e => rfl

/-- The RAB after a run is the one that the calls of the handler leave. -/
theorem Handler.exec_afterAll (h : Handler) (ms : List FifoMiss) :
    ((driver plat).exec (handleMisses plat h.req h.earlier (ms.map (FifoMiss.miss plat w))) h.rab).2 =
      (h.afterAll plat w ms).rab := by
  induction ms generalizing h with
  | nil => rfl
  | cons m ms ih => rw [List.map_cons, exec_handle, ih, afterAll]

theorem exec_rabHandleMiss (stack : SliceReq) (s : RabState) (fifo : List FifoMiss) :
    ((driver plat).exec (rabHandleMiss plat stack ((readMisses plat fifo).map (FifoMiss.miss plat w))) s).2 =
      (Handler.afterAll plat w ⟨s, stack, []⟩ (readMisses plat fifo)).rab :=
  Handler.exec_afterAll ⟨s, stack, []⟩ (readMisses plat fifo)

end

end Hero.Rab
