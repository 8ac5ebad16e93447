import Hero.Framework.Writes
import Hero.Libpulp.L3Memory

/-!
# Offloading a task

How the data elements of a task get to the accelerator and back: which of them are passed by value, by
copy or by reference, the copies in the contiguous L3 memory and the words in the mailbox.
-/

namespace Hero.Libpulp

open Rab O1Heap

abbrev Byte := BitVec 8

inductive ElemType where
  | inout
  | input
  | output
  deriving DecidableEq, Repr

inductive ShMemType where
  | copy
  | svmStatic
  | svmStripe
  | svmMh
  | copyTryx
  | svmSmmu
  | svmSmmuShpt
  | custom
  deriving DecidableEq, Repr

inductive ElemPassType where
  | val
  | refCopy
  | refSvmStatic
  | refSvmStripe
  | refSvmMh
  | refCustom
  deriving DecidableEq, Repr

structure DataDesc where
  ptr : Nat
  ptrL3V : Nat
  ptrL3P : Nat
  size : BitVec 32
  type : ElemType
  shMemCtrl : ShMemType
  cacheCtrl : BitVec 8
  rabLvl : BitVec 8

structure TaskDesc where
  taskId : Int
  dataDesc : List DataDesc

/-- `pulp_offload_get_pass_type` for an element -/
def DataDesc.passType (d : DataDesc) : ElemPassType :=
  if 4 < d.size.toNat then
    match d.shMemCtrl with
    | .copy => .refCopy
    | .svmStatic => .refSvmStatic
    | .svmStripe => .refSvmStripe
    | .svmMh => .refSvmMh
    | .copyTryx => .refCopy
    | .svmSmmu => .refSvmMh
    | .svmSmmuShpt => .refCopy
    | .custom => .refCustom
  else .val

/-- A mapping to request -/
structure RabInterval where
  vAddr : BitVec 32
  size : BitVec 32
  prot : BitVec 8
  cacheCtrl : BitVec 8
  rabLvl : BitVec 8

structure RabReqArgs where
  interval : RabInterval
  port : BitVec 8
  dateExp : BitVec 8
  dateCur : BitVec 8

/-- What `pulp_mbox_read` does with the buffer for the words it is to read -/
structure MboxResult where
  ret : Int
  buffer : Nat → BitVec 32
  overrun : Bool

/-- The callees: the driver's answers to the requests for mappings and the mailbox; the words that the
accelerator sends are an argument of the latter. -/
structure OffloadEnv where
  plat : Platform
  window : Nat
  rabReq : Nat → RabReqArgs → Int
  rabReqStriped : Int
  mboxRead : (Nat → BitVec 32) → Nat → MboxResult

/-- The host memory and the L3 memory, by virtual addresses -/
structure OffloadState where
  host : Nat → Byte
  l3 : Nat → Byte
  mem : L3State

/-- A run returns, returns an error, or has no defined result. -/
inductive Outcome (α : Type) where
  | ok (a : α) (s : OffloadState)
  | error (code : Int) (s : OffloadState)
  | fault

def Outcome.bind {α β : Type} : Outcome α → (α → OffloadState → Outcome β) → Outcome β
  | .ok a s, f => f a s
  | .error code s, _ => .error code s
  | .fault, _ => .fault

namespace Outcome

variable {α β : Type} {o : Outcome α} {f : α → OffloadState → Outcome β} {s : OffloadState}

@[simp] theorem ok_bind (a : α) : (Outcome.ok a s).bind f = f a s := rfl

@[simp] theorem error_bind (code : Int) :
    (Outcome.error code s : Outcome α).bind f = .error code s := rfl

@[simp] theorem fault_bind : (Outcome.fault : Outcome α).bind f = .fault := rfl

theorem bind_eq_ok {b : β} : o.bind f = .ok b s ↔ ∃ a t, o = .ok a t ∧ f a t = .ok b s := by
  cases o <;> simp

def NoError (o : Outcome α) : Prop := ∀ code s, o ≠ .error code s

theorem NoError.bind (ho : o.NoError) (hf : ∀ a s, (f a s).NoError) : (o.bind f).NoError := by
  cases o with
  | ok a s => exact hf a s
  | error code s => exact absurd rfl (ho code s)
  | fault => exact fun code s h => by cases h

theorem noError_ok (a : α) : (Outcome.ok a s).NoError := fun code s h => by cases h

theorem noError_fault : (Outcome.fault : Outcome α).NoError := fun code s h => by cases h

end Outcome

section RabSetup

def ElemType.prot : ElemType → BitVec 8
  | .inout => 0x7
  | .input => 0x3
  | .output => 0x5

/-- Exchange two neighbours. -/
def swapAt (order : List Nat) (j : Nat) : List Nat :=
  (order.set j (order.getD (j + 1) 0)).set (j + 1) (order.getD j 0)

/-- The bubble sort of the elements with static mappings; it compares other elements than it
exchanges. -/
def bubbleSort (ptr : Nat → Nat) (order : List Nat) : List Nat :=
  ((List.range (order.length + 1)).reverse.filter (1 < ·)).foldl (fun order i =>
    (List.range (i - 1)).foldl (fun order j =>
      if ptr j > ptr (j + 1) then swapAt order j else order) order) order

def DataDesc.interval (d : DataDesc) : RabInterval :=
  ⟨BitVec.ofNat 32 d.ptr, d.size, d.type.prot, d.cacheCtrl, d.rabLvl⟩

/-- Extend the last interval by an element or begin a new one. -/
def addInterval (ints : List RabInterval) (d : DataDesc) : List RabInterval :=
  match ints.getLast? with
  | none => [d.interval]
  | some last =>
    let gapSize := BitVec.ofNat 32 d.ptr - (last.vAddr + last.size)
    if 0x1000 < gapSize.toNat ∨ d.type.prot ≠ last.prot ∨ d.cacheCtrl ≠ last.cacheCtrl ∨
        d.rabLvl ≠ last.rabLvl then
      ints ++ [d.interval]
    else ints.dropLast ++ [{ last with size := last.size + (gapSize + d.size) }]

/-- The requests for static mappings -/
def TaskDesc.rabRequests (task : TaskDesc) : List RabReqArgs :=
  let ds := task.dataDesc
  let order := (List.range ds.length).filter fun i =>
    (ds[i]?.map DataDesc.passType) = some .refSvmStatic
  let order := bubbleSort (fun i => (ds[i]?.map DataDesc.ptr).getD 0) order
  ((order.filterMap (ds[·]?)).foldl addInterval []).map fun interval =>
    ⟨interval, 1, BitVec.ofInt 8 (task.taskId + 30), BitVec.ofInt 8 (task.taskId + 1)⟩

/-- The elements `pulp_rab_req_striped` allocates entries for, and those it fills in entries for -/
def TaskDesc.nRefSvmStripe (task : TaskDesc) : Nat :=
  task.dataDesc.countP fun d => d.passType = .refSvmStripe

def TaskDesc.nStriped (task : TaskDesc) : Nat :=
  task.dataDesc.countP fun d => d.shMemCtrl = .svmStripe

/-- `pulp_offload_rab_setup`: the results of the requests for static mappings are not looked at. -/
def rabSetup (env : OffloadEnv) (s : OffloadState) (task : TaskDesc) : Outcome Unit :=
  if 0 < task.nRefSvmStripe then
    if task.nRefSvmStripe < task.nStriped then .fault
    else if env.rabReqStriped ≠ 0 then .error env.rabReqStriped s
    else .ok () s
  else .ok () s

end RabSetup

section Copies

variable (env : OffloadEnv)

/-- The bytes are in the mapped L3 memory. -/
def OffloadEnv.InWindow (vAddr n : Nat) : Prop :=
  env.window ≤ vAddr ∧ vAddr + n ≤ env.window + env.plat.l3MemSizeB

instance (vAddr n : Nat) : Decidable (env.InWindow vAddr n) := inferInstanceAs (Decidable (_ ∧ _))

/-- `memcpy` between the host memory and the L3 memory -/
def memcpy (dst src : Nat → Byte) (addr start n : Nat) : Nat → Byte :=
  Write.apply dst ⟨addr, n, fun k => src (start + k)⟩

theorem memcpy_inside {dst src : Nat → Byte} {addr start n k : Nat} (hk : k < n) :
    memcpy dst src addr start n (addr + k) = src (start + k) := by
  have hcovers : (⟨addr, n, fun k => src (start + k)⟩ : Write Byte).Covers (addr + k) :=
    ⟨Nat.le_add_right addr k, Nat.add_lt_add_left hk addr⟩
  rw [memcpy, Write.apply, if_pos hcovers, Nat.add_sub_cancel_left]

theorem memcpy_outside {dst src : Nat → Byte} {addr start n a : Nat}
    (ha : a < addr ∨ addr + n ≤ a) : memcpy dst src addr start n a = dst a := by
  rw [memcpy, Write.apply, if_neg]
  intro hcovers
  obtain ⟨hle, hlt⟩ := hcovers
  change addr ≤ a at hle
  change a < addr + n at hlt
  omega

/-- `pulp_l3_malloc`, with the block noted as live -/
def l3Malloc (mem : L3State) (sizeB : BitVec 32) : Option (Nat × Nat) × L3State :=
  let res := pulpL3Malloc env.plat env.window mem.heap sizeB
  (res.1, ⟨res.2, (res.1.map Prod.fst).toList ++ mem.live⟩)

/-- `pulp_offload_l3_copy_raw_out`: a copy to `NULL` or outside of the L3 memory has no defined
result. -/
def l3CopyRawOut (s : OffloadState) : List DataDesc → Outcome (List DataDesc)
  | [] => .ok [] s
  | d :: ds =>
    if d.passType = .refCopy then
      let (res, mem) := l3Malloc env s.mem d.size
      let vAddr := (res.map Prod.fst).getD 0
      let d' := { d with ptrL3V := vAddr, ptrL3P := (res.map Prod.snd).getD d.ptrL3P }
      if d.type = .output then
        (l3CopyRawOut { s with mem } ds).bind fun ds s => .ok (d' :: ds) s
      else if vAddr ≠ 0 ∧ env.InWindow vAddr d.size.toNat then
        let l3 := memcpy s.l3 s.host vAddr d.ptr d.size.toNat
        (l3CopyRawOut { s with mem, l3 } ds).bind fun ds s => .ok (d' :: ds) s
      else .fault
    else (l3CopyRawOut s ds).bind fun ds s => .ok (d :: ds) s

/-- `pulp_offload_l3_copy_raw_in`: freeing what is not allocated has no defined result. -/
def l3CopyRawIn (s : OffloadState) : List DataDesc → Outcome Unit
  | [] => .ok () s
  | d :: ds =>
    if d.passType = .refCopy then
      if d.type = .input ∨ env.InWindow d.ptrL3V d.size.toNat then
        let host := if d.type = .input then s.host
          else memcpy s.host s.l3 d.ptr d.ptrL3V d.size.toNat
        if d.ptrL3V ∈ s.mem.live then
          l3CopyRawIn { s with
            host
            mem := ⟨pulpL3Free env.plat s.mem.heap d.ptrL3V, s.mem.live.filter (· ≠ d.ptrL3V)⟩ } ds
        else .fault
      else .fault
    else l3CopyRawIn s ds

end Copies

/-- The bytes of a word, least significant first -/
def wordByte (w : BitVec 32) (k : Fin 4) : Byte := (w >>> (8 * (k : Nat))).setWidth 8

def load32 (mem : Nat → Byte) (p : Nat) : BitVec 32 :=
  mem (p + 3) ++ mem (p + 2) ++ mem (p + 1) ++ mem p

/-- `pulp_offload_pass_desc`: the words that are written to the mailbox -/
def passDesc (host : Nat → Byte) (ds : List DataDesc) : List (BitVec 32) :=
  ds.filterMap fun d => match d.passType with
    | .val => if d.type = .output then none else some (load32 host d.ptr)
    | .refCopy => some (BitVec.ofNat 32 d.ptrL3P)
    | .refCustom => some (BitVec.ofNat 32 d.ptrL3P)
    | _ => some (BitVec.ofNat 32 d.ptr)

/-- An element that is passed back by value -/
def DataDesc.IsValOut (d : DataDesc) : Prop := d.passType = .val ∧ d.type ≠ .input

instance (d : DataDesc) : Decidable d.IsValOut := inferInstanceAs (Decidable (_ ∧ _))

local instance neZeroWord : NeZero 4 := ⟨four_ne_zero⟩

/-- The last loop of `pulp_offload_get_desc` -/
def storeValues (buffer : Nat → BitVec 32) (host : Nat → Byte) (j : Nat) :
    List DataDesc → (Nat → Byte) × Nat
  | [] => (host, j)
  | d :: ds =>
    if d.IsValOut then
      let word : Write Byte := ⟨d.ptr, 4, fun k => wordByte (buffer j) (Fin.ofNat 4 k)⟩
      storeValues buffer (Write.apply host word) (j + 1) ds
    else storeValues buffer host j ds

/-- `pulp_offload_get_desc`: what `pulp_mbox_read` returns is not looked at. -/
def getDesc (env : OffloadEnv) (stream : Nat → BitVec 32) (s : OffloadState) (ds : List DataDesc) :
    Outcome Unit :=
  let nValues := ds.countP (·.IsValOut)
  let res := env.mboxRead stream nValues
  if res.overrun then .fault
  else
    let (host, j) := storeValues res.buffer s.host 0 ds
    if j ≠ nValues then .error (-5) { s with host } else .ok () { s with host }

/-- `pulp_offload_out`: the descriptors with the addresses of the copies, and the words sent -/
def offloadOut (env : OffloadEnv) (s : OffloadState) (task : TaskDesc) :
    Outcome (List DataDesc × List (BitVec 32)) :=
  (rabSetup env s task).bind fun _ s =>
    (l3CopyRawOut env s task.dataDesc).bind fun ds s => .ok (ds, passDesc s.host ds) s

/-- `pulp_offload_in` -/
def offloadIn (env : OffloadEnv) (stream : Nat → BitVec 32) (s : OffloadState)
    (ds : List DataDesc) : Outcome Unit :=
  (l3CopyRawIn env s ds).bind fun _ s => getDesc env stream s ds

/-- What the accelerator makes of the words and of the L3 memory: the words it sends back and the new
contents -/
structure Answer where
  stream : Nat → BitVec 32
  l3 : Nat → Byte

abbrev Accelerator := List (BitVec 32) → (Nat → Byte) → Answer

/-- What is left of a task that has been offloaded, run and taken back: the descriptors, the L3 memory
the accelerator found and its answer -/
structure Finished where
  ds : List DataDesc
  sent : Nat → Byte
  answer : Answer

def roundTrip (env : OffloadEnv) (accel : Accelerator) (s : OffloadState) (task : TaskDesc) :
    Outcome Finished :=
  (offloadOut env s task).bind fun out s =>
    let answer := accel out.2 s.l3
    (offloadIn env answer.stream { s with l3 := answer.l3 } out.1).bind fun _ s' =>
      .ok ⟨out.1, s.l3, answer⟩ s'

end Hero.Libpulp
