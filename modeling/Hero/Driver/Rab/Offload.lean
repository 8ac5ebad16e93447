import Hero.Driver.Rab.Operations

/-!
# Offloading tasks

How the library on the host has slices mapped for the shared data of a task and released again.  The
slices of a task are told by dates of eight bits.
-/

namespace Hero.Rab

open Driver Flags

/-- `ShMemType` -/
inductive ShMemType where
  | copy
  | svmStatic
  | svmStripe
  | svmMh
  | copyTryx
  | svmSmmu
  | svmSmmuShpt
  | custom
  deriving DecidableEq, Repr

/-- `ElemPassType` -/
inductive ElemPassType where
  | val
  | refCopy
  | refSvmStatic
  | refSvmStripe
  | refSvmMh
  | refCustom
  deriving DecidableEq, Repr

structure DataDesc where
  ptr : Nat
  size : Nat
  type : ElemType
  shMemCtrl : ShMemType
  cacheCtrl : Nat
  rabLvl : Nat
  deriving DecidableEq, Repr

namespace DataDesc

variable (d : DataDesc)

/-- `pulp_offload_get_pass_type`, for one element -/
def passType : ElemPassType :=
  if d.size > 4 then
    match d.shMemCtrl with
    | .copy | .copyTryx | .svmSmmuShpt => .refCopy
    | .svmStatic => .refSvmStatic
    | .svmStripe => .refSvmStripe
    | .svmMh | .svmSmmu => .refSvmMh
    | .custom => .refCustom
  else .val

def prot : Nat := match d.type with
  | .inout => 7
  | .input => 3
  | .output => 5

end DataDesc

/-- A mapping that `pulp_offload_rab_setup` requests. -/
structure Interval where
  addr : Nat
  sizeB : Nat
  prot : Nat
  cacheCtrl : Nat
  rabLvl : Nat
  deriving DecidableEq, Repr

def swapNext (order : List Nat) (j : Nat) : List Nat :=
  (order.set j (order.getD (j + 1) 0)).set (j + 1) (order.getD j 0)

/-- One round of the bubble sort; the comparison is of elements `j` and `j + 1` of the task, wherever
they are in the order. -/
def sweep (ptr : Nat → Nat) (order : List Nat) (i : Nat) : List Nat :=
  (List.range (i - 1)).foldl (fun order j => if ptr j > ptr (j + 1) then swapNext order j else order)
    order

/-- The elements to map at offload time, ordered. -/
def staticOrder (data : List DataDesc) : List DataDesc :=
  let select := (List.range data.length).filter fun i =>
    (data[i]?.map DataDesc.passType) = some .refSvmStatic
  let ptr j := (data[j]?.map DataDesc.ptr).getD 0
  ((List.range' 2 (select.length - 1)).reverse.foldl (sweep ptr) select).filterMap fun i => data[i]?

/-- `RAB_CONFIG_MAX_GAP_SIZE_B` -/
def maxGapSizeB : Nat := 0x1000

/-- Extend the last interval, which comes first in the list, or create a new one. -/
def addInterval (intervals : List Interval) (d : DataDesc) : List Interval :=
  let new := ⟨u32 d.ptr, d.size, d.prot, d.cacheCtrl, d.rabLvl⟩
  match intervals with
  | [] => [new]
  | last :: rest =>
    let gapSize := sub32 (u32 d.ptr) (u32 (last.addr + last.sizeB))
    -- gap too large, different prot, different cache ctrl setting, different RAB level
    if gapSize > maxGapSizeB ∨ d.prot ≠ last.prot ∨ d.cacheCtrl ≠ last.cacheCtrl ∨
        d.rabLvl ≠ last.rabLvl then
      new :: last :: rest
    else { last with sizeB := u32 (last.sizeB + (gapSize + d.size)) } :: rest

def intervals (data : List DataDesc) : List Interval :=
  ((staticOrder data).foldl addInterval []).reverse

/-- A task with its data; for each request, what the kernel stack holds and what pinning gives. -/
structure TaskDesc where
  id : Nat
  data : List DataDesc
  reqStack : Nat → SliceReq
  users : Nat → UserPages
  /-- the striped elements, as described to the driver -/
  elem : Nat → StripeElemUser × UserPages
  stripedStack : SliceReq

/-- `date_exp` of the slices of a task -/
def taskDateExp (id : Nat) : Nat := u8 (id + 30)

/-- `date_cur` when a task is set up -/
def setupDate (id : Nat) : Nat := u8 (id + 1)

/-- `date_cur` when a task is freed -/
def freeDate (id : Nat) : Nat := u8 (id + 41)

def Interval.request (iv : Interval) (id : Nat) (stack : SliceReq) : SliceReq :=
  { stack with
    flagsHw := BitVec.ofNat 8 (iv.prot % 8 + 8 * (iv.cacheCtrl % 2))
    rabPort := .port1
    dateExp := taskDateExp id
    dateCur := setupDate id
    rabMapping := 0
    addrStart := iv.addr
    addrEnd := u32 (iv.addr + iv.sizeB) }

namespace TaskDesc

variable (plat : Platform) (task : TaskDesc)

/-- `n_ref_svm_static` -/
def nStatic : Nat := task.data.countP fun d => d.passType = .refSvmStatic

/-- `n_ref_svm_stripe` -/
def nStripe : Nat := task.data.countP fun d => d.passType = .refSvmStripe

/-- Request an interval; the library goes on after an error. -/
def reqInterval (iv : Interval) (i : Nat) : Op Unit :=
  reporting ((rabReq plat (task.users i) (iv.request task.id (task.reqStack i))).bind fun _ => return ())

/-- The first part of `pulp_offload_rab_setup`: regular slices. -/
def setupStatic : Op Unit :=
  if task.nStatic ≠ 0 then
    Prog.session ((intervals task.data).zipIdx.map fun (iv, i) => task.reqInterval plat iv i)
  else return ()

/-- The second part of `pulp_offload_rab_setup`: striped slices, always with offload ID 0. -/
def setupStriped : Op Unit :=
  if task.nStripe ≠ 0 then
    rabReqStriped plat task.stripedStack 0 ((List.range task.nStripe).map task.elem)
  else return ()

def freeStatic (stack : SliceReq) : Op Unit :=
  if task.nStatic ≠ 0 then rabFree plat stack (freeDate task.id) false else return ()

def freeStriped (stack : SliceReq) : Op Unit :=
  if task.nStripe ≠ 0 then rabFreeStriped stack 0 else return ()

/-- `pulp_offload_rab_free` -/
def rabFree (stack : SliceReq) : Op Unit :=
  (task.freeStatic plat stack).andThen (task.freeStriped stack)

end TaskDesc

end Hero.Rab
