import Hero.Driver.Rab.StripeTable
import Hero.Driver.Segmentation
import Hero.Libpulp.Offload

/-!
# Striped requests of the library

The stripes `pulp_rab_req_striped` computes for the elements of a task, and when they are the stripes
of these elements.
-/

namespace Hero.Libpulp

open Driver Rab

structure StripingDesc where
  nStripes : BitVec 32
  firstStripeSizeB : BitVec 32
  lastStripeSizeB : BitVec 32
  stripeSizeB : BitVec 32

/-- A data element with its `stripe_desc`; `none` where the pointer points to no descriptor. -/
structure StripedDataDesc extends DataDesc where
  stripeDesc : Option StripingDesc

structure StripedTask where
  name : String
  dataDesc : List StripedDataDesc

/-- The allocations of `pulp_rab_req_striped`, and the driver's answer. -/
structure StripeEnv where
  model : DataModel
  mallocElements : Bool
  mallocAddrs : Nat → Bool
  ioctl : Int

/-- A call ends early with an error, or has no defined result. -/
inductive StripeFailure where
  | error (code : Int)
  | fault
  deriving DecidableEq, Repr

structure StripeRequest where
  id : Nat
  nElements : Nat
  elements : List StripeElemUser

def ElemType.user : ElemType → Rab.ElemType
  | .inout => .inout
  | .input => .input
  | .output => .output

/-- `RAB_SET_PROT` and `RAB_SET_ACP` on empty flags -/
def stripeFlags (prot cacheCtrl : BitVec 8) : Nat := prot.toNat % 8 + cacheCtrl.toNat % 2 * 8

def StripingDesc.maxStripeSizeB (sd : StripingDesc) : BitVec 32 :=
  let max := sd.firstStripeSizeB
  let max := if sd.lastStripeSizeB > max then sd.lastStripeSizeB else max
  if sd.stripeSizeB > max then sd.stripeSizeB else max

/-- The size of stripe `j` of `n` -/
def StripingDesc.sizeOf (sd : StripingDesc) (n j : Nat) : BitVec 32 :=
  if j = 0 then sd.firstStripeSizeB
  else if j = n - 1 then sd.lastStripeSizeB
  else sd.stripeSizeB

structure StripeLoop where
  offsetStart : BitVec 32
  sizeB : BitVec 32
  table : List (BitVec 32 × BitVec 32)

/-- One iteration of the loop over the stripes of an element -/
def stripeStep (ptr : Nat) (size : Nat → BitVec 32) (overlap : BitVec 32) (s : StripeLoop) (j : Nat) :
    StripeLoop :=
  let offsetStart := if j = 0 then 0 else s.offsetStart + (s.sizeB - overlap)
  let addrStart := BitVec.ofNat 32 ptr + offsetStart
  ⟨offsetStart, size j, s.table ++ [(addrStart, addrStart + size j)]⟩

def stripeAddrs (ptr : Nat) (size : Nat → BitVec 32) (overlap : BitVec 32) (n : Nat) :
    List (BitVec 32 × BitVec 32) :=
  ((List.range n).foldl (stripeStep ptr size overlap) ⟨0, 0, []⟩).table

/-- The entry of the striped element number `i` -/
def stripeElem (i : Nat) (d : StripedDataDesc) (sd : StripingDesc)
    (table : List (BitVec 32 × BitVec 32)) : StripeElemUser where
  id := i % 2 ^ 8
  type := d.type.user
  flags := stripeFlags d.type.prot d.cacheCtrl
  maxStripeSizeB := sd.maxStripeSizeB.toNat
  nStripes := sd.nStripes.toNat
  stripeAddrStart := fun j => (table.getD j (0, 0)).1.toNat
  stripeAddrEnd := fun j => (table.getD j (0, 0)).2.toNat

namespace StripedTask

variable (task : StripedTask)

def striped : List StripedDataDesc := task.dataDesc.filter fun d => d.shMemCtrl = .svmStripe

/-- `n_ref_svm_stripe` of `pulp_offload_rab_setup`, which it passes for `n_elements` -/
def nRefSvmStripe : Nat := task.dataDesc.countP fun d => d.passType = .refSvmStripe

/-- The overlap of the stripes of an element: input elements of one application have one, of two
lines of the width that its fourth element holds. -/
def overlap (host : Nat → Byte) (d : StripedDataDesc) : Except StripeFailure (BitVec 32) :=
  if task.name = "rod" ∧ d.type = .input then
    match task.dataDesc[3]? with
    | some width => .ok (2 * (3 * load32 host width.ptr))
    | none => .error .fault
  else .ok 0

/-- The addresses of the stripes of the striped element number `i`: the sizes are read from the
descriptor of the element of the task with this number. -/
def stripesOf (host : Nat → Byte) (i : Nat) (d : StripedDataDesc) (n : Nat) :
    Except StripeFailure (List (BitVec 32 × BitVec 32)) := do
  let overlap ← task.overlap host d
  if n = 0 then .ok []
  else
    match task.dataDesc[i]?.bind (·.stripeDesc) with
    | some sd => .ok (stripeAddrs d.ptr (sd.sizeOf n) overlap n)
    | none => .error .fault

/-- The first loop for an element, with its descriptor -/
def announce (d : StripedDataDesc) : Except StripeFailure StripingDesc :=
  match d.stripeDesc with
  | some sd => .ok sd
  | none => .error .fault

/-- The second loop for the striped element number `i`, with what the first has announced -/
def fill (env : StripeEnv) (host : Nat → Byte) (i : Nat) (d : StripedDataDesc) (sd : StripingDesc) :
    Except StripeFailure StripeElemUser := do
  let n := sd.nStripes.toNat
  if !env.mallocAddrs i then .error (.error (-12))
  else if env.model.ulong (n * 4) < n * 4 then .error .fault
  else
    let table ← task.stripesOf host i d n
    return stripeElem i d sd table

/-- `pulp_rab_req_striped`: the request that reaches the driver; more striped elements than the
array has entries have no defined result. -/
def rabReqStriped (env : StripeEnv) (host : Nat → Byte) : Except StripeFailure (StripeRequest × Int) := do
  let nElements := task.nRefSvmStripe % 2 ^ 16
  if !env.mallocElements then .error (.error (-12))
  else if nElements < task.striped.length then .error .fault
  else
    let announced ← task.striped.mapM announce
    let elements ← ((task.striped.zip announced).zipIdx).mapM
      fun x => task.fill env host x.2 x.1.1 x.1.2
    return (⟨0, nElements, elements⟩, env.ioctl)

end StripedTask

section

variable {ptr n : Nat} {size : Nat → BitVec 32} {overlap : BitVec 32}

/-- Where stripe `j` starts -/
def stripeStart (ptr : Nat) (size : Nat → BitVec 32) (overlap : BitVec 32) : Nat → BitVec 32
  | 0 => BitVec.ofNat 32 ptr
  | j + 1 => stripeStart ptr size overlap j + (size j - overlap)

theorem stripeAddrs_eq :
    stripeAddrs ptr size overlap n = (List.range n).map fun j =>
      (stripeStart ptr size overlap j, stripeStart ptr size overlap j + size j) := by
  have hloop : ∀ n, let s := (List.range n).foldl (stripeStep ptr size overlap) ⟨0, 0, []⟩
      s.table = (List.range n).map (fun j =>
        (stripeStart ptr size overlap j, stripeStart ptr size overlap j + size j)) ∧
      BitVec.ofNat 32 ptr + (if n = 0 then 0 else s.offsetStart + (s.sizeB - overlap)) =
        stripeStart ptr size overlap n := by
    intro n
    induction n with
    | zero =>
      refine ⟨rfl, ?_⟩
      simp [stripeStart]
    | succ n ih =>
      rw [List.range_succ, List.foldl_append, List.map_append]
      generalize (List.range n).foldl (stripeStep ptr size overlap) ⟨0, 0, []⟩ = s at ih
      obtain ⟨htable, hstart⟩ := ih
      constructor
      · simp only [List.foldl_cons, List.foldl_nil, stripeStep, htable, hstart, List.map_cons,
          List.map_nil]
      · rw [if_neg (Nat.succ_ne_zero n), stripeStart, ← hstart, BitVec.add_assoc]
        rfl
  exact (hloop n).1

theorem stripeAddrs_getD {j : Nat} (hj : j < n) :
    (stripeAddrs ptr size overlap n).getD j (0, 0) =
      (stripeStart ptr size overlap j, stripeStart ptr size overlap j + size j) := by
  rw [stripeAddrs_eq, List.getD_eq_getElem?_getD, List.getElem?_map, List.getElem?_range hj]
  rfl

/-- Where stripe `j` starts, in exact arithmetic -/
def stripePos (ptr : Nat) (size : Nat → BitVec 32) (overlap : BitVec 32) : Nat → Int
  | 0 => ptr
  | j + 1 => stripePos ptr size overlap j + (size j).toNat - overlap.toNat

/-- The stripes up to `j` end below 2^32 in exact arithmetic and none starts below zero. -/
def StripesBelow (ptr : Nat) (size : Nat → BitVec 32) (overlap : BitVec 32) (n : Nat) : Prop :=
  ∀ j, j < n → 0 ≤ stripePos ptr size overlap j ∧
    stripePos ptr size overlap j + (size j).toNat < 2 ^ 32

theorem StripesBelow.start (h : StripesBelow ptr size overlap n) {j : Nat} (hj : j < n) :
    ((stripeStart ptr size overlap j).toNat : Int) = stripePos ptr size overlap j := by
  induction j with
  | zero =>
    have hlt := (h 0 hj).2
    rw [stripePos] at hlt
    rw [stripeStart, stripePos, BitVec.toNat_ofNat, Nat.mod_eq_of_lt (by omega)]
  | succ j ih =>
    have hprev := ih (by omega)
    have hnext := h (j + 1) hj
    rw [stripePos, ← hprev] at hnext ⊢
    have hlen := (size j).isLt
    have hover := overlap.isLt
    rw [stripeStart, BitVec.toNat_add, BitVec.toNat_sub]
    omega

theorem stripeStart_congr {size' : Nat → BitVec 32} {j : Nat} (h : ∀ l, l < j → size l = size' l) :
    stripeStart ptr size overlap j = stripeStart ptr size' overlap j := by
  induction j with
  | zero => rfl
  | succ j ih => rw [stripeStart, stripeStart, ih (fun l hl => h l (by omega)), h j (by omega)]

/-- The stripes of an element start with it, have its sizes and follow each other. -/
structure StripesOf (ptr : Nat) (sd : StripingDesc) (overlap : BitVec 32) (e : StripeElemUser) :
    Prop where
  count : e.nStripes = sd.nStripes.toNat
  first : 0 < e.nStripes → e.stripeAddrStart 0 = ptr
  size : ∀ j, j < e.nStripes →
    e.stripeAddrStart j + (sd.sizeOf e.nStripes j).toNat = e.stripeAddrEnd j
  next : ∀ j, j + 1 < e.nStripes → e.stripeAddrStart (j + 1) + overlap.toNat = e.stripeAddrEnd j
  le_max : ∀ j, j < e.nStripes → e.stripeAddrEnd j - e.stripeAddrStart j ≤ e.maxStripeSizeB

theorem sizeOf_le_max (sd : StripingDesc) (n j : Nat) :
    (sd.sizeOf n j).toNat ≤ sd.maxStripeSizeB.toNat := by
  simp only [StripingDesc.sizeOf, StripingDesc.maxStripeSizeB, gt_iff_lt, BitVec.lt_def]
  grind

/-- The stripes that are computed with the sizes of `sd'` are those of `sd` exactly when the sizes
agree and the addresses do not wrap. -/
theorem stripesOf_iff {sd sd' : StripingDesc} {e : StripeElemUser}
    (hn : e.nStripes = sd.nStripes.toNat) (hmax : e.maxStripeSizeB = sd.maxStripeSizeB.toNat)
    (hstart : ∀ j, j < e.nStripes →
      e.stripeAddrStart j = (stripeStart ptr (sd'.sizeOf e.nStripes) overlap j).toNat)
    (hend : ∀ j, j < e.nStripes → e.stripeAddrEnd j =
      (stripeStart ptr (sd'.sizeOf e.nStripes) overlap j + sd'.sizeOf e.nStripes j).toNat) :
    StripesOf ptr sd overlap e ↔
      (∀ j, j < e.nStripes → sd'.sizeOf e.nStripes j = sd.sizeOf e.nStripes j) ∧
        StripesBelow ptr (sd.sizeOf e.nStripes) overlap e.nStripes := by
  constructor
  · intro h
    have hsize : ∀ j, j < e.nStripes → sd'.sizeOf e.nStripes j = sd.sizeOf e.nStripes j := by
      intro j hj
      have hsum := h.size j hj
      have hown := (sd.sizeOf e.nStripes j).isLt
      have hused := (sd'.sizeOf e.nStripes j).isLt
      have hx := (stripeStart ptr (sd'.sizeOf e.nStripes) overlap j).isLt
      rw [hstart j hj, hend j hj, BitVec.toNat_add] at hsum
      apply BitVec.eq_of_toNat_eq
      omega
    refine ⟨hsize, ?_⟩
    have hpos : ∀ j, j < e.nStripes →
        stripePos ptr (sd.sizeOf e.nStripes) overlap j = e.stripeAddrStart j := by
      intro j
      induction j with
      | zero =>
        intro hj
        rw [h.first hj]
        rfl
      | succ j ih =>
        intro hj
        have hprev := ih (by omega)
        have hsum := h.size j (by omega)
        have hnext := h.next j hj
        rw [stripePos, hprev]
        omega
    intro j hj
    have hsum := h.size j hj
    have hlt : e.stripeAddrEnd j < 2 ^ 32 := by
      rw [hend j hj]
      exact BitVec.isLt _
    rw [hpos j hj]
    omega
  · intro h
    obtain ⟨hsize, hbelow⟩ := h
    have hpos : ∀ j, j < e.nStripes →
        (e.stripeAddrStart j : Int) = stripePos ptr (sd.sizeOf e.nStripes) overlap j := by
      intro j hj
      rw [hstart j hj, stripeStart_congr (fun l hl => hsize l (by omega))]
      exact hbelow.start hj
    have hsum : ∀ j, j < e.nStripes →
        e.stripeAddrStart j + (sd.sizeOf e.nStripes j).toNat = e.stripeAddrEnd j := by
      intro j hj
      have hlt := (hbelow j hj).2
      rw [← hpos j hj, hstart j hj] at hlt
      rw [hend j hj, hsize j hj, hstart j hj, BitVec.toNat_add, Nat.mod_eq_of_lt (by omega)]
    refine ⟨hn, ?_, hsum, ?_, ?_⟩
    · intro hj
      have hzero := hpos 0 hj
      rw [stripePos] at hzero
      omega
    · intro j hj
      have hnext := hpos (j + 1) hj
      have hcur := hpos j (by omega)
      have hend' := hsum j (by omega)
      rw [stripePos, ← hcur] at hnext
      omega
    · intro j hj
      have hend' := hsum j hj
      have hle := sizeOf_le_max sd e.nStripes j
      omega

end

section

variable {α β ε : Type} {f : α → Except ε β} {l : List α}

theorem bind_ok {x : Except ε α} {b : β} (h : (x >>= f) = .ok b) : ∃ a, x = .ok a ∧ f a = .ok b := by
  cases x with
  | error e => cases h
  | ok a => exact ⟨a, rfl, h⟩

theorem mapM_ok {r : List β} (h : l.mapM f = .ok r) :
    List.Forall₂ (fun a b => f a = .ok b) l r := by
  induction l generalizing r with
  | nil =>
    cases h
    exact List.Forall₂.nil
  | cons a l ih =>
    rw [List.mapM_cons] at h
    obtain ⟨b, hb, h⟩ := bind_ok h
    obtain ⟨bs, hbs, h⟩ := bind_ok h
    cases h
    exact List.Forall₂.cons hb (ih hbs)

theorem exists_mapM_ok (h : ∀ a ∈ l, ∃ b, f a = .ok b) : ∃ r, l.mapM f = .ok r := by
  induction l with
  | nil => exact ⟨[], rfl⟩
  | cons a l ih =>
    obtain ⟨b, hb⟩ := h a List.mem_cons_self
    obtain ⟨bs, hbs⟩ := ih (fun x hx => h x (List.mem_cons_of_mem a hx))
    refine ⟨b :: bs, ?_⟩
    rw [List.mapM_cons, hb, hbs]
    rfl

end

/-- The request lists the striped elements in order, each with its own stripes. -/
structure StripeRequest.Correct (task : StripedTask) (host : Nat → Byte) (req : StripeRequest) :
    Prop where
  nElements : req.nElements = task.striped.length
  length : req.elements.length = task.striped.length
  stripes : ∀ (i : Nat) d e, task.striped[i]? = some d → req.elements[i]? = some e →
    ∃ sd overlap, d.stripeDesc = some sd ∧ task.overlap host d = .ok overlap ∧
      StripesOf d.ptr sd overlap e

/-- The striped element number `i` has a descriptor whose stripes lie below 2^32, and the element of
the task with this number has one with the same sizes. -/
def StripedTask.Agrees (task : StripedTask) (env : StripeEnv) (host : Nat → Byte) (i : Nat)
    (d : StripedDataDesc) : Prop :=
  ∃ sd overlap, d.stripeDesc = some sd ∧ task.overlap host d = .ok overlap ∧
    env.mallocAddrs i = true ∧ sd.nStripes.toNat * 4 ≤ env.model.ulong (sd.nStripes.toNat * 4) ∧
    (0 < sd.nStripes.toNat → ∃ sd', task.dataDesc[i]?.bind (·.stripeDesc) = some sd' ∧
      ∀ j, j < sd.nStripes.toNat →
        sd'.sizeOf sd.nStripes.toNat j = sd.sizeOf sd.nStripes.toNat j) ∧
    StripesBelow d.ptr (sd.sizeOf sd.nStripes.toNat) overlap sd.nStripes.toNat

section

variable {task : StripedTask} {env : StripeEnv} {host : Nat → Byte} {i : Nat} {d : StripedDataDesc}
  {sd : StripingDesc}

theorem fill_ok {e : StripeElemUser} (h : task.fill env host i d sd = .ok e) :
    env.mallocAddrs i = true ∧ sd.nStripes.toNat * 4 ≤ env.model.ulong (sd.nStripes.toNat * 4) ∧
      ∃ table, task.stripesOf host i d sd.nStripes.toNat = .ok table ∧ e = stripeElem i d sd table := by
  simp only [StripedTask.fill] at h
  split_ifs at h with hmalloc hlong
  cases htable : task.stripesOf host i d sd.nStripes.toNat with
  | error err =>
    rw [htable] at h
    cases h
  | ok table =>
    rw [htable] at h
    cases h
    exact ⟨by simpa using hmalloc, not_lt.mp hlong, table, rfl, rfl⟩

theorem stripesOf_ok {n : Nat} {table : List (BitVec 32 × BitVec 32)}
    (h : task.stripesOf host i d n = .ok table) :
    ∃ overlap, task.overlap host d = .ok overlap ∧ (0 < n → ∃ sd',
      task.dataDesc[i]?.bind (·.stripeDesc) = some sd' ∧
        table = stripeAddrs d.ptr (sd'.sizeOf n) overlap n) := by
  rw [StripedTask.stripesOf] at h
  cases hover : task.overlap host d with
  | error err =>
    rw [hover] at h
    cases h
  | ok overlap =>
    rw [hover] at h
    refine ⟨overlap, rfl, ?_⟩
    intro hn
    change (if n = 0 then _ else _) = _ at h
    rw [if_neg hn.ne'] at h
    cases hsd : task.dataDesc[i]?.bind (·.stripeDesc) with
    | none =>
      rw [hsd] at h
      cases h
    | some sd' =>
      rw [hsd] at h
      cases h
      exact ⟨sd', rfl, rfl⟩

/-- An element is filled in with its own stripes exactly when it agrees. -/
theorem fill_iff (hsd : d.stripeDesc = some sd) :
    (∃ e, task.fill env host i d sd = .ok e ∧ ∃ overlap, task.overlap host d = .ok overlap ∧
      StripesOf d.ptr sd overlap e) ↔ task.Agrees env host i d := by
  have hcomputed : ∀ {sd' : StripingDesc} {overlap : BitVec 32},
      let e := stripeElem i d sd (stripeAddrs d.ptr (sd'.sizeOf sd.nStripes.toNat) overlap
        sd.nStripes.toNat)
      StripesOf d.ptr sd overlap e ↔
        (∀ j, j < sd.nStripes.toNat →
          sd'.sizeOf sd.nStripes.toNat j = sd.sizeOf sd.nStripes.toNat j) ∧
        StripesBelow d.ptr (sd.sizeOf sd.nStripes.toNat) overlap sd.nStripes.toNat := by
    intro sd' overlap
    apply stripesOf_iff rfl rfl
    · intro j hj
      simp only [stripeElem, stripeAddrs_getD (show j < sd.nStripes.toNat from hj)]
    · intro j hj
      simp only [stripeElem, stripeAddrs_getD (show j < sd.nStripes.toNat from hj)]
  constructor
  · intro h
    obtain ⟨e, hfill, overlap, hover, hstripes⟩ := h
    obtain ⟨hmalloc, hlong, table, htable, rfl⟩ := fill_ok hfill
    obtain ⟨overlap', hover', htable'⟩ := stripesOf_ok htable
    rw [hover] at hover'
    cases hover'
    rcases Nat.eq_zero_or_pos sd.nStripes.toNat with hzero | hpos
    · refine ⟨sd, overlap, hsd, hover, hmalloc, hlong, ?_, ?_⟩
      · intro hpos
        omega
      · intro j hj
        omega
    · obtain ⟨sd', hsd', rfl⟩ := htable' hpos
      obtain ⟨hsizes, hbelow⟩ := hcomputed.mp hstripes
      exact ⟨sd, overlap, hsd, hover, hmalloc, hlong, fun _ => ⟨sd', hsd', hsizes⟩, hbelow⟩
  · intro h
    obtain ⟨sd₁, overlap, hsd₁, hover, hmalloc, hlong, hown, hbelow⟩ := h
    rw [hsd] at hsd₁
    cases hsd₁
    have hgo : task.fill env host i d sd =
        (task.stripesOf host i d sd.nStripes.toNat).bind fun table =>
          .ok (stripeElem i d sd table) := by
      simp only [StripedTask.fill, hmalloc, Bool.not_true, if_neg Bool.false_ne_true,
        if_neg (not_lt.mpr hlong)]
      rfl
    rw [hgo, StripedTask.stripesOf, hover]
    rcases Nat.eq_zero_or_pos sd.nStripes.toNat with hzero | hpos
    · refine ⟨stripeElem i d sd [], ?_, overlap, rfl, ?_⟩
      · simp [bind, Except.bind, hzero]
      · refine ⟨rfl, ?_, ?_, ?_, ?_⟩ <;> simp [stripeElem, hzero]
    · obtain ⟨sd', hsd', hsizes⟩ := hown hpos
      refine ⟨_, ?_, overlap, rfl, hcomputed.mpr ⟨hsizes, hbelow⟩⟩
      simp [bind, Except.bind, hpos.ne', hsd']

end

/-- What a task needs to have its stripes passed: enough memory, no striped element that is passed by
value, fewer of them than `n_elements` can count, and sizes that agree. -/
structure StripedTask.Ready (task : StripedTask) (env : StripeEnv) (host : Nat → Byte) : Prop where
  malloc : env.mallocElements = true
  by_ref : ∀ d ∈ task.striped, 4 < d.size.toNat
  few : task.striped.length < 2 ^ 16
  agrees : ∀ (i : Nat) d, task.striped[i]? = some d → task.Agrees env host i d

/-- The elements that are counted are the striped ones of more than four bytes. -/
theorem nRefSvmStripe_eq (task : StripedTask) :
    task.nRefSvmStripe = task.striped.countP fun d => 4 < d.size.toNat := by
  rw [StripedTask.nRefSvmStripe, StripedTask.striped, List.countP_filter]
  apply List.countP_congr
  intro d _
  simp only [Bool.and_eq_true, decide_eq_true_eq]
  rw [DataDesc.passType]
  by_cases hsize : 4 < d.size.toNat
  · rw [if_pos hsize]
    generalize d.shMemCtrl = ctrl
    cases ctrl <;> simp [hsize]
  · simp [hsize]

/-- The array has an entry for each striped element exactly when all are counted. -/
theorem nElements_iff (task : StripedTask) :
    task.striped.length ≤ task.nRefSvmStripe % 2 ^ 16 ↔
      (∀ d ∈ task.striped, 4 < d.size.toNat) ∧ task.striped.length < 2 ^ 16 := by
  have hle : task.nRefSvmStripe ≤ task.striped.length := by
    rw [nRefSvmStripe_eq]
    exact List.countP_le_length
  have hall := List.countP_eq_length (p := fun d => decide (4 < d.size.toNat)) (l := task.striped)
  rw [← nRefSvmStripe_eq] at hall
  simp only [decide_eq_true_eq] at hall
  rw [← hall]
  constructor
  · intro h
    have hmod := Nat.mod_le task.nRefSvmStripe (2 ^ 16)
    have hlt := Nat.mod_lt task.nRefSvmStripe (show 0 < 2 ^ 16 by decide)
    omega
  · intro h
    rw [h.1, Nat.mod_eq_of_lt h.2]

theorem announce_ok {d : StripedDataDesc} {sd : StripingDesc}
    (h : StripedTask.announce d = .ok sd) : d.stripeDesc = some sd := by
  rw [StripedTask.announce] at h
  cases hsd : d.stripeDesc with
  | none =>
    rw [hsd] at h
    cases h
  | some sd' =>
    rw [hsd] at h
    cases h
    rfl

/-- What the two loops have done when both got to their ends -/
theorem loops_ok {task : StripedTask} {env : StripeEnv} {host : Nat → Byte}
    {announced : List StripingDesc} {elements : List StripeElemUser}
    (hann : task.striped.mapM StripedTask.announce = .ok announced)
    (helems : ((task.striped.zip announced).zipIdx.mapM
      fun x => task.fill env host x.2 x.1.1 x.1.2) = .ok elements) :
    elements.length = task.striped.length ∧ ∀ (i : Nat) d, task.striped[i]? = some d →
      ∃ sd e, d.stripeDesc = some sd ∧ elements[i]? = some e ∧ task.fill env host i d sd = .ok e := by
  have hann := mapM_ok hann
  have helems := mapM_ok helems
  have hlen := hann.length_eq
  have hlen' := helems.length_eq
  rw [List.length_zipIdx, List.length_zip, ← hlen, Nat.min_self] at hlen'
  refine ⟨hlen'.symm, ?_⟩
  intro i d hd
  obtain ⟨hi, rfl⟩ := List.getElem?_eq_some_iff.mp hd
  have hsd := (List.forall₂_iff_get.mp hann).2 i hi (by omega)
  have hfill := (List.forall₂_iff_get.mp helems).2 i
    (by rw [List.length_zipIdx, List.length_zip]; omega) (by omega)
  simp only [List.get_eq_getElem, List.getElem_zipIdx, List.getElem_zip, Nat.zero_add] at hfill hsd
  exact ⟨announced[i], elements[i], announce_ok hsd, List.getElem?_eq_getElem (by omega), hfill⟩

/-- The stripes of all striped elements reach the driver exactly when the task is ready for it. -/
theorem rabReqStriped_correct_iff (task : StripedTask) (env : StripeEnv) (host : Nat → Byte) :
    (∃ req err, task.rabReqStriped env host = .ok (req, err) ∧ req.Correct task host) ↔
      task.Ready env host := by
  constructor
  · intro h
    obtain ⟨req, err, hreq, hcorrect⟩ := h
    simp only [StripedTask.rabReqStriped] at hreq
    split_ifs at hreq with hmalloc hfew
    obtain ⟨announced, hann, hreq⟩ := bind_ok hreq
    obtain ⟨elements, helems, hreq⟩ := bind_ok hreq
    cases hreq
    have hcount := (nElements_iff task).mp (not_lt.mp hfew)
    refine ⟨by simpa using hmalloc, hcount.1, hcount.2, ?_⟩
    intro i d hd
    obtain ⟨sd, e, hsd, he, hfill⟩ := (loops_ok hann helems).2 i d hd
    obtain ⟨sd₁, overlap, hsd₁, hover, hstripes⟩ := hcorrect.stripes i d e hd he
    rw [hsd] at hsd₁
    cases hsd₁
    exact (fill_iff hsd).mp ⟨e, hfill, overlap, hover, hstripes⟩
  · intro h
    have hfew : ¬ task.nRefSvmStripe % 2 ^ 16 < task.striped.length :=
      not_lt.mpr ((nElements_iff task).mpr ⟨h.by_ref, h.few⟩)
    have hannounce : ∀ d ∈ task.striped, ∃ sd, StripedTask.announce d = .ok sd := by
      intro d hd
      obtain ⟨i, hi⟩ := List.mem_iff_getElem?.mp hd
      obtain ⟨sd, _, hsd, _⟩ := h.agrees i d hi
      exact ⟨sd, by rw [StripedTask.announce, hsd]⟩
    obtain ⟨announced, hann⟩ := exists_mapM_ok hannounce
    have hfill : ∀ x ∈ (task.striped.zip announced).zipIdx,
        ∃ e, task.fill env host x.2 x.1.1 x.1.2 = .ok e := by
      intro x hx
      obtain ⟨⟨d, sd⟩, i⟩ := x
      obtain ⟨hd, hsd⟩ := List.getElem?_zip_eq_some.mp (List.mem_zipIdx_iff_getElem?.mp hx)
      simp only at hd hsd
      obtain ⟨hi, rfl⟩ := List.getElem?_eq_some_iff.mp hd
      obtain ⟨hi', rfl⟩ := List.getElem?_eq_some_iff.mp hsd
      have hown := announce_ok ((List.forall₂_iff_get.mp (mapM_ok hann)).2 i hi hi')
      obtain ⟨e, he, _⟩ := (fill_iff hown).mpr (h.agrees i _ hd)
      exact ⟨e, he⟩
    obtain ⟨elements, helems⟩ := exists_mapM_ok hfill
    obtain ⟨hlen, hloops⟩ := loops_ok hann helems
    refine ⟨⟨0, task.nRefSvmStripe % 2 ^ 16, elements⟩, env.ioctl, ?_, ?_, hlen, ?_⟩
    · simp only [StripedTask.rabReqStriped, h.malloc, Bool.not_true, if_neg Bool.false_ne_true,
        if_neg hfew, hann, bind, Except.bind, helems]
      rfl
    · have hle : task.nRefSvmStripe ≤ task.striped.length := by
        rw [nRefSvmStripe_eq]
        exact List.countP_le_length
      have hmod := Nat.mod_le task.nRefSvmStripe (2 ^ 16)
      show task.nRefSvmStripe % 2 ^ 16 = task.striped.length
      omega
    · intro i d e hd he
      obtain ⟨sd, e', hsd, he', hfill'⟩ := hloops i d hd
      change elements[i]? = some e at he
      rw [he'] at he
      cases he
      obtain ⟨e₁, hfill₁, overlap, hover, hstripes⟩ := (fill_iff hsd).mpr (h.agrees i d hd)
      rw [hfill'] at hfill₁
      cases hfill₁
      exact ⟨sd, overlap, hsd, hover, hstripes⟩

/-- An element of two stripes behind one that is not striped, whose descriptor says otherwise: the
stripes have the other's sizes. -/
def interleavedTask : StripedTask where
  name := "task"
  dataDesc :=
    [⟨⟨0x1000, 0, 0, 64#32, .input, .copy, 0#8, 0#8⟩, some ⟨2#32, 32#32, 32#32, 32#32⟩⟩,
      ⟨⟨0x2000, 0, 0, 96#32, .input, .svmStripe, 0#8, 0#8⟩, some ⟨2#32, 64#32, 32#32, 64#32⟩⟩]

theorem rabReqStriped_not_correct :
    ∃ req, interleavedTask.rabReqStriped ⟨.ilp32, true, fun _ => true, 0⟩ (fun _ => 0) =
        .ok (req, 0) ∧ ¬ req.Correct interleavedTask (fun _ => 0) := by
  refine ⟨_, rfl, ?_⟩
  intro h
  obtain ⟨sd, overlap, hsd, _, hstripes⟩ := h.stripes 0 _ _ rfl rfl
  cases hsd
  have hsize := hstripes.size 0 (by decide)
  revert hsize
  decide

/-- A request that is correct is one the driver can serve, if no overlap exceeds a stripe. -/
theorem StripesOf.wellFormed {ptr : Nat} {sd : StripingDesc} {overlap : BitVec 32}
    {e : StripeElemUser} (h : StripesOf ptr sd overlap e) (hpos : 0 < sd.nStripes.toNat)
    (hlt : ∀ j, j < e.nStripes → e.stripeAddrEnd j < 2 ^ 32)
    (hover : ∀ j, j < e.nStripes → overlap.toNat ≤ (sd.sizeOf e.nStripes j).toNat) :
    e.WellFormed where
  pos := by
    rw [h.count]
    exact hpos
  start_mono := by
    intro j hj
    have hsize := h.size j (by omega)
    have hnext := h.next j hj
    have hle := hover j (by omega)
    omega
  end_mono := by
    intro j hj
    have hsize := h.size (j + 1) hj
    have hnext := h.next j hj
    have hle := hover (j + 1) hj
    omega
  le := by
    intro j hj
    have hsize := h.size j hj
    omega
  size := h.le_max
  lt := hlt

end Hero.Libpulp
