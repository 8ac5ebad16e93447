import Mathlib.Data.List.Basic
import Mathlib.Logic.Function.Basic
import Mathlib.Tactic.Common

/-!
# Arguments of parallel regions

The runtime packs the variable arguments of a fork call into words, and the function that the
compiler pass wraps around the outlined one loads its parameters from there.
-/

namespace Hero.Omp

/-- The types of parameters -/
inductive ArgWidth where
  | i32
  | i64
  deriving DecidableEq, Repr

inductive Arg where
  | i32 (v : BitVec 32)
  | i64 (v : BitVec 64)
  deriving DecidableEq, Repr

def Arg.width : Arg → ArgWidth
  | .i32 _ => .i32
  | .i64 _ => .i64

/-- Values of the intermediate representation: parameters of the function and results of
instructions -/
inductive IrValue where
  | param (n : Nat)
  | inst (n : Nat)

inductive IrInst where
  /-- the address of an element of an array of elements of `stride` bytes -/
  | gep (stride : Nat) (ptr : IrValue) (index : Nat)
  | bitCast (ptr : IrValue)
  | load (ty : ArgWidth) (ptr : IrValue)

/-- A function that calls another one -/
structure Wrapper where
  insts : List IrInst
  callee : String
  args : List IrValue

inductive IrFunction where
  | outlined (params : List ArgWidth)
  | wrapper (w : Wrapper)

/-- A call of `__kmpc_fork_call`; the outlined function is unknown if the operand is none. -/
structure ForkSite where
  microtask : Option String
  args : List Arg

structure IrModule where
  functions : String → Option IrFunction
  calls : List ForkSite

def ompWrapperPrefix : String := "__wrapper_omp"

/-- The instructions for a parameter: the buffer is an array of pointers of the device. -/
def derefParam (i : Nat) (ty : ArgWidth) : List IrInst :=
  [.gep 4 (.param 2) i, .bitCast (.inst (3 * i)), .load ty (.inst (3 * i + 1))]

def derefParams : Nat → List ArgWidth → List IrInst
  | _, [] => []
  | i, ty :: tys => derefParam i ty ++ derefParams (i + 1) tys

/-- The loaded parameters -/
def derefArgs : Nat → List ArgWidth → List IrValue
  | _, [] => []
  | i, _ :: tys => .inst (3 * i + 2) :: derefArgs (i + 1) tys

def buildWrapper (kernel : String) (params : List ArgWidth) : Wrapper where
  insts := derefParams 0 params
  callee := kernel
  args := [.param 0, .param 1] ++ derefArgs 0 params

/-- The parameters of a function behind the first two -/
def IrFunction.params : IrFunction → List ArgWidth
  | .outlined params => params
  | .wrapper _ => [.i32]

/-- One round of the loop of `wrapOmpOutlinedFuncs` -/
def wrapCall (functions : String → Option IrFunction) (call : ForkSite) :
    (String → Option IrFunction) × ForkSite :=
  match call.microtask with
  | none => (functions, call)
  | some kernel =>
    match functions kernel with
    | none => (functions, call)
    | some f =>
      let funcName := ompWrapperPrefix ++ kernel
      (if (functions funcName).isNone then
        Function.update functions funcName (some (.wrapper (buildWrapper kernel f.params)))
      else functions, { call with microtask := some funcName })

def wrapCalls (functions : String → Option IrFunction) :
    List ForkSite → (String → Option IrFunction) × List ForkSite
  | [] => (functions, [])
  | call :: calls =>
    let (functions, call) := wrapCall functions call
    let (functions, calls) := wrapCalls functions calls
    (functions, call :: calls)

def wrapOmpOutlinedFuncs (M : IrModule) : IrModule :=
  let (functions, calls) := wrapCalls M.functions M.calls
  ⟨functions, calls⟩

/-- What is unknown about a run: how many words the calling convention skips in front of a 64-bit
argument, what is in them and in the memory behind the buffer, and where a thread has its number. -/
structure ForkEnv where
  gap : Nat → Nat
  skipped : Nat → BitVec 32
  behind : Nat → BitVec 32
  idAddr : BitVec 32

/-- The words that the caller passes as variable arguments, from position `pos` on -/
def vaWords (env : ForkEnv) (pos : Nat) : List Arg → List (BitVec 32)
  | [] => []
  | .i32 v :: args => v :: vaWords env (pos + 1) args
  | .i64 v :: args =>
    (List.range (env.gap pos)).map (fun i => env.skipped (pos + i)) ++
      [v.setWidth 32, (v >>> 32).setWidth 32] ++ vaWords env (pos + env.gap pos + 2) args

/-- The buffer of `__kmpc_fork_call` from `args[1]` on: `argc` words of the variable arguments, then
memory that is not the buffer's. -/
def packArgs (env : ForkEnv) (args : List Arg) (i : Nat) : BitVec 32 :=
  if i < args.length then (vaWords env 0 args).getD i (env.skipped i) else env.behind i

/-- Run-time values: addresses in the buffer and others -/
inductive RtValue where
  | ptr (offset : Nat)
  | arg (a : Arg)
  deriving DecidableEq

/-- A load of the given type at an offset of the buffer -/
def loadArg (words : Nat → BitVec 32) (ty : ArgWidth) (offset : Nat) : Arg :=
  match ty with
  | .i32 => .i32 (words (offset / 4))
  | .i64 => .i64 (words (offset / 4 + 1) ++ words (offset / 4))

def IrValue.eval (params results : List RtValue) : IrValue → Option RtValue
  | .param n => params[n]?
  | .inst n => results[n]?

def IrInst.eval (words : Nat → BitVec 32) (params results : List RtValue) : IrInst → Option RtValue
  | .gep stride ptr index => do
    let .ptr offset ← ptr.eval params results | none
    return .ptr (offset + stride * index)
  | .bitCast ptr => ptr.eval params results
  | .load ty ptr => do
    let .ptr offset ← ptr.eval params results | none
    return .arg (loadArg words ty offset)

def evalInsts (words : Nat → BitVec 32) (params : List RtValue) :
    List RtValue → List IrInst → Option (List RtValue)
  | results, [] => some results
  | results, inst :: insts => do
    let v ← inst.eval words params results
    evalInsts words params (results ++ [v]) insts

/-- A call of a function by its name: the outlined function that is entered in the end, and what it
gets. -/
def callFunction (functions : String → Option IrFunction) (words : Nat → BitVec 32) (name : String)
    (params : List RtValue) : Option (String × List RtValue) := do
  match ← functions name with
  | .outlined _ => some (name, params)
  | .wrapper w => do
    let results ← evalInsts words params [] w.insts
    let args ← w.args.mapM (IrValue.eval params results)
    return (w.callee, args)

/-- `__kmpc_fork_call` and `__microtask_wrapper` on a thread -/
def forkCallOn (env : ForkEnv) (functions : String → Option IrFunction) (call : ForkSite) :
    Option (String × List RtValue) := do
  let id := RtValue.arg (.i32 env.idAddr)
  callFunction functions (packArgs env call.args) (← call.microtask) [id, id, .ptr 0]

section Wrapper

variable {words : Nat → BitVec 32} {params pre : List RtValue}

/-- The results of the instructions for a parameter -/
def derefResult (words : Nat → BitVec 32) (i : Nat) (ty : ArgWidth) : List RtValue :=
  [.ptr (4 * i), .ptr (4 * i), .arg (loadArg words ty (4 * i))]

def derefResults (words : Nat → BitVec 32) : Nat → List ArgWidth → List RtValue
  | _, [] => []
  | i, ty :: tys => derefResult words i ty ++ derefResults words (i + 1) tys

/-- The parameters that a wrapper loads from slot `i` on -/
def loadArgs (words : Nat → BitVec 32) : Nat → List ArgWidth → List Arg
  | _, [] => []
  | i, ty :: tys => loadArg words ty (4 * i) :: loadArgs words (i + 1) tys

theorem length_derefResult {i : Nat} (ty : ArgWidth) (hpre : pre.length = 3 * i) :
    (pre ++ derefResult words i ty).length = 3 * (i + 1) := by
  simp [derefResult, hpre]
  omega

theorem evalInsts_derefParam (hbuf : params[2]? = some (.ptr 0)) {i : Nat} (ty : ArgWidth)
    (insts : List IrInst) (hpre : pre.length = 3 * i) :
    evalInsts words params pre (derefParam i ty ++ insts) =
      evalInsts words params (pre ++ derefResult words i ty) insts := by
  have hgep : (pre ++ [RtValue.ptr (4 * i)])[3 * i]? = some (.ptr (4 * i)) := by
    rw [← hpre]
    simp
  have hcast : (pre ++ [RtValue.ptr (4 * i)] ++ [RtValue.ptr (4 * i)])[3 * i + 1]? =
      some (.ptr (4 * i)) := by
    rw [← hpre]
    simp
  simp only [derefParam, List.cons_append, List.nil_append, evalInsts, IrInst.eval, IrValue.eval,
    hbuf, Option.bind_eq_bind, Option.bind_some, Option.pure_def, Nat.zero_add, hgep, hcast]
  simp [derefResult]

theorem evalInsts_derefParams (hbuf : params[2]? = some (.ptr 0)) {i : Nat} (tys : List ArgWidth)
    (hpre : pre.length = 3 * i) : evalInsts words params pre (derefParams i tys) =
      some (pre ++ derefResults words i tys) := by
  induction tys generalizing i pre with
  | nil => simp [derefParams, derefResults, evalInsts]
  | cons ty tys ih =>
    rw [derefParams, evalInsts_derefParam hbuf ty _ hpre, ih (length_derefResult ty hpre)]
    simp [derefResults]

theorem mapM_derefArgs {results : List RtValue} {i : Nat} (tys : List ArgWidth)
    (hpre : pre.length = 3 * i) (hres : results = pre ++ derefResults words i tys) :
    (derefArgs i tys).mapM (IrValue.eval params results) =
      some ((loadArgs words i tys).map .arg) := by
  induction tys generalizing i pre with
  | nil => rfl
  | cons ty tys ih =>
    have hnext : (pre ++ derefResult words i ty).length = 3 * (i + 1) := length_derefResult ty hpre
    have hrest := ih hnext (by simp [hres, derefResults])
    have hload : results[3 * i + 2]? = some (.arg (loadArg words ty (4 * i))) := by
      rw [hres, List.getElem?_append_right (by omega), hpre]
      simp [derefResults, derefResult]
    simp [derefArgs, IrValue.eval, hload, hrest, loadArgs]

end Wrapper

/-- A wrapper passes its first two parameters and the loaded ones. -/
theorem callFunction_wrapper {functions : String → Option IrFunction} {name kernel : String}
    {tys : List ArgWidth} (words : Nat → BitVec 32) (id : RtValue)
    (hname : functions name = some (.wrapper (buildWrapper kernel tys))) :
    callFunction functions words name [id, id, .ptr 0] =
      some (kernel, [id, id] ++ (loadArgs words 0 tys).map .arg) := by
  have hinsts : evalInsts words [id, id, .ptr 0] [] (derefParams 0 tys) =
      some (derefResults words 0 tys) := evalInsts_derefParams rfl tys rfl
  have hargs : (derefArgs 0 tys).mapM (IrValue.eval [id, id, .ptr 0] (derefResults words 0 tys)) =
      some ((loadArgs words 0 tys).map .arg) := mapM_derefArgs tys rfl (List.nil_append _).symm
  simp [callFunction, hname, buildWrapper, hinsts, IrValue.eval, hargs]

section Pass

variable {functions functions' : String → Option IrFunction} {kernel : String} {tys : List ArgWidth}

/-- What a table of functions is after some rounds of the pass: functions are only added, and the
wrapper of an outlined function is the one built for it. -/
structure Wrapped (M : IrModule) (functions : String → Option IrFunction) : Prop where
  keeps : ∀ name f, M.functions name = some f → functions name = some f
  wrappers : ∀ kernel tys, M.functions kernel = some (.outlined tys) →
    functions (ompWrapperPrefix ++ kernel) = none ∨
      functions (ompWrapperPrefix ++ kernel) = some (.wrapper (buildWrapper kernel tys))

/-- No function has the name of a wrapper yet. -/
def IrModule.Unwrapped (M : IrModule) : Prop := ∀ name, M.functions (ompWrapperPrefix ++ name) = none

theorem wrapped_self {M : IrModule} (hM : M.Unwrapped) : Wrapped M M.functions :=
  ⟨fun _ _ h => h, fun kernel _ _ => Or.inl (hM kernel)⟩

variable {M : IrModule} {call : ForkSite} {calls : List ForkSite}

theorem Wrapped.round (hw : Wrapped M functions) (call : ForkSite) :
    Wrapped M (wrapCall functions call).1 ∧
      ∀ name f, functions name = some f → (wrapCall functions call).1 name = some f := by
  rw [wrapCall]
  split
  · exact ⟨hw, fun _ _ h => h⟩
  · next kernel hkernel =>
    split
    · exact ⟨hw, fun _ _ h => h⟩
    · next f hf =>
      dsimp only
      split
      · next hnone =>
        rw [Option.isNone_iff_eq_none] at hnone
        have hgrow : ∀ name g, functions name = some g →
            Function.update functions (ompWrapperPrefix ++ kernel)
              (some (.wrapper (buildWrapper kernel f.params))) name = some g := by
          intro name g hname
          rw [Function.update_of_ne]
          · exact hname
          · intro heq
            rw [heq, hnone] at hname
            cases hname
        refine ⟨⟨fun name g hname => hgrow name g (hw.keeps name g hname), ?_⟩, hgrow⟩
        intro k tys hk
        by_cases hkernel : k = kernel
        · subst hkernel
          right
          have hfk := hw.keeps k _ hk
          rw [hf] at hfk
          cases hfk
          simp [IrFunction.params]
        · have hne : ompWrapperPrefix ++ k ≠ ompWrapperPrefix ++ kernel := by
            intro heq
            exact hkernel ((String.append_right_inj _).mp heq)
          rw [Function.update_of_ne hne]
          exact hw.wrappers k tys hk
      · exact ⟨hw, fun _ _ h => h⟩

theorem Wrapped.rounds (hw : Wrapped M functions) (calls : List ForkSite) :
    ∀ name f, functions name = some f → (wrapCalls functions calls).1 name = some f := by
  induction calls generalizing functions with
  | nil => exact fun _ _ h => h
  | cons call calls ih =>
    intro name f hname
    obtain ⟨hw', hgrow⟩ := hw.round call
    exact ih hw' name f (hgrow name f hname)

/-- A round turns a call of an outlined function into one of its wrapper. -/
theorem Wrapped.round_outlined (hw : Wrapped M functions) (hcall : call.microtask = some kernel)
    (hkernel : M.functions kernel = some (.outlined tys)) :
    (wrapCall functions call).2 = { call with microtask := some (ompWrapperPrefix ++ kernel) } ∧
      (wrapCall functions call).1 (ompWrapperPrefix ++ kernel) =
        some (.wrapper (buildWrapper kernel tys)) := by
  simp only [wrapCall, hcall, hw.keeps kernel _ hkernel, true_and]
  obtain hnone | hsome := hw.wrappers kernel tys hkernel
  · simp [hnone, IrFunction.params]
  · simp [hsome]

theorem Wrapped.rounds_outlined (hw : Wrapped M functions) {i : Nat} (hi : calls[i]? = some call)
    (hcall : call.microtask = some kernel) (hkernel : M.functions kernel = some (.outlined tys)) :
    (wrapCalls functions calls).2[i]? =
        some { call with microtask := some (ompWrapperPrefix ++ kernel) } ∧
      (wrapCalls functions calls).1 (ompWrapperPrefix ++ kernel) =
        some (.wrapper (buildWrapper kernel tys)) := by
  induction calls generalizing functions i with
  | nil => cases hi
  | cons c calls ih =>
    obtain ⟨hw', -⟩ := hw.round c
    cases i with
    | zero =>
      cases hi
      obtain ⟨heq, hwrapper⟩ := hw.round_outlined hcall hkernel
      exact ⟨congrArg some heq, hw'.rounds calls _ _ hwrapper⟩
    | succ i => exact ih hw' hi

end Pass

/-- What the outlined function of a call gets -/
def Passed (env : ForkEnv) (M : IrModule) (i : Nat) (kernel : String) (args : List Arg) : Prop :=
  ∃ call, (wrapOmpOutlinedFuncs M).calls[i]? = some call ∧
    forkCallOn env (wrapOmpOutlinedFuncs M).functions call =
      some (kernel, [.arg (.i32 env.idAddr), .arg (.i32 env.idAddr)] ++ args.map .arg)

/-- The outlined function is entered with what its wrapper loads. -/
theorem passed_iff {M : IrModule} {env : ForkEnv} {i : Nat} {call : ForkSite} {kernel : String}
    {tys : List ArgWidth} (hM : M.Unwrapped) (hi : M.calls[i]? = some call)
    (hcall : call.microtask = some kernel) (hkernel : M.functions kernel = some (.outlined tys)) :
    Passed env M i kernel call.args ↔ loadArgs (packArgs env call.args) 0 tys = call.args := by
  obtain ⟨hi', hwrapper⟩ := (wrapped_self hM).rounds_outlined hi hcall hkernel
  have hrun : forkCallOn env (wrapOmpOutlinedFuncs M).functions
      { call with microtask := some (ompWrapperPrefix ++ kernel) } = some (kernel,
        [.arg (.i32 env.idAddr), .arg (.i32 env.idAddr)] ++
          (loadArgs (packArgs env call.args) 0 tys).map .arg) :=
    callFunction_wrapper _ _ hwrapper
  have hinj : Function.Injective RtValue.arg := fun _ _ h => RtValue.arg.inj h
  constructor
  · intro hpassed
    obtain ⟨call', hcall', hrun'⟩ := hpassed
    rw [wrapOmpOutlinedFuncs, hi'] at hcall'
    cases hcall'
    rw [hrun] at hrun'
    simpa [List.map_inj_right hinj] using hrun'
  · intro hload
    rw [hload] at hrun
    exact ⟨_, hi', hrun⟩

/-- The function gets what is passed, whatever is in the words that the caller did not write. -/
def PassesArgs (gap : Nat → Nat) (tys : List ArgWidth) : Prop :=
  ∀ (skipped behind : Nat → BitVec 32) (idAddr : BitVec 32) (M : IrModule), M.Unwrapped →
    ∀ (i : Nat) (call : ForkSite) (kernel : String), M.calls[i]? = some call →
      call.microtask = some kernel → M.functions kernel = some (.outlined tys) →
      call.args.map Arg.width = tys → Passed ⟨gap, skipped, behind, idAddr⟩ M i kernel call.args

theorem exists_words {args : List Arg} (h : ∀ ty ∈ args.map Arg.width, ty = .i32) :
    ∃ vs : List (BitVec 32), args = vs.map .i32 := by
  induction args with
  | nil => exact ⟨[], rfl⟩
  | cons arg args ih =>
    obtain ⟨vs, rfl⟩ := ih fun ty hty => h ty (by simp [hty])
    cases arg with
    | i32 v => exact ⟨v :: vs, rfl⟩
    | i64 v => cases h .i64 (by simp [Arg.width])

theorem vaWords_words (env : ForkEnv) (pos : Nat) (vs : List (BitVec 32)) :
    vaWords env pos (vs.map .i32) = vs := by
  induction vs generalizing pos with
  | nil => rfl
  | cons v vs ih => simp [vaWords, ih]

/-- Words are loaded from their slots. -/
theorem loadArgs_words {words : Nat → BitVec 32} {i : Nat} {vs : List (BitVec 32)}
    (h : ∀ j < vs.length, vs[j]? = some (words (i + j))) :
    loadArgs words i ((vs.map Arg.i32).map Arg.width) = vs.map .i32 := by
  induction vs generalizing i with
  | nil => rfl
  | cons v vs ih =>
    have hhead := h 0 (by simp)
    have htail := ih (i := i + 1) fun j hj => by
      rw [Nat.add_right_comm]
      simpa [Nat.add_assoc] using h (j + 1) (by simpa using hj)
    simp at hhead
    simp only [List.map_cons, loadArgs, Arg.width, htail]
    simp [loadArg, hhead]

theorem getElem?_loadArgs (words : Nat → BitVec 32) (i k : Nat) (tys : List ArgWidth) :
    (loadArgs words i tys)[k]? = tys[k]?.map fun ty => loadArg words ty (4 * (i + k)) := by
  induction tys generalizing i k with
  | nil => rfl
  | cons ty tys ih =>
    cases k with
    | zero => rfl
    | succ k => simp [loadArgs, ih, Nat.add_right_comm, Nat.add_assoc]

def Arg.low : Arg → BitVec 32
  | .i32 v => v
  | .i64 v => v.setWidth 32

private theorem setWidth_append_low (high low : BitVec 32) : (high ++ low).setWidth 32 = low := by
  rw [BitVec.setWidth_append, dif_pos (Nat.le_refl 32), BitVec.setWidth_eq]

theorem low_loadArg (words : Nat → BitVec 32) (ty : ArgWidth) (k : Nat) :
    (loadArg words ty (4 * k)).low = words k := by
  have hdiv : 4 * k / 4 = k := by omega
  cases ty with
  | i32 => simp [loadArg, Arg.low, hdiv]
  | i64 => simp only [loadArg, Arg.low, hdiv, setWidth_append_low]

/-- The second half of a 64-bit parameter is in the next parameter's slot. -/
theorem high_loadArg {words : Nat → BitVec 32} {k : Nat} {high low : BitVec 32}
    (h : loadArg words .i64 (4 * k) = .i64 (high ++ low)) : words (k + 1) = high := by
  have hdiv : 4 * k / 4 = k := by omega
  rw [loadArg, hdiv, Arg.i64.injEq] at h
  have hlow := congrArg (BitVec.setWidth 32) h
  rw [setWidth_append_low, setWidth_append_low] at hlow
  rw [hlow] at h
  exact (BitVec.append_left_inj _).mp h

/-- A module with one outlined function and one call -/
private def oneCall (tys : List ArgWidth) (args : List Arg) : IrModule :=
  ⟨fun name => if name = "f" then some (.outlined tys) else none, [⟨some "f", args⟩]⟩

private theorem oneCall_unwrapped (tys : List ArgWidth) (args : List Arg) :
    (oneCall tys args).Unwrapped := by
  intro name
  change (if ompWrapperPrefix ++ name = "f" then some (.outlined tys) else none) = none
  rw [if_neg]
  intro heq
  have hlen := congrArg String.length heq
  have hprefix : ompWrapperPrefix.length = 13 := by decide
  rw [String.length_append, hprefix] at hlen
  have hname : "f".length = 1 := by decide
  omega

private theorem loadArgs_of_passesArgs {gap : Nat → Nat} {tys : List ArgWidth} (h : PassesArgs gap tys)
    (args : List Arg) (hargs : args.map Arg.width = tys) :
    loadArgs (packArgs ⟨gap, fun _ => 0, fun _ => 0, 0⟩ args) 0 tys = args :=
  (passed_iff (oneCall_unwrapped tys args) (i := 0) rfl rfl rfl).mp
    (h _ _ _ _ (oneCall_unwrapped tys args) 0 ⟨some "f", args⟩ "f" rfl rfl rfl hargs)

def ArgWidth.zero : ArgWidth → Arg
  | .i32 => .i32 0
  | .i64 => .i64 0

/-- The outlined function gets the values of the call site exactly if all of its parameters are
words. -/
theorem forkCall_args_iff (gap : Nat → Nat) (tys : List ArgWidth) :
    PassesArgs gap tys ↔ ∀ ty ∈ tys, ty = .i32 := by
  constructor
  · intro h ty hty
    by_contra hne
    obtain ⟨pre, rest, rfl⟩ := List.append_of_mem hty
    cases ty with
    | i32 => exact hne rfl
    | i64 =>
      -- a value whose second half is not zero, among zeros
      have hwidth : ∀ l : List ArgWidth, (l.map ArgWidth.zero).map Arg.width = l := by
        intro l
        induction l with
        | nil => rfl
        | cons ty l ih =>
          rw [List.map_cons, List.map_cons, ih]
          cases ty <;> rfl
      have hload := loadArgs_of_passesArgs h
        (pre.map ArgWidth.zero ++ .i64 (1#32 ++ 0#32) :: rest.map ArgWidth.zero)
        (by rw [List.map_append, List.map_cons, hwidth, hwidth]; rfl)
      generalize hwords : packArgs _ _ = words at hload
      have hat : loadArg words .i64 (4 * pre.length) = .i64 (1#32 ++ 0#32) := by
        have hget := congrArg (·[pre.length]?) hload
        simpa [getElem?_loadArgs] using hget
      have hhigh := high_loadArg hat
      have hnext : words (pre.length + 1) = 0 := by
        cases rest with
        | nil =>
          rw [← hwords, packArgs, if_neg (by simp)]
        | cons ty rest =>
          have hget := congrArg (·[pre.length + 1]?) hload
          simp [getElem?_loadArgs] at hget
          have hlow := congrArg Arg.low hget
          rw [low_loadArg] at hlow
          rw [hlow]
          cases ty <;> rfl
      rw [hnext] at hhigh
      exact absurd hhigh (by decide)
  · intro h skipped behind idAddr M hM i call kernel hi hcall hkernel hargs
    subst hargs
    obtain ⟨vs, hvs⟩ := exists_words h
    rw [passed_iff hM hi hcall hkernel, hvs]
    apply loadArgs_words
    intro j hj
    simp [packArgs, vaWords_words, hj]

/-- A 64-bit parameter gets half of its value from behind the buffer. -/
theorem forkCall_args_i64 : ¬ ∀ (gap : Nat → Nat) (tys : List ArgWidth), PassesArgs gap tys := by
  intro h
  have hload := loadArgs_of_passesArgs (h (fun pos => 1 - pos % 2) [.i64])
    [.i64 0x100000002#64] rfl
  exact absurd hload (by decide)

end Hero.Omp
