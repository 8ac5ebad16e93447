import Hero.Driver.Rab.Initialisation

/-!
# Release of the RAB

`pulp_rab_release` as the sequence of frees it makes.
-/

namespace Hero.Rab

open Driver Flags Interp

/-- `pulp_rab_mh_dis` -/
def rabMhDis : Op Unit := do
  let s ← Prog.get
  Prog.issue (.setMh 0 s.ctrl.mhAcp s.ctrl.mhLvl)

/-- Stop both miss handlers; that the one on the SoC is not running is no error. -/
def stopMissHandling (plat : Platform) (stack : SliceReq) : Op Unit := do
  (rabSocMhDis plat stack).handle fun _ => return ()
  rabMhDis

namespace RabState

variable (plat : Platform) (stack : SliceReq) (s : RabState)

/-- Clear the flags of the hardware slices from `n` on, which the SoC manages. -/
def clearSlices (n : Nat) : RabState :=
  { s with hw := Function.update s.hw .port1 fun k =>
      if n ≤ k ∧ k < plat.nSlicesPort1 then (s.hw .port1 k).withFlags 0#8 else s.hw .port1 k }

/-- `pulp_rab_release` -/
def rabRelease (driver : Bool) : RabState :=
  let reserved := s.ctrl.nSlicesReservedForHost
  let s := ((Rab.driver plat).exec (stopMissHandling plat stack) s).2
  ((Rab.driver plat).exec (do
    rabFreeStriped stack 0
    rabFreeStriped stack 1
    rabFree plat stack (maxDate - 1) driver) (s.clearSlices plat reserved)).2

end RabState

/-- The steps of `pulp_rab_release`. -/
inductive Freeing where
  | dis (i : Nat)
  | soc (n : Nat)
  | striped (m : Nat) (e : StripeElem) (j : Nat)
  | expired0 (k : Nat)
  | expired1 (m k : Nat)

/-- The request with which `pulp_rab_free` checks and frees a slot of Port 1. -/
def freeReq (stack : SliceReq) (date : Nat) (fixed : Bool) (s : RabState) (m k : Nat) : SliceReq :=
  let flags := (s.slice m k).flagsDrv
  { stack with
    dateCur := u8 date
    rabPort := .port1
    rabMapping := m
    rabSlice := k
    flagsDrv := fixedFlag
      (if flags.has drvEvery ∧ m + 1 = nMappingsPort1 then flags.clear drvEvery else flags) fixed }

/-- The request with which `pulp_rab_free` checks and frees a slot of Port 0. -/
def freeReq0 (stack : SliceReq) (date : Nat) (fixed : Bool) (k : Nat) : SliceReq :=
  { stack with
    dateCur := u8 date
    rabPort := .port0
    rabMapping := 0
    rabSlice := k
    flagsDrv := fixedFlag drvConst fixed }

namespace Freeing

variable (plat : Platform) (stack : SliceReq) (s : RabState)

/-- The request of a step that frees a slice. -/
def req : Freeing → SliceReq
  | dis i => disReq stack i
  | soc _ => stack
  | striped m e j => freeStripedReq stack m e j
  | expired0 k => freeReq0 stack (maxDate - 1) true k
  | expired1 m k => freeReq stack (maxDate - 1) true s m k

def apply (x : Freeing) : RabState := match x with
  | soc n => s.clearSlices plat n
  | expired0 _ | expired1 _ _ =>
    if s.sliceCheck (x.req stack s) then s.sliceFree (x.req stack s) else s
  | _ => s.sliceFree (x.req stack s)

/-- The steps of `pulp_rab_free_striped` -/
def ofStriped (m : Nat) : List Freeing :=
  (s.ctrl.stripeReq m).flatMap fun e => (List.range e.sliceIdxs.length).map (striped m e)

/-- The steps of `pulp_rab_free` -/
def ofFree : List Freeing :=
  (List.range nSlicesPort0).map expired0 ++
    (List.range nMappingsPort1).flatMap fun m => (List.range plat.nSlicesPort1).map (expired1 m)

/-- The steps of `pulp_rab_soc_mh_dis` -/
def ofDis : List Freeing :=
  if s.ctrl.socMhIsEna then (List.range' 1 (s.ctrl.nSlicesReservedForHost - 1)).map dis else []

def ofRelease : List Freeing :=
  ofDis s ++ soc s.ctrl.nSlicesReservedForHost ::
    ((ofStriped s 0 ++ ofStriped s 1) ++ ofFree plat)

end Freeing

/-- A state that is reached by freeing from `s₀` on; in between only the control variables change, and
the host manages the slices that are freed. -/
inductive Frees (plat : Platform) (stack : SliceReq) (s₀ : RabState) : List Freeing → RabState → Prop
  | start : Frees plat stack s₀ [] s₀
  | free {xs : List Freeing} {s : RabState} (x : Freeing) (h : Frees plat stack s₀ xs s)
    (hmanaged : s.sliceIsManagedByHost (x.req stack s) = true) :
    Frees plat stack s₀ (xs ++ [x]) (x.apply plat stack s)
  | ctrl {xs : List Freeing} {s : RabState} (c : Control) (h : Frees plat stack s₀ xs s) :
    Frees plat stack s₀ xs { s with ctrl := c }

end Hero.Rab
