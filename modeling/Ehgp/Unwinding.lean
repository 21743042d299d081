import Mathlib.Logic.Relation
import Mathlib.Tactic.Common

/-!
# Exceptions that leave a call stack

A program calls functions from call sites and raises exceptions.  While it runs,
the call sites it has to return to form a stack; an exception takes them off one
by one, until the handler of one catches it or none is left.  Whether some
execution ends with an exception that has left all frames can be told without
executions, by following the exception to the call sites it meets.

## Main definitions

* `Unwinding.Program` — a program as an exception sees it.
* `Unwinding.Step` — one step: a call, a return, or one of unwinding.
* `Unwinding.Escapes` — an execution that ends with an exception outside.
* `Unwinding.Meets` — the call sites an exception may meet.

## Main results

* `Unwinding.Step.inv` — what every step keeps of the stack.
* `Unwinding.escapes_iff` — **which exceptions escape.**
-/

namespace Unwinding

/-- A program as an exception sees it. -/
structure Program (κ φ ε : Type*) where
  /-- The function a call site stands in. -/
  function : κ → φ
  /-- A call site may call a function. -/
  calls : κ → φ → Prop
  /-- A call site may raise an exception itself. -/
  raises : κ → ε → Prop
  /-- The handler around a call site catches an exception. -/
  catches : ε → κ → Prop

/-- The states of an execution, with the call sites to return to. -/
inductive State (κ φ ε : Type*) where
  /-- A function runs. -/
  | running (F : φ) (stack : List κ)
  /-- An exception raised at `T` has come to the call site `c`. -/
  | unwinding (T : κ) (e : ε) (c : κ) (stack : List κ)
  /-- An exception raised at `T` has left all frames. -/
  | escaped (T : κ) (e : ε)

section

variable {κ φ ε : Type*}

/-- One step of an execution. -/
inductive Step (P : Program κ φ ε) : State κ φ ε → State κ φ ε → Prop
  | call {c : κ} {F : φ} {stack : List κ} (h : P.calls c F) :
    Step P (.running (P.function c) stack) (.running F (c :: stack))
  | ret {F : φ} {c : κ} {stack : List κ} :
    Step P (.running F (c :: stack)) (.running (P.function c) stack)
  | raise {T : κ} {e : ε} {stack : List κ} (h : P.raises T e) :
    Step P (.running (P.function T) stack) (.unwinding T e T stack)
  /-- The handler catches: the function goes on. -/
  | handle {T c : κ} {e : ε} {stack : List κ} (h : P.catches e c) :
    Step P (.unwinding T e c stack) (.running (P.function c) stack)
  /-- It does not: the frame is left. -/
  | leave {T c c' : κ} {e : ε} {stack : List κ} (h : ¬ P.catches e c) :
    Step P (.unwinding T e c (c' :: stack)) (.unwinding T e c' stack)
  /-- The last frame is left. -/
  | escape {T c : κ} {e : ε} (h : ¬ P.catches e c) :
    Step P (.unwinding T e c []) (.escaped T e)

/-- Any number of steps. -/
abbrev Steps (P : Program κ φ ε) : State κ φ ε → State κ φ ε → Prop :=
  Relation.ReflTransGen (Step P)

/-- Some execution that starts in `start` ends with an exception raised at `T` outside. -/
def Escapes (P : Program κ φ ε) (start : φ) (T : κ) (e : ε) : Prop :=
  Steps P (.running start []) (.escaped T e)

/-- The call sites an exception raised at `T` may meet: that one, and the callers of a function
it has left. -/
inductive Meets (P : Program κ φ ε) (T : κ) (e : ε) : κ → Prop
  | raised : Meets P T e T
  | caller {c c' : κ} (h : Meets P T e c) (hleaves : ¬ P.catches e c)
      (hcalls : P.calls c' (P.function c)) : Meets P T e c'

/-! ### The stack of an execution -/

/-- The call sites on the stack of a function: the first may call it, each calls the function of
the one before, and the last stands in `start`. -/
def Stacked (P : Program κ φ ε) (start : φ) : φ → List κ → Prop
  | F, [] => F = start
  | F, c :: stack => P.calls c F ∧ Stacked P start (P.function c) stack

/-- What holds in every state of an execution from `start`. -/
def Inv (P : Program κ φ ε) (start : φ) : State κ φ ε → Prop
  | .running F stack => Stacked P start F stack
  | .unwinding T e c stack =>
    P.raises T e ∧ Meets P T e c ∧ Stacked P start (P.function c) stack
  | .escaped T e =>
    P.raises T e ∧ ∃ c, Meets P T e c ∧ ¬ P.catches e c ∧ P.function c = start

variable {P : Program κ φ ε} {start : φ} {T : κ} {e : ε}

/-- **Every step keeps the stack in order**, and the exception at a call site it meets. -/
theorem Step.inv {s s' : State κ φ ε} (hstep : Step P s s') (h : Inv P start s) :
    Inv P start s' := by
  cases hstep with
  | call hcalls => exact ⟨hcalls, h⟩
  | ret => exact h.2
  | raise hraises => exact ⟨hraises, .raised, h⟩
  | handle hcatches => exact h.2.2
  | leave hleaves =>
    obtain ⟨hraises, hmeets, hcalls, hstack⟩ := h
    exact ⟨hraises, hmeets.caller hleaves hcalls, hstack⟩
  | escape hleaves =>
    obtain ⟨hraises, hmeets, hstack⟩ := h
    exact ⟨hraises, _, hmeets, hleaves, hstack⟩

/-- So does every execution. -/
theorem Steps.inv {s : State κ φ ε} (hsteps : Steps P (.running start []) s) :
    Inv P start s := by
  induction hsteps with
  | refl => exact rfl
  | tail _ hstep ih => exact hstep.inv ih

/-- **An exception can be brought to each call site it may meet**: the calls are made from there
down to the one that raises it. -/
theorem Meets.steps {c : κ} (h : Meets P T e c) (hraises : P.raises T e) (stack : List κ) :
    Steps P (.running (P.function c) stack) (.unwinding T e c stack) := by
  induction h generalizing stack with
  | raised => exact .single (.raise hraises)
  | @caller c c' _ hleaves hcalls ih =>
    have hcall : Step P (.running (P.function c') stack)
        (.running (P.function c) (c' :: stack)) := .call hcalls
    exact (Relation.ReflTransGen.head hcall (ih (c' :: stack))).tail (.leave hleaves)

/-- **Which exceptions escape**: those that meet a call site in the function the execution starts
in and are not caught there. -/
theorem escapes_iff : Escapes P start T e ↔
    P.raises T e ∧ ∃ c, Meets P T e c ∧ ¬ P.catches e c ∧ P.function c = start := by
  constructor
  · intro h
    exact Steps.inv h
  · intro h
    obtain ⟨hraises, c, hmeets, hleaves, rfl⟩ := h
    exact (hmeets.steps hraises []).tail (.escape hleaves)

end

end Unwinding
