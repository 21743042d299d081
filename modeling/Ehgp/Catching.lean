import Ehgp.Callers
import Ehgp.Reports

/-!
# What a landing pad stops

The loop prunes a chain of calls at a call site whose landing pad may catch the
exception, and nowhere else.  Three consequences: the landing pad of the throw
itself is never asked; for an exception of unknown type a clause for any type
with external linkage prunes; and a handler that throws the exception again does
not take up the chain.

## Main definitions

* `StopsAtThrow` — a handler around the throw stops the exception.
* `LeaksThrough` — a chain that nothing on it stops leaks in main.
* `HandlerRethrows`, `RethrowPropagates` — a handler that throws again.
* `TransparentPropagates` — only call sites that cannot catch propagate.

## Main results

* `stopsAtThrow_iff` — **when a handler around the throw stops the exception.**
* `externalThrow_leaks` — **exceptions of unknown type.**
* `transparentPropagates` — **which frames an exception passes.**
-/

namespace Ehgp

section

variable {M : Module} {E : CurrentException} {A : VCallCandidatesAnalyzer} {S : ICallSolver}

/-! ### A handler around the throw -/

variable (M E A S) in
/-- A handler around the throw itself stops the exception. -/
structure StopsAtThrow (r : BuildState) : Prop where
  /-- Where the landing pad of the throw site catches, the exception does not leak, and the graph
  has no other node than the function of the throw site. -/
  stays : (canBeCaught E.throwSite E A).1 = true →
    r.leaked = false ∧ ∀ n ∈ r.childsMap, n = .fn E.throwSite.function
  /-- An exception leaks along a chain of call sites none of which can catch it, the throw site
  included. -/
  chain : r.leaked = true → (canBeCaught E.throwSite E A).1 = false ∧
    ∃ c, Reached M E A S c ∧ c.function.IsMain

/-- Where all callers of the throw site's function lie in it, the exception stays there. -/
theorem Reached.function_eq
    (hcallers : ∀ c ∈ callersOf M A S E.throwSite.function, c.function = E.throwSite.function)
    {c : CallBase} (h : Reached M E A S c) : c.function = E.throwSite.function := by
  unfold Reached at h
  induction h with
  | refl => rfl
  | tail _ hstep ih =>
    obtain ⟨-, hcaller, -⟩ := hstep
    rw [ih] at hcaller
    exact hcallers _ hcaller

theorem Exact.key_eq {r : BuildState} (hexact : Exact M E A S r)
    (hmain : ¬ E.throwSite.function.IsMain)
    (hcallers : ∀ c ∈ callersOf M A S E.throwSite.function, c.function = E.throwSite.function)
    {n : Node} (hn : n ∈ r.childsMap) : n = .fn E.throwSite.function := by
  rcases (hexact.key n).mp hn with ⟨c, hc, rfl⟩ | ⟨m, hm⟩
  · rw [hc.function_eq hcallers]
  · -- a target of an edge from `F`, which is the function of the throw site
    obtain ⟨F, rfl⟩ := hexact.source_eq hm
    cases n with
    | leak =>
      obtain ⟨hF, c, hc, rfl⟩ := (hexact.leakEdge F).mp hm
      rw [hc.function_eq hcallers] at hF
      exact absurd hF hmain
    | fn G =>
      obtain ⟨-, ⟨c, hc, rfl⟩, c', hc', rfl⟩ := (hexact.edge F G).mp hm
      rw [hc.function_eq hcallers] at hc'
      rw [hcallers c' hc']

/-- **When a handler around the throw stops the exception**: the loop does not ask the landing
pad of the throw site, so exactly when the throw site has no such pad, or its function is neither
main nor called from another function. -/
theorem stopsAtThrow_iff (M : Module) (E : CurrentException) (ChildsMap : ChildsMapType)
    (A : VCallCandidatesAnalyzer) (S : ICallSolver) :
    StopsAtThrow M E A S (buildChildsMap M E ChildsMap A S) ↔
      ((canBeCaught E.throwSite E A).1 = true → ¬ E.throwSite.function.IsMain ∧
        ∀ c ∈ callersOf M A S E.throwSite.function, c.function = E.throwSite.function) := by
  have hexact := exact_buildChildsMap (M := M) (E := E) (A := A) (S := S) ChildsMap
  have hthrow : Reached M E A S E.throwSite := .refl
  constructor
  · intro h hcatch
    obtain ⟨hleak, hnodes⟩ := h.stays hcatch
    have hmain : ¬ E.throwSite.function.IsMain := by
      intro hmain
      have hleaked := hexact.leaked.mpr ⟨E.throwSite, hthrow, hmain⟩
      rw [hleak] at hleaked
      exact absurd hleaked nofun
    refine ⟨hmain, ?_⟩
    intro c hc
    -- a caller's function is a child, and so a node
    have hedge := (hexact.edge E.throwSite.function c.function).mpr
      ⟨hmain, ⟨E.throwSite, hthrow, rfl⟩, c, hc, rfl⟩
    have hnode := hnodes _ ((hexact.key _).mpr (Or.inr ⟨_, hedge⟩))
    exact Node.fn.inj hnode
  · intro h
    have hstays : (canBeCaught E.throwSite E A).1 = true →
        (buildChildsMap M E ChildsMap A S).leaked = false := by
      intro hcatch
      obtain ⟨hmain, hcallers⟩ := h hcatch
      by_contra hleak
      obtain ⟨c, hc, hcmain⟩ := hexact.leaked.mp (Bool.eq_true_of_not_eq_false hleak)
      rw [hc.function_eq hcallers] at hcmain
      exact hmain hcmain
    constructor
    · intro hcatch
      obtain ⟨hmain, hcallers⟩ := h hcatch
      exact ⟨hstays hcatch, fun n hn => hexact.key_eq hmain hcallers hn⟩
    · intro hleak
      refine ⟨?_, hexact.leaked.mp hleak⟩
      by_contra hcatch
      rw [hstays (Bool.eq_true_of_not_eq_false hcatch)] at hleak
      exact absurd hleak nofun

/-! #### A throw inside a try block -/

namespace Pads

/-- The function that throws. -/
def f : Function := .ofName 0 "_Z1fv"

/-- A function between `f` and `main`. -/
def g : Function := .ofName 1 "_Z1gv"

/-- The entry of the program. -/
def main : Function := .ofName 2 "main"

/-- The runtime function that throws. -/
def cxaThrow : Function := .ofName 3 "__cxa_throw"

/-- A block without a landing pad. -/
def plain (id : ℕ) : BasicBlock := ⟨id, none⟩

/-- The landing pad of a handler for one type. -/
def handler (id : ℕ) (typeInfo : GlobalVariable) : BasicBlock :=
  ⟨id, some ⟨false, [.catchClause (.globalVariable typeInfo)]⟩⟩

/-- The type info of a class with its key function in another module. -/
def typeInfoA : GlobalVariable := ⟨4, "_ZTI1A", .external, true, false, .visibilityPublic, []⟩

/-- Another such class, unrelated to it. -/
def typeInfoB : GlobalVariable := ⟨5, "_ZTI1B", .external, true, false, .visibilityPublic, []⟩

/-- The throw of an `A` from `f`. -/
def throwA : CallBase :=
  .ofCallee 10 f (plain 20) (.function cxaThrow)
    [.other 0, .globalVariable typeInfoA, .null]

/-- The same throw with a handler for `A` around it. -/
def throwInTry : CallBase := { throwA with kind := .invoke (plain 21) (handler 22 typeInfoA) }

/-- The call of `f` in `main`. -/
def callOfF : CallBase := .ofCallee 11 main (plain 23) (.function f) []

/-- `main` calls `f`, whose throw has the handler around it. -/
def tryModule : Module :=
  .ofData (.ofCalls [f, main, cxaThrow] [typeInfoA] [throwInTry, callOfF]) (by decide)

end Pads

/-- A throw with a handler around it is reported to leak. -/
theorem throw_in_try_leaks :
    ¬ StopsAtThrow Pads.tryModule ⟨some (.globalVariable Pads.typeInfoA), Pads.throwInTry⟩ .fresh
      .fresh (buildChildsMap Pads.tryModule
        ⟨some (.globalVariable Pads.typeInfoA), Pads.throwInTry⟩ ∅ .fresh .fresh) := by
  intro h
  obtain ⟨hleak, -⟩ := h.stays (by decide)
  exact absurd hleak (by decide)

/-! ### Exceptions of unknown type -/

/-- A clause that catches an exception of type `X`: `catch (...)`, or a handler for `X` or for a
base of it. -/
def Clause.CatchesType (A : VCallCandidatesAnalyzer) (X : Value) : Clause → Prop
  | .catchClause typeInfo => typeInfo = .null ∨ typeInfo = X ∨ (A.derivedFrom typeInfo X).1 = true
  | .filterClause _ => False

/-- A clause that may catch an exception of unknown type: `catch (...)`, or a handler for a type
with external linkage. -/
def Clause.MayCatchExternal : Clause → Prop
  | .catchClause .null => True
  | .catchClause (.globalVariable GV) => GV.hasExternalLinkage = true
  | _ => False

/-- The test prunes an exception of unknown type at the clauses that may catch it. -/
theorem clauseCatches_external {E : CurrentException} (hE : E.externalException = true)
    (A : VCallCandidatesAnalyzer) (clause : Clause) :
    (clauseCatches E A clause).1 = true ↔ clause.MayCatchExternal := by
  cases clause with
  | filterClause _ => exact iff_of_false nofun id
  | catchClause typeInfo =>
    unfold clauseCatches
    rw [Option.isNone_iff_eq_none.mp hE]
    cases typeInfo with
    | null => exact iff_of_true rfl trivial
    | globalVariable GV => exact Iff.rfl
    | _ => exact iff_of_false nofun id

/-- A chain of direct calls with none of its call sites stopped, the throw site included, leaks
in main. -/
def LeaksThrough (M : Module) (T : CallBase) (Passes : CallBase → Prop) (r : BuildState) :
    Prop :=
  Passes T → ∀ c, CallChain T (CallsDirectly M) Passes c → c.function.IsMain → r.leaked = true

/-- **Exceptions of unknown type**: those an external function other than `__cxa_throw` throws
leak along every chain of direct calls on which no landing pad has a catch-all or a handler for a
type with external linkage. -/
theorem externalThrow_leaks (M : Module) (ChildsMap : ChildsMapType)
    (A : VCallCandidatesAnalyzer) (S : ICallSolver) {T : CallBase} {F : Function}
    {E : CurrentException} (hF : T.getCalledFunction = some F)
    (hname : F.name ≠ "__cxa_throw".toList) (hE : CurrentException.ofCallBase T = .ok E) :
    LeaksThrough M T (fun CB => ∀ clause ∈ CB.padClauses, ¬ clause.MayCatchExternal)
      (buildChildsMap M E ChildsMap A S) := by
  obtain ⟨rfl, G, hG, hvalue⟩ := CurrentException.ofCallBase_eq_ok.mp hE
  obtain rfl : F = G := Option.some.inj (hF.symm.trans hG)
  rw [if_neg hname] at hvalue
  have hexternal : E.externalException = true := Option.isNone_iff_eq_none.mpr hvalue
  intro _ c hchain hmain
  refine hchain.leaked (fun _ _ h => h.mem_callersOf) ?_ hmain ChildsMap
  intro CB hpad
  rw [canBeCaught_eq, List.any_eq_false]
  intro clause hclause hcatch
  exact hpad clause hclause ((clauseCatches_external hexternal A clause).mp hcatch)

namespace Pads

/-- A function of another module, which may throw anything. -/
def external : Function := .ofName 6 "_Z8externalv"

/-- The call of `external` in `f`. -/
def externalCall : CallBase := .ofCallee 10 f (plain 20) (.function external) []

/-- The call of `f` in `g`, with a handler for `B`. -/
def guardedCall : CallBase := { CallBase.ofCallee 12 g (plain 24) (.function f) [] with
  kind := .invoke (plain 25) (handler 26 typeInfoB) }

/-- The call of `g` in `main`. -/
def callOfG : CallBase := .ofCallee 13 main (plain 23) (.function g) []

/-- A program in which `main` calls `f` itself. -/
def plainModule : Module :=
  .ofData (.ofCalls [f, main, external] [] [externalCall, callOfF]) (by decide)

/-- A program in which it calls `f` through `g`. -/
def externalModule : Module :=
  .ofData (.ofCalls [f, g, main, external] [typeInfoA, typeInfoB]
    [externalCall, guardedCall, callOfG]) (by decide)

end Pads

/-- What `external` throws leaks where `main` calls `f`. -/
theorem externalThrow_leaks_plain :
    (buildChildsMap Pads.plainModule ⟨none, Pads.externalCall⟩ ∅ .fresh .fresh).leaked = true := by
  have hchain : CallChain Pads.externalCall (CallsDirectly Pads.plainModule)
      (fun CB => ∀ clause ∈ CB.padClauses, ¬ clause.MayCatchExternal) Pads.callOfF := by
    refine .caller .throwSite ⟨?_, rfl⟩ (CallBase.forall_padClauses_of_call rfl _)
    decide
  exact externalThrow_leaks Pads.plainModule ∅ .fresh .fresh (F := Pads.external) rfl (by decide)
    rfl (CallBase.forall_padClauses_of_call rfl _) Pads.callOfF hchain rfl

/-- The external function may throw an `A`; the handler for `B` is taken to catch it. -/
theorem external_throw_pruned :
    ¬ ∀ X, LeaksThrough Pads.externalModule Pads.externalCall
      (fun CB => ∀ clause ∈ CB.padClauses, ¬ clause.CatchesType .fresh X)
      (buildChildsMap Pads.externalModule ⟨none, Pads.externalCall⟩ ∅ .fresh .fresh) := by
  intro h
  -- the handler in `g` is for `B`, so an `A` passes it
  have hpad : ∀ clause ∈ Pads.guardedCall.padClauses,
      ¬ clause.CatchesType .fresh (.globalVariable Pads.typeInfoA) := by
    intro clause hclause
    rw [List.mem_singleton.mp hclause]
    unfold Clause.CatchesType
    decide
  have hchain : CallChain Pads.externalCall (CallsDirectly Pads.externalModule)
      (fun CB => ∀ clause ∈ CB.padClauses,
        ¬ clause.CatchesType .fresh (.globalVariable Pads.typeInfoA)) Pads.callOfG := by
    refine .caller (.caller .throwSite ⟨?_, rfl⟩ hpad) ⟨?_, rfl⟩
      (CallBase.forall_padClauses_of_call rfl _)
    · decide
    · decide
  -- but the graph is pruned at the handler
  have hleak := h (.globalVariable Pads.typeInfoA) (CallBase.forall_padClauses_of_call rfl _)
    Pads.callOfG hchain rfl
  exact absurd hleak (by decide)

/-! ### Handlers that throw again -/

/-- A call of `__cxa_rethrow`. -/
def IsRethrow (CB : CallBase) : Prop :=
  ∃ F, CB.calledOperand = .function F ∧ F.name = "__cxa_rethrow".toList

/-- The handler a call site unwinds to calls `__cxa_rethrow`, at a site that is not caught
itself. -/
def HandlerRethrows (M : Module) (E : CurrentException) (A : VCallCandidatesAnalyzer)
    (c : CallBase) : Prop :=
  ∃ normalDest unwindDest R, c.kind = .invoke normalDest unwindDest ∧ R ∈ M.callSites ∧
    R.function = c.function ∧ IsRethrow R ∧
    Relation.ReflTransGen (fun BB BB' => BB' ∈ M.succs BB) unwindDest R.block ∧
    (canBeCaught R E A).1 = false

/-- The exception leaves the frame of a call site: nothing there catches it, or what does throws
it again. -/
def LeavesFrame (M : Module) (E : CurrentException) (A : VCallCandidatesAnalyzer)
    (c : CallBase) : Prop :=
  (canBeCaught c E A).1 = false ∨ HandlerRethrows M E A c

/-- The callers of a function that are asked for, those of main being none. -/
def CallsKnown (M : Module) (A : VCallCandidatesAnalyzer) (S : ICallSolver) (CB : CallBase)
    (F : Function) : Prop :=
  ¬ F.IsMain ∧ CB ∈ callersOf M A S F

/-- The graph of the throw site has a property, or the graph of a rethrow that is reported. -/
def ReportedWith (M : Module) (E : CurrentException) (ChildsMap : ChildsMapType)
    (A : VCallCandidatesAnalyzer) (S : ICallSolver) (P : BuildState → Prop) : Prop :=
  P (buildChildsMap M E ChildsMap A S) ∨
    ∃ R ∈ reportedSites M, IsRethrow R ∧ ∃ E' ChildsMap',
      CurrentException.ofCallBase R = .ok E' ∧ P (buildChildsMap M E' ChildsMap' A S)

/-- Rethrow is propagation: the frames a chain leaves are expanded, and it leaks in main. -/
structure RethrowPropagates (M : Module) (E : CurrentException) (ChildsMap : ChildsMapType)
    (A : VCallCandidatesAnalyzer) (S : ICallSolver) : Prop where
  expanded : LeavesFrame M E A E.throwSite →
    ∀ c, CallChain E.throwSite (CallsKnown M A S) (LeavesFrame M E A) c → ¬ c.function.IsMain →
      ReportedWith M E ChildsMap A S fun r =>
        ∀ CB ∈ callersOf M A S c.function, .fn CB.function ∈ r.childsMap.get (.fn c.function)
  leaked : LeavesFrame M E A E.throwSite →
    ∀ c, CallChain E.throwSite (CallsKnown M A S) (LeavesFrame M E A) c → c.function.IsMain →
      ReportedWith M E ChildsMap A S fun r => r.leaked = true

variable (M E A S) in
/-- Only call sites that cannot catch the exception propagate it. -/
structure TransparentPropagates (r : BuildState) : Prop where
  /-- Along a chain of call sites that cannot catch the exception every function is expanded. -/
  expanded : (canBeCaught E.throwSite E A).1 = false →
    ∀ c, CallChain E.throwSite (CallsKnown M A S) (fun CB => (canBeCaught CB E A).1 = false) c →
      ¬ c.function.IsMain →
        ∀ CB ∈ callersOf M A S c.function, .fn CB.function ∈ r.childsMap.get (.fn c.function)
  /-- Such a chain leaks in main. -/
  leaked : (canBeCaught E.throwSite E A).1 = false →
    ∀ c, CallChain E.throwSite (CallsKnown M A S) (fun CB => (canBeCaught CB E A).1 = false) c →
      c.function.IsMain → r.leaked = true
  /-- A call site that catches ends the chain, whatever its handler does. -/
  pruned : ∀ c ∈ r.visited, c = E.throwSite ∨ (canBeCaught c E A).1 = false
  /-- A call of `__cxa_rethrow` is reported for another function among its operands only. -/
  unreported : ∀ R ∈ reportedSites M, IsRethrow R →
    ∃ F, shouldTrackFunction M F = true ∧ .function F ∈ R.args ++ R.bundleOperands

/-- The functions of the runtime are not tracked, `__cxa_throw` apart. -/
theorem shouldTrackFunction_rethrow {F : Function} (hname : F.name = "__cxa_rethrow".toList) :
    shouldTrackFunction M F = false := by
  unfold shouldTrackFunction
  rw [hname]
  rfl

theorem CallChain.reached_known {c : CallBase}
    (h : CallChain E.throwSite (CallsKnown M A S) (fun CB => (canBeCaught CB E A).1 = false) c) :
    Reached M E A S c := by
  induction h with
  | throwSite => exact .refl
  | caller _ hcalls hpasses ih => exact ih.tail ⟨hcalls.1, hcalls.2, hpasses⟩

/-- **Which frames an exception passes**: those of call sites that cannot catch it. -/
theorem transparentPropagates (M : Module) (E : CurrentException) (ChildsMap : ChildsMapType)
    (A : VCallCandidatesAnalyzer) (S : ICallSolver) :
    TransparentPropagates M E A S (buildChildsMap M E ChildsMap A S) := by
  have hexact := exact_buildChildsMap (M := M) (E := E) (A := A) (S := S) ChildsMap
  constructor
  · intro _ c hchain hmain CB hCB
    exact (hexact.edge _ _).mpr ⟨hmain, ⟨c, hchain.reached_known, rfl⟩, CB, hCB, rfl⟩
  · intro _ c hchain hmain
    exact hexact.leaked.mpr ⟨c, hchain.reached_known, hmain⟩
  · intro c hc
    -- only the throw site is expanded without a test
    rcases Relation.ReflTransGen.cases_tail ((hexact.visited c).mp hc) with heq | ⟨b, -, hstep⟩
    · exact Or.inl heq
    · exact Or.inr hstep.2.2
  · intro R hR ⟨F, hcallee, hname⟩
    -- the callee of a rethrow is not tracked, so the call was met for an argument
    obtain ⟨-, -, G, hop, htrack⟩ := mem_reportedSites.mp hR
    rcases List.mem_append.mp hop with hpass | hop
    · exact ⟨G, htrack, hpass⟩
    · have hG : Value.function G = .function F := (List.mem_singleton.mp hop).trans hcallee
      rw [Value.function.inj hG, shouldTrackFunction_rethrow hname] at htrack
      exact absurd htrack nofun

end

namespace Pads

/-- The runtime function that throws the exception handled again. -/
def cxaRethrow : Function := .ofName 7 "__cxa_rethrow"

/-- The call of `f` in `g`, with a handler for `A`. -/
def catchingCall : CallBase := { CallBase.ofCallee 12 g (plain 24) (.function f) [] with
  kind := .invoke (plain 25) (handler 27 typeInfoA) }

/-- The rethrow of that handler, whose own landing pad is a cleanup. -/
def rethrow : CallBase := { CallBase.ofCallee 14 g (plain 28) (.function cxaRethrow) [] with
  kind := .invoke (plain 29) ⟨30, some ⟨true, []⟩⟩ }

/-- The landing pad of the handler goes on to the block of the rethrow. -/
def rethrowModule : Module :=
  .ofData
    { ModuleData.ofCalls [f, g, main, cxaThrow, cxaRethrow] [typeInfoA]
        [throwA, catchingCall, rethrow, callOfG] with
      succs := fun BB => if BB = handler 27 typeInfoA then [plain 28] else [] }
    (by decide)

/-- The exception thrown in `f`. -/
def exceptionA : CurrentException := ⟨some (.globalVariable typeInfoA), throwA⟩

theorem handlerRethrows : HandlerRethrows rethrowModule exceptionA .fresh catchingCall :=
  ⟨plain 25, handler 27 typeInfoA, rethrow, rfl, by decide, rfl, ⟨cxaRethrow, rfl, rfl⟩,
    .single (by decide), rfl⟩

end Pads

/-- An exception that a handler throws again reaches main and is reported nowhere to leak. -/
theorem rethrow_lost :
    ¬ RethrowPropagates Pads.rethrowModule Pads.exceptionA ∅ .fresh .fresh := by
  intro h
  have hchain : CallChain Pads.throwA (CallsKnown Pads.rethrowModule .fresh .fresh)
      (LeavesFrame Pads.rethrowModule Pads.exceptionA .fresh) Pads.callOfG := by
    refine .caller (.caller .throwSite ⟨?_, ?_⟩ (Or.inr Pads.handlerRethrows)) ⟨?_, ?_⟩
      (Or.inl rfl)
    all_goals decide
  rcases h.leaked (Or.inl rfl) Pads.callOfG hchain rfl with hleak | ⟨R, hR, hrethrow, -⟩
  · exact absurd hleak (by decide)
  · -- the throw in `f` is the only call reported
    have hsites : reportedSites Pads.rethrowModule = [Pads.throwA] := by decide
    rw [hsites] at hR
    obtain ⟨F, hcallee, hname⟩ := hrethrow
    rw [List.mem_singleton.mp hR] at hcallee
    rw [← Value.function.inj hcallee] at hname
    exact absurd hname (by decide)

end Ehgp
