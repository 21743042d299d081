import Ehgp.ICallSolver
import Ehgp.IndirectCallAnalysis
import Ehgp.Worklist

/-!
# The propagation graph of an exception

`EHGraphDOTInfo::buildChildsMap` follows an exception from its throw site to the
callers it can reach, with a worklist of call sites.  The graph it leaves in the
static `ChildsMap` has an edge from a function to each function that calls it.

The worklist vector is a list with the back of the vector in front.

## Main definitions

* `CurrentException` — a throw site and the type info thrown.
* `canBeCaught` — the landing pad of a call site catches the exception.
* `BuildState`, `visitBody` — the collections of the loop and its body.
* `buildChildsMap` — the graph and the verdict.

## Main results

* `canBeCaught_eq` — the test leaves the analyzer as it is.
* `handleUsers_eq`, `visitBody_eq` — what the body of the loop does.
-/

namespace Ehgp

/-- `CurrentException`: the thrown type info, null for an exception of unknown type. -/
structure CurrentException where
  exceptionValue : Option Value
  throwSite : CallBase

/-- The constructor of `CurrentException`. -/
def CurrentException.ofCallBase (CB : CallBase) : Except Abort CurrentException :=
  match CB.getCalledFunction with
  | none => .error .calledFunctionNull
  | some F =>
    if F.name = "__cxa_throw".toList then
      match CB.getArgOperand 1 with
      | none => .error .argOperandRange
      | some V => .ok ⟨some V, CB⟩
    else .ok ⟨none, CB⟩

/-- `externalException()`. -/
def CurrentException.externalException (E : CurrentException) : Bool := E.exceptionValue.isNone

theorem CurrentException.ofCallBase_eq_ok {CB : CallBase} {E : CurrentException} :
    ofCallBase CB = .ok E ↔ E.throwSite = CB ∧ ∃ F, CB.getCalledFunction = some F ∧
      if F.name = "__cxa_throw".toList then
        E.exceptionValue.isSome = true ∧ E.exceptionValue = CB.getArgOperand 1
      else E.exceptionValue = none := by
  obtain ⟨V, T⟩ := E
  unfold ofCallBase
  cases hF : CB.getCalledFunction with
  | none => exact iff_of_false nofun fun ⟨_, F, h, _⟩ => absurd h nofun
  | some F =>
    simp only [Option.some.injEq, exists_eq_left']
    by_cases hname : F.name = "__cxa_throw".toList
    · rw [if_pos hname, if_pos hname]
      cases hV : CB.getArgOperand 1 with
      | none =>
        refine iff_of_false nofun ?_
        intro ⟨_, hsome, h⟩
        rw [h] at hsome
        exact absurd hsome nofun
      | some W =>
        simp only [Except.ok.injEq, CurrentException.mk.injEq]
        constructor
        · intro ⟨h, hT⟩
          exact ⟨hT.symm, h ▸ rfl, h.symm⟩
        · intro ⟨hT, _, h⟩
          exact ⟨h.symm, hT.symm⟩
    · rw [if_neg hname, if_neg hname]
      simp only [Except.ok.injEq, CurrentException.mk.injEq]
      constructor
      · intro ⟨h, hT⟩
        exact ⟨hT.symm, h.symm⟩
      · intro ⟨hT, h⟩
        exact ⟨h.symm, hT.symm⟩

theorem CurrentException.exists_ofCallBase_eq_ok {CB : CallBase} :
    (∃ E, ofCallBase CB = .ok E) ↔ ∃ F, CB.getCalledFunction = some F ∧
      (F.name = "__cxa_throw".toList → 2 ≤ CB.args.length) := by
  constructor
  · intro ⟨E, hE⟩
    obtain ⟨-, F, hF, hV⟩ := ofCallBase_eq_ok.mp hE
    refine ⟨F, hF, ?_⟩
    intro hname
    rw [if_pos hname] at hV
    obtain ⟨hsome, hV⟩ := hV
    rw [hV] at hsome
    exact (List.getElem?_eq_some_iff.mp (Option.eq_some_of_isSome hsome)).1
  · intro ⟨F, hF, hargs⟩
    by_cases hname : F.name = "__cxa_throw".toList
    · -- the type info is the second argument
      have hlt : 1 < CB.args.length := hargs hname
      have hV : CB.getArgOperand 1 = some CB.args[1] := List.getElem?_eq_getElem hlt
      refine ⟨⟨CB.getArgOperand 1, CB⟩, ofCallBase_eq_ok.mpr ⟨rfl, F, hF, ?_⟩⟩
      rw [if_pos hname, hV]
      exact ⟨rfl, rfl⟩
    · refine ⟨⟨none, CB⟩, ofCallBase_eq_ok.mpr ⟨rfl, F, hF, ?_⟩⟩
      rw [if_neg hname]

theorem CurrentException.ofCallBase_eq_null {CB : CallBase} :
    ofCallBase CB = .error .calledFunctionNull ↔ CB.getCalledFunction = none := by
  unfold ofCallBase
  cases CB.getCalledFunction with
  | none => exact iff_of_true rfl rfl
  | some F =>
    refine iff_of_false ?_ nofun
    dsimp only
    repeat' split
    all_goals nofun

/-! ### Catching -/

/-- The body of the loop of `canBeCaught` over the clauses, for the exception value of `E`:
does the clause catch it, and the analyzer afterwards. -/
def clauseCatches (E : CurrentException) (A : VCallCandidatesAnalyzer) :
    Clause → Bool × VCallCandidatesAnalyzer
  | .catchClause typeInfo =>
    match E.exceptionValue with
    | some V =>
      if typeInfo = .null then (true, A)
      else if typeInfo = V then (true, A)
      else A.derivedFrom typeInfo V
    | none =>
      if typeInfo = .null then (true, A)
      else
        match typeInfo with
        | .globalVariable ClauseInfo => (ClauseInfo.hasExternalLinkage, A)
        | _ => (false, A)
  -- an array constant: not null, no type info, no key of the subclass relation
  | .filterClause _ => (false, A)

/-- The loop of `canBeCaught`, ended by the first clause that catches. -/
def clausesCatch (E : CurrentException) :
    VCallCandidatesAnalyzer → List Clause → Bool × VCallCandidatesAnalyzer
  | A, [] => (false, A)
  | A, clause :: rest =>
    match clauseCatches E A clause with
    | (true, A) => (true, A)
    | (false, A) => clausesCatch E A rest

/-- `canBeCaught(CB, Exception, Analyzer)`, and the analyzer afterwards. -/
def canBeCaught (CB : CallBase) (E : CurrentException) (A : VCallCandidatesAnalyzer) :
    Bool × VCallCandidatesAnalyzer :=
  match CB.kind with
  | .invoke _ unwindDest =>
    match unwindDest.landingPad with
    | none => (false, A)
    | some LPad => clausesCatch E A LPad.clauses
  | _ => (false, A)

theorem clauseCatches_state (E : CurrentException) (A : VCallCandidatesAnalyzer)
    (clause : Clause) : (clauseCatches E A clause).2 = A := by
  unfold clauseCatches
  split <;> repeat' split
  all_goals first | rfl | exact A.derivedFrom_state _ _

/-- The loop over the clauses looks for one that catches, and leaves the analyzer as it is. -/
theorem clausesCatch_eq (E : CurrentException) (A : VCallCandidatesAnalyzer)
    (clauses : List Clause) :
    clausesCatch E A clauses =
      (clauses.any fun clause => (clauseCatches E A clause).1, A) := by
  induction clauses with
  | nil => rfl
  | cons clause rest ih =>
    have hstate := clauseCatches_state E A clause
    rw [clausesCatch, List.any_cons]
    cases hclause : clauseCatches E A clause with
    | mk caught A' =>
      rw [hclause] at hstate
      obtain rfl : A' = A := hstate
      cases caught with
      | true => rfl
      | false => rw [Bool.false_or]; exact ih

/-- The clauses of the landing pad a call site unwinds to. -/
def CallBase.padClauses (CB : CallBase) : List Clause :=
  match CB.kind with
  | .invoke _ unwindDest => (unwindDest.landingPad.map (·.clauses)).getD []
  | _ => []

theorem CallBase.forall_padClauses_of_call {CB : CallBase} (h : CB.kind = .call)
    (P : Clause → Prop) : ∀ clause ∈ CB.padClauses, P clause := by
  unfold padClauses
  rw [h]
  exact fun clause hclause => absurd hclause List.not_mem_nil

/-- **What the test answers**: some clause catches. -/
theorem canBeCaught_eq (CB : CallBase) (E : CurrentException) (A : VCallCandidatesAnalyzer) :
    canBeCaught CB E A = (CB.padClauses.any fun clause => (clauseCatches E A clause).1, A) := by
  unfold canBeCaught CallBase.padClauses
  split
  · next normalDest unwindDest hkind =>
    cases unwindDest.landingPad with
    | none => rfl
    | some LPad => exact clausesCatch_eq E A LPad.clauses
  · rfl

/-- **The test leaves the analyzer as it is.** -/
@[simp] theorem canBeCaught_state (CB : CallBase) (E : CurrentException)
    (A : VCallCandidatesAnalyzer) : (canBeCaught CB E A).2 = A := by
  rw [canBeCaught_eq]

/-! ### Building the graph -/

/-- `F->getName() == "main"`. -/
def Function.IsMain (F : Function) : Prop := F.name = "main".toList

instance (F : Function) : Decidable F.IsMain := inferInstanceAs (Decidable (_ = _))

/-- A node of the graph.  `LeakNode` belongs to no module, or is null in a test: it is never
a function of the module. -/
inductive Node where
  | fn (F : Function)
  | leak
  deriving DecidableEq, Repr

/-- `EHGraphDOTInfo::ChildsMapType`. -/
abbrev ChildsMapType := SetMap Node Node

/-- The collections `buildChildsMap` works on. -/
structure BuildState where
  toVisit : List CallBase
  visited : List CallBase
  childsMap : ChildsMapType
  leafs : List Node
  leaked : Bool
  analyzer : VCallCandidatesAnalyzer
  solver : ICallSolver

/-- `HandleUser`, in the iteration for a call site of `F`: `Childs` refers to the entry of
`F`. -/
def handleUser (E : CurrentException) (F : Function) (s : BuildState) : User → BuildState
  | .callBase CB =>
    -- every caller is a child; only one that cannot catch is expanded
    let s := { s with
      childsMap := s.childsMap.insertAt (.fn F) (.fn CB.function)
      leafs := s.leafs ++ [Node.fn CB.function] }
    match canBeCaught CB E s.analyzer with
    | (true, analyzer) => { s with analyzer := analyzer }
    | (false, analyzer) => { s with analyzer := analyzer, toVisit := CB :: s.toVisit }
  | .other _ => s

/-- The callers the resolvers know, asked in the order of the code: those of the analyzer only
when the solver has none. -/
def resolveUsers (E : CurrentException) (F : Function) (s : BuildState) : BuildState :=
  match s.solver.getCallSites F [] with
  | ((true, Callers), solver) => Callers.foldl (handleUser E F) { s with solver := solver }
  | ((false, Callers), solver) =>
    -- `else if`: the analyzer is asked when the solver has no entry
    match s.analyzer.getCallerCandidates F Callers with
    | ((true, Callers), analyzer) =>
      Callers.foldl (handleUser E F) { s with solver := solver, analyzer := analyzer }
    | ((false, _), analyzer) => { s with solver := solver, analyzer := analyzer }

/-- The body of the loop, for the call site popped. -/
def visitBody (M : Module) (E : CurrentException) (Visiting : CallBase) (s : BuildState) :
    BuildState :=
  if Visiting ∈ s.visited then s
  else
    let F := Visiting.function
    let s := { s with
      visited := Visiting :: s.visited
      childsMap := s.childsMap.subscript (.fn F) }
    if F.IsMain then
      -- `continue`: the callers of main are not looked at
      { s with
        leaked := true
        childsMap := s.childsMap.insertAt (.fn F) .leak
        leafs := s.leafs ++ [Node.leak] }
    else resolveUsers E F ((M.users (.function F)).foldl (handleUser E F) s)

/-- One iteration of the loop; `none` when the worklist is empty. -/
def iterate (M : Module) (E : CurrentException) (s : BuildState) : Option BuildState :=
  match s.toVisit with
  | [] => none
  | Visiting :: rest => some (visitBody M E Visiting { s with toVisit := rest })

/-- The collections before the loop: the static `ChildsMap` is cleared. -/
def initState (E : CurrentException) (ChildsMap : ChildsMapType) (A : VCallCandidatesAnalyzer)
    (S : ICallSolver) : BuildState where
  -- the seed is not asked whether it can catch
  toVisit := [E.throwSite]
  visited := []
  childsMap := ChildsMap.clear
  leafs := []
  leaked := false
  analyzer := A
  solver := S

/-! ### What the body of the loop does -/

/-- The users the body hands to `HandleUser` for `F`: its use list, then what the first resolver
with an entry for `F` has. -/
def callerUsers (M : Module) (A : VCallCandidatesAnalyzer) (S : ICallSolver) (F : Function) :
    List User :=
  M.users (.function F) ++
    if F ∈ S.callSitesMap then S.callSitesMap.get F else A.callerMap.get F

/-- The call sites among some users that do not catch the exception. -/
def uncaughtCalls (E : CurrentException) (A : VCallCandidatesAnalyzer) (us : List User) :
    List CallBase :=
  (callBases us).filter fun CB => !(canBeCaught CB E A).1

/-- **What a run of `HandleUser` does**: an edge and a leaf for each call, and a push for each
call that does not catch the exception. -/
theorem handleUsers_eq (E : CurrentException) (F : Function) (us : List User) (s : BuildState) :
    us.foldl (handleUser E F) s =
      { s with
        toVisit := (uncaughtCalls E s.analyzer us).reverse ++ s.toVisit
        childsMap := (callBases us).foldl
          (fun m CB => m.insertAt (.fn F) (.fn CB.function)) s.childsMap
        leafs := s.leafs ++ (callBases us).map fun CB => .fn CB.function } := by
  induction us generalizing s with
  | nil => simp [uncaughtCalls, callBases]
  | cons U us ih =>
    rw [List.foldl_cons, ih]
    cases U with
    | other id => rfl
    | callBase CB =>
      -- the test leaves the analyzer as it is, so the later users see the same one
      have hstate := canBeCaught_state CB E s.analyzer
      unfold handleUser
      cases hcatch : canBeCaught CB E s.analyzer with
      | mk caught analyzer =>
        rw [hcatch] at hstate
        subst hstate
        cases caught <;>
          simp [uncaughtCalls, callBases, hcatch]

/-- The resolvers' callers are handled like users, and the resolvers stay as they are. -/
theorem resolveUsers_eq (E : CurrentException) (F : Function) (s : BuildState) :
    resolveUsers E F s =
      (if F ∈ s.solver.callSitesMap then s.solver.callSitesMap.get F
        else s.analyzer.callerMap.get F).foldl (handleUser E F) s := by
  have hS := s.solver.getCallSites_state F []
  have hS' := s.solver.getCallSites_result F []
  unfold resolveUsers
  generalize s.solver.getCallSites F [] = r at hS hS'
  obtain ⟨⟨found, Callers⟩, solver⟩ := r
  obtain rfl : solver = s.solver := hS
  simp only [Prod.mk.injEq, List.nil_append] at hS'
  obtain ⟨rfl, rfl⟩ := hS'
  by_cases hF : F ∈ s.solver.callSitesMap
  · -- the solver answers, and the analyzer is not asked
    simp only [hF, decide_true, if_true]
  · -- its answer was empty, and the analyzer appends to it
    have hA := s.analyzer.getCallerCandidates_state F (s.solver.callSitesMap.get F)
    have hA' := s.analyzer.getCallerCandidates_result F (s.solver.callSitesMap.get F)
    simp only [hF, decide_false, if_false]
    generalize s.analyzer.getCallerCandidates F (s.solver.callSitesMap.get F) = r at hA hA'
    obtain ⟨⟨found, Callers⟩, analyzer⟩ := r
    obtain rfl : analyzer = s.analyzer := hA
    simp only [Prod.mk.injEq, SetMap.get_eq_nil hF, List.nil_append] at hA'
    obtain ⟨rfl, rfl⟩ := hA'
    by_cases hV : F ∈ s.analyzer.callerMap
    · simp only [hV, decide_true]
    · simp only [hV, decide_false, SetMap.get_eq_nil hV, List.foldl_nil]

/-- The body of the loop with the users of a fresh call site handled in a given order. -/
def visitWith (E : CurrentException) (Visiting : CallBase) (us : List User) (s : BuildState) :
    BuildState :=
  if Visiting ∈ s.visited then s
  else
    let F := Visiting.function
    let s := { s with
      visited := Visiting :: s.visited
      childsMap := s.childsMap.subscript (.fn F) }
    if F.IsMain then
      { s with
        leaked := true
        childsMap := s.childsMap.insertAt (.fn F) .leak
        leafs := s.leafs ++ [Node.leak] }
    else us.foldl (handleUser E F) s

/-- **The body of the loop handles the users and the resolvers' callers, in this order.** -/
theorem visitBody_eq (M : Module) (E : CurrentException) (Visiting : CallBase)
    (s : BuildState) :
    visitBody M E Visiting s =
      visitWith E Visiting (callerUsers M s.analyzer s.solver Visiting.function) s := by
  unfold visitBody visitWith
  split
  · rfl
  · dsimp only
    split
    · rfl
    · rw [resolveUsers_eq, callerUsers, List.foldl_append]
      congr 1
      simp only [handleUsers_eq]

/-! ### The loop -/

/-- The call sites the expansion of a call site pushes. -/
def pushedCalls (M : Module) (E : CurrentException) (A : VCallCandidatesAnalyzer)
    (S : ICallSolver) (c : CallBase) : List CallBase :=
  if c.function.IsMain then []
  else uncaughtCalls E A (callerUsers M A S c.function)

/-- The call sites the loop can meet: the throw site, those of the module, and those the
resolvers have recorded. -/
def callUniverse (M : Module) (E : CurrentException) (A : VCallCandidatesAnalyzer)
    (S : ICallSolver) : Finset CallBase :=
  (E.throwSite :: M.callSites ++ callBases S.callSitesMap.values ++
    callBases A.callerMap.values).toFinset

/-- A number of iterations that always suffices. -/
def iterationBound (M : Module) (E : CurrentException) (A : VCallCandidatesAnalyzer)
    (S : ICallSolver) : ℕ :=
  1 + ∑ c ∈ callUniverse M E A S, (pushedCalls M E A S c).length

/-- What follows the loop: every leaf becomes a key. -/
def insertLeafs (s : BuildState) : BuildState :=
  { s with childsMap := s.leafs.foldl SetMap.subscript s.childsMap }

/-- `buildChildsMap(Leak, Analyzer, Solver)`: the collections when it returns.  The graph is
`childsMap` and the verdict is `leaked`. -/
def buildChildsMap (M : Module) (E : CurrentException) (ChildsMap : ChildsMapType)
    (A : VCallCandidatesAnalyzer) (S : ICallSolver) : BuildState :=
  insertLeafs
    (whileSome (iterate M E) (iterationBound M E A S) (initState E ChildsMap A S))

end Ehgp
