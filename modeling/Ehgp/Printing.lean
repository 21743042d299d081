import Ehgp.EHGraph
import Ehgp.ExceptFold

/-!
# The reports

`doEHGraphDOTPrinting` makes a report for every call in the use list of a
function it tracks.  The use list holds calls *of* the function, but also calls
the function is only passed to, and the report is built from the callee of the
call in both cases.

## Main definitions

* `shouldTrackFunction` — the functions that may throw.
* `doEHGraphDOTPrinting` — the reports of a module.
* `reportedSites` — the calls the loops meet, in their order.

## Main results

* `printSite_ok`, `printSite_eq_error` — what the body of the inner loop does.
* `doEHGraphDOTPrinting_eq` — the nested loops are one loop over `reportedSites`.
-/

namespace Ehgp

/-! ### Names -/

/-- `getDemangledName(Name)`. -/
def getDemangledName (L : LLVM) (Name : StringRef) : StringRef :=
  match L.itaniumDemangle Name with
  | some S => S
  | none => Name

/-- `getExceptionName()`. -/
def getExceptionName (L : LLVM) (M : Module) (E : CurrentException) : Except Abort StringRef :=
  match E.exceptionValue with
  | some V => .ok (getDemangledName L (M.getName V))
  | none =>
    match E.throwSite.getCalledFunction with
    | none => .error .calledFunctionNull
    | some F =>
      .ok ("Potential external exception throwed by ".toList ++ getDemangledName L F.name)

/-- `shouldTrackFunction(F)`. -/
def shouldTrackFunction (M : Module) (F : Function) : Bool :=
  if F.name.startsWith "__cxa" && F.name != "__cxa_throw".toList then false
  else M.isDeclaration F && !F.noUnwind

/-- A call in a function the loops skip. -/
def InGlobalInit (CB : CallBase) : Prop :=
  CB.function.name.startsWith "_GLOBAL_" = true

instance (CB : CallBase) : Decidable (InGlobalInit CB) := inferInstanceAs (Decidable (_ = _))

/-! ### The loops -/

/-- The command line, and the file system: which files open for writing. -/
structure Options where
  outputDirectory : StringRef
  nodeThreshold : ℕ
  opens : StringRef → Bool

/-- The report of a throw site, as printed. -/
structure Report where
  filename : StringRef
  throwSite : CallBase
  exceptionValue : Option Value
  entryNode : StringRef
  exceptionName : StringRef
  numberOfNodes : ℕ
  leaked : Bool
  getPrinted : Bool

/-- The state of the loops: the counter, an `unsigned`, the static `ChildsMap`, the resolvers and
the reports made. -/
structure PrintState where
  index : BitVec 32
  childsMap : ChildsMapType
  analyzer : VCallCandidatesAnalyzer
  solver : ICallSolver
  reports : List Report

/-- The name of the file with a given index. -/
def Options.filename (opts : Options) (I : ℕ) : StringRef :=
  opts.outputDirectory ++ "/".toList ++ Nat.toDigits 10 I ++ ".dot".toList

/-- `WriteGraph(File, &GInfo)`, as far as it touches the map: `child_begin` and `child_end`
subscript it at every node.  Of LLVM's `GraphWriter` it is assumed that it asks for the children of
keys and of children only. -/
def writeGraph (m : ChildsMapType) : ChildsMapType :=
  m.keys.foldl (fun m N => (m.subscript N).subscript N) m

/-- The body of the inner loop, at a call it does not skip. -/
def printSite (opts : Options) (L : LLVM) (M : Module) (s : PrintState) (CB : CallBase) :
    Except Abort PrintState :=
  let filename := opts.filename s.index.toNat
  match CurrentException.ofCallBase CB with
  | .error e => .error e
  | .ok E =>
    let GInfo := buildChildsMap M E s.childsMap s.analyzer s.solver
    match getExceptionName L M E with
    | .error e => .error e
    | .ok exceptionName =>
      let ShouldPrint := decide (GInfo.childsMap.size ≤ opts.nodeThreshold)
      .ok {
        index := s.index + 1
        childsMap :=
          -- `WriteGraph` runs on what is printed and opens
          if ShouldPrint && opts.opens filename then writeGraph GInfo.childsMap
          else GInfo.childsMap
        analyzer := GInfo.analyzer
        solver := GInfo.solver
        reports := s.reports ++ [{
          filename := filename
          throwSite := CB
          exceptionValue := E.exceptionValue
          entryNode := getDemangledName L CB.function.name
          exceptionName := getDemangledName L exceptionName
          numberOfNodes := GInfo.childsMap.size
          leaked := GInfo.leaked
          getPrinted := ShouldPrint }] }

/-- The body of the inner loop, at a user. -/
def printUser (opts : Options) (L : LLVM) (M : Module) (s : PrintState) (U : User) :
    Except Abort PrintState :=
  match U with
  | .other _ => .ok s
  | .callBase CB => if InGlobalInit CB then .ok s else printSite opts L M s CB

/-- The body of the outer loop. -/
def printFunction (opts : Options) (L : LLVM) (M : Module) (s : PrintState) (F : Function) :
    Except Abort PrintState :=
  if !shouldTrackFunction M F then .ok s
  else (M.users (.function F)).foldlM (printUser opts L M) s

/-- `doEHGraphDOTPrinting(M, Analyzer, Solver)`. -/
def doEHGraphDOTPrinting (opts : Options) (L : LLVM) (M : Module) (ChildsMap : ChildsMapType)
    (A : VCallCandidatesAnalyzer) (S : ICallSolver) : Except Abort PrintState :=
  M.functions.foldlM (printFunction opts L M) ⟨0, ChildsMap, A, S, []⟩

/-! ### What the body of the inner loop does -/

theorem getExceptionName_ok {CB : CallBase} {E : CurrentException}
    (h : CurrentException.ofCallBase CB = .ok E) (L : LLVM) (M : Module) :
    ∃ name, getExceptionName L M E = .ok name := by
  obtain ⟨rfl, F, hF, -⟩ := CurrentException.ofCallBase_eq_ok.mp h
  unfold getExceptionName
  cases E.exceptionValue with
  | some V => exact ⟨_, rfl⟩
  | none => exact ⟨_, by rw [hF]⟩

/-- **What the body of the inner loop does**, where it comes through. -/
theorem printSite_ok {opts : Options} {L : LLVM} {M : Module} {s s' : PrintState} {CB : CallBase}
    (h : printSite opts L M s CB = .ok s') :
    ∃ r, s'.reports = s.reports ++ [r] ∧ s'.index = s.index + 1 ∧
      r.filename = opts.filename s.index.toNat ∧
      CurrentException.ofCallBase CB = .ok ⟨r.exceptionValue, r.throwSite⟩ := by
  unfold printSite at h
  cases hE : CurrentException.ofCallBase CB with
  | error e => rw [hE] at h; exact absurd h nofun
  | ok E =>
    obtain ⟨name, hname⟩ := getExceptionName_ok hE L M
    have hsite := (CurrentException.ofCallBase_eq_ok.mp hE).1
    simp only [hE, hname, Except.ok.injEq] at h
    subst h
    exact ⟨_, rfl, rfl, rfl, by rw [← hsite]⟩

/-- The body stops where the constructor of `CurrentException` does. -/
theorem printSite_eq_error {opts : Options} {L : LLVM} {M : Module} {s : PrintState}
    {CB : CallBase} {e : Abort} :
    printSite opts L M s CB = .error e ↔ CurrentException.ofCallBase CB = .error e := by
  unfold printSite
  cases hE : CurrentException.ofCallBase CB with
  | error e' => simp only [Except.error.injEq]
  | ok E =>
    obtain ⟨name, hname⟩ := getExceptionName_ok hE L M
    simp only [hname]
    exact iff_of_false nofun nofun
/-! ### The calls the loops meet -/

/-- The calls the inner loop does not skip, for a function. -/
def sitesOf (M : Module) (F : Function) : List CallBase :=
  (callBases (M.users (.function F))).filter fun CB => !decide (InGlobalInit CB)

/-- The tracked functions. -/
def trackedFunctions (M : Module) : List Function := M.functions.filter (shouldTrackFunction M)

/-- The calls a `CurrentException` is made for, in the order of the loops. -/
def reportedSites (M : Module) : List CallBase := (trackedFunctions M).flatMap (sitesOf M)

/-- An inner loop is a loop over the calls it does not skip. -/
theorem foldlM_users {ε σ : Type*} {g : σ → User → Except ε σ} {f : σ → CallBase → Except ε σ}
    (hother : ∀ s id, g s (.other id) = .ok s)
    (hcall : ∀ s CB, g s (.callBase CB) = if InGlobalInit CB then .ok s else f s CB)
    (us : List User) (s : σ) :
    us.foldlM g s =
      ((callBases us).filter fun CB => !decide (InGlobalInit CB)).foldlM f s := by
  induction us generalizing s with
  | nil => rfl
  | cons U us ih =>
    cases U with
    | other id =>
      rw [List.foldlM_cons, hother]
      exact ih s
    | callBase CB =>
      rw [callBases_cons, List.filter_cons, List.foldlM_cons, hcall]
      -- `continue` in the functions LLVM makes for global variables
      by_cases h : InGlobalInit CB
      · simp only [h, if_true, decide_true, Bool.not_true, Bool.false_eq_true, if_false]
        exact ih s
      · simp only [h, if_false, decide_false, Bool.not_false, if_true, List.foldlM_cons]
        congr 1
        funext s'
        exact ih s'

/-- **Nested loops over the tracked functions and their users** are one loop over the calls they
meet. -/
theorem foldlM_functions {ε σ : Type*} {M : Module} {h : σ → Function → Except ε σ}
    {g : σ → User → Except ε σ} {f : σ → CallBase → Except ε σ}
    (hfunction : ∀ s F, h s F =
      if !shouldTrackFunction M F then .ok s else (M.users (.function F)).foldlM g s)
    (hother : ∀ s id, g s (.other id) = .ok s)
    (hcall : ∀ s CB, g s (.callBase CB) = if InGlobalInit CB then .ok s else f s CB) (s : σ) :
    M.functions.foldlM h s = (reportedSites M).foldlM f s := by
  unfold reportedSites trackedFunctions
  rw [List.foldlM_flatMap]
  induction M.functions generalizing s with
  | nil => rfl
  | cons F Fs ih =>
    rw [List.foldlM_cons, List.filter_cons, hfunction]
    -- `continue` at a function that is not tracked
    by_cases htrack : shouldTrackFunction M F = true
    · simp only [htrack, Bool.not_true, Bool.false_eq_true, if_false, if_true, List.foldlM_cons]
      rw [foldlM_users hother hcall]
      congr 1
      funext s'
      exact ih s'
    · simp only [htrack, Bool.not_false, if_true, Bool.false_eq_true, if_false]
      exact ih s

/-- **The nested loops are one loop over the calls they meet.** -/
theorem doEHGraphDOTPrinting_eq (opts : Options) (L : LLVM) (M : Module)
    (ChildsMap : ChildsMapType) (A : VCallCandidatesAnalyzer) (S : ICallSolver) :
    doEHGraphDOTPrinting opts L M ChildsMap A S =
      (reportedSites M).foldlM (printSite opts L M) ⟨0, ChildsMap, A, S, []⟩ :=
  foldlM_functions (fun _ _ => rfl) (fun _ _ => rfl) (fun _ _ => rfl) _

end Ehgp
