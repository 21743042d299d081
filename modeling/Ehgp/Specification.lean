import Ehgp.Reruns
import Mathlib.Data.Set.Card

/-!
# What the tool reports

The output of the tool as a function of the module alone.  An exception spreads
from its throw site to the callers of every function it leaves; a caller is a call
that mentions the function, or one that may call it by its `!callees` node or
through a slot; a landing pad stops the exception by its catch clauses and the
class hierarchy the vtables record.  What both analyses, the propagation loop and
the loops over the throw sites compute is this, read off the maps they fill.

## Main definitions

* `runPasses` — the passes over a module.
* `IsCaller`, `Stops`, `Spreads` — how far an exception spreads.
* `IsNode`, `IsEdge`, `Leaks` — its graph and its verdict.
* `specifiedReport` — the report of a throw site.

## Main results

* `buildChildsMap_asSpecified` — the graph of an exception.
* `runPasses_spec` — **when the passes come through, and what they report.**
-/

namespace SetMap

theorem size_eq_ncard {κ α : Type*} [DecidableEq κ] (m : SetMap κ α) :
    m.size = {k | k ∈ m}.ncard := by
  have hkeys : {k | k ∈ m} = ↑m.keys.toFinset := by
    ext k
    rw [List.coe_toFinset]
    exact Iff.rfl
  rw [hkeys, Set.ncard_coe_finset, List.toFinset_card_of_nodup m.keys_nodup]
  rfl

end SetMap

namespace Ehgp

/-- `runPasses(M)`: the analyses are made anew, and no graph has been built. -/
def runPasses (opts : Options) (L : LLVM) (M : Module) : Except Abort PrintState :=
  EHGraphPrinterPass.run opts L M ∅ .fresh

section

variable (L : LLVM) (M : Module)

/-! ### How far an exception spreads -/

/-- A caller of `F`: a call with `F` among its operands or in its `!callees` node, or a virtual
call with `F` in its slot when no `!callees` node lists `F`. -/
def IsCaller (c : CallBase) (F : Function) : Prop :=
  c ∈ M.callSites ∧ (.function F ∈ c.operands ∨ c.Lists F ∨
    Candidate L M c F ∧ ¬ ∃ c' ∈ M.callSites, c'.Lists F)

/-- A clause stops an exception: one of a known type by `catch (...)`, by that type and by a type
some vtable names as a base of it. -/
def Clause.Stops : Option Value → Clause → Prop
  | some X, .catchClause typeInfo => typeInfo = .null ∨ typeInfo = X ∨
    ∃ B D, RecordsSubclass M (some B) (some D) ∧ typeInfo = .globalVariable B ∧
      X = .globalVariable D
  | some _, .filterClause _ => False
  | none, clause => clause.MayCatchExternal

/-- The landing pad of a call site stops an exception. -/
def Stops (X : Option Value) (c : CallBase) : Prop := ∃ clause ∈ c.padClauses, clause.Stops M X

/-- The call sites at which an exception thrown at `T` leaves their functions: that one, and below
main the callers that do not stop it. -/
inductive Spreads (X : Option Value) (T : CallBase) : CallBase → Prop
  | throwSite : Spreads X T T
  | caller {c c' : CallBase} (h : Spreads X T c) (hmain : ¬ c.function.IsMain)
      (hcaller : IsCaller L M c' c.function) (hpasses : ¬ Stops M X c') : Spreads X T c'

/-! ### The graph and the report -/

/-- The nodes: the functions left, their callers' functions, and the leak node over main. -/
inductive IsNode (X : Option Value) (T : CallBase) : Node → Prop
  | left {c : CallBase} (h : Spreads L M X T c) : IsNode X T (.fn c.function)
  | caller {c c' : CallBase} (h : Spreads L M X T c) (hmain : ¬ c.function.IsMain)
      (hcaller : IsCaller L M c' c.function) : IsNode X T (.fn c'.function)
  | leak {c : CallBase} (h : Spreads L M X T c) (hmain : c.function.IsMain) : IsNode X T .leak

/-- The edges go from a function that is left to its callers' functions, and from main to the leak
node. -/
inductive IsEdge (X : Option Value) (T : CallBase) : Node → Node → Prop
  | caller {c c' : CallBase} (h : Spreads L M X T c) (hmain : ¬ c.function.IsMain)
      (hcaller : IsCaller L M c' c.function) : IsEdge X T (.fn c.function) (.fn c'.function)
  | leak {c : CallBase} (h : Spreads L M X T c) (hmain : c.function.IsMain) :
      IsEdge X T (.fn c.function) .leak

/-- An exception leaks: it leaves main. -/
def Leaks (X : Option Value) (T : CallBase) : Prop :=
  ∃ c, Spreads L M X T c ∧ c.function.IsMain

/-- What a call throws: the type info for a call of `__cxa_throw`, otherwise unknown. -/
def thrownBy (CB : CallBase) : Option Value :=
  match CB.getCalledFunction with
  | none => none
  | some F => if F.name = "__cxa_throw".toList then CB.getArgOperand 1 else none

open Classical in
/-- The report of the `I`-th throw site. -/
noncomputable def specifiedReport (opts : Options) (I : ℕ) (CB : CallBase) : Report where
  filename := opts.filename (I % 2 ^ 32)
  throwSite := CB
  exceptionValue := thrownBy CB
  entryNode := getDemangledName L CB.function.name
  exceptionName :=
    match getExceptionName L M ⟨thrownBy CB, CB⟩ with
    | .ok name => getDemangledName L name
    | .error _ => []
  numberOfNodes := {n | IsNode L M (thrownBy CB) CB n}.ncard
  leaked := decide (Leaks L M (thrownBy CB) CB)
  getPrinted := decide ({n | IsNode L M (thrownBy CB) CB n}.ncard ≤ opts.nodeThreshold)

end

/-- A call that can be reported: it has a called function, and if that is `__cxa_throw` a type
info. -/
def Reportable (CB : CallBase) : Prop :=
  ∃ F, CB.getCalledFunction = some F ∧ (F.name = "__cxa_throw".toList → 2 ≤ CB.args.length)

section

variable {L : LLVM} {M : Module} {A : VCallCandidatesAnalyzer}

/-! ### What the analyses know -/

/-- The callers the tool knows after both analyses. -/
theorem mem_callersOf_iff_isCaller (hA : VCallCandidatesAnalyzer.analyze L M .fresh = .ok A)
    {c : CallBase} {F : Function} :
    c ∈ callersOf M A (ICallSolver.solve M .fresh) F ↔ IsCaller L M c F := by
  have hvirtual : .callBase c ∈ A.callerMap.get F ↔ c ∈ M.callSites ∧ Candidate L M c F :=
    callerMap_of_fresh (analyze_eq_analyzeIn L M _ ▸ hA)
  rw [mem_callersOf_solve, AnsweredFor, hvirtual, IsCaller]
  tauto

/-- The pairs of type infos the analyzer holds. -/
theorem recordsSubclass_iff_mem (hA : VCallCandidatesAnalyzer.analyze L M .fresh = .ok A)
    {B D : GlobalVariable} : RecordsSubclass M (some B) (some D) ↔
      some (.globalVariable D) ∈ A.subclassesMap.get (some (.globalVariable B)) := by
  rw [analyze_eq_analyzeIn] at hA
  rw [analyze_subclassesMap hA]
  refine ⟨fun h => Or.inl ⟨some B, some D, h, rfl, rfl⟩, fun h => ?_⟩
  rcases h with ⟨Base, TypeInfo, hrec, hbase, hinfo⟩ | h
  · -- neither type info is missing
    rwa [asValue_eq_some.mp hbase, asValue_eq_some.mp hinfo] at hrec
  · exact absurd h List.not_mem_nil

theorem exists_of_mem_subclassesMap (hA : VCallCandidatesAnalyzer.analyze L M .fresh = .ok A)
    {V W : Value} (h : some W ∈ A.subclassesMap.get (some V)) :
    ∃ B D, V = .globalVariable B ∧ W = .globalVariable D := by
  rw [analyze_eq_analyzeIn] at hA
  rcases (analyze_subclassesMap hA _ _).mp h with ⟨Base, TypeInfo, -, hbase, hinfo⟩ | h
  · cases Base with
    | none => cases hbase
    | some B =>
      cases TypeInfo with
      | none => cases hinfo
      | some D => exact ⟨B, D, Option.some.inj hbase, Option.some.inj hinfo⟩
  · exact absurd h List.not_mem_nil

/-- The clauses that stop an exception, as the analyzer knows them. -/
theorem clauseCatches_iff_stops (hA : VCallCandidatesAnalyzer.analyze L M .fresh = .ok A)
    (X : Option Value) (T : CallBase) (clause : Clause) :
    (clauseCatches ⟨X, T⟩ A clause).1 = true ↔ clause.Stops M X := by
  cases X with
  | none => exact clauseCatches_external rfl A clause
  | some X =>
    rw [clauseCatches_known]
    cases clause with
    | filterClause typeInfos => exact Iff.rfl
    | catchClause typeInfo =>
      refine or_congr_right (or_congr_right ?_)
      -- what is left is the subclass query
      rw [VCallCandidatesAnalyzer.derivedFrom_result, decide_eq_true_eq]
      refine ⟨fun h => ?_, fun h => ?_⟩
      · obtain ⟨B, D, rfl, rfl⟩ := exists_of_mem_subclassesMap hA h
        exact ⟨B, D, (recordsSubclass_iff_mem hA).mpr h, rfl, rfl⟩
      · obtain ⟨B, D, hrec, rfl, rfl⟩ := h
        exact (recordsSubclass_iff_mem hA).mp hrec

/-- **The test of a landing pad decides whether it stops the exception.** -/
theorem canBeCaught_iff_stops (hA : VCallCandidatesAnalyzer.analyze L M .fresh = .ok A)
    (X : Option Value) (T c : CallBase) :
    (canBeCaught c ⟨X, T⟩ A).1 = true ↔ Stops M X c := by
  rw [canBeCaught_eq, List.any_eq_true]
  simp only [clauseCatches_iff_stops hA]
  rfl

/-- **The call sites the loop reaches are those the exception spreads to.** -/
theorem reached_iff_spreads (hA : VCallCandidatesAnalyzer.analyze L M .fresh = .ok A)
    {X : Option Value} {T c : CallBase} :
    Reached M ⟨X, T⟩ A (ICallSolver.solve M .fresh) c ↔ Spreads L M X T c := by
  unfold Reached
  constructor
  · intro h
    induction h with
    | refl => exact .throwSite
    | tail _ hstep ih =>
      obtain ⟨hmain, hcaller, hcatch⟩ := hstep
      refine ih.caller hmain ((mem_callersOf_iff_isCaller hA).mp hcaller) ?_
      rw [← canBeCaught_iff_stops hA X T, hcatch]
      exact Bool.false_ne_true
  · intro h
    induction h with
    | throwSite => exact .refl
    | caller _ hmain hcaller hpasses ih =>
      refine ih.tail ⟨hmain, (mem_callersOf_iff_isCaller hA).mpr hcaller, ?_⟩
      rw [← canBeCaught_iff_stops hA X T] at hpasses
      exact Bool.eq_false_of_not_eq_true hpasses

/-! ### The graph of an exception -/

variable (L M) in
/-- A graph is the one specified for an exception. -/
structure AsSpecified (X : Option Value) (T : CallBase) (r : BuildState) : Prop where
  node : ∀ n, n ∈ r.childsMap ↔ IsNode L M X T n
  edge : ∀ n n', Drawn r.childsMap n n' ↔ IsEdge L M X T n n'
  leaked : r.leaked = true ↔ Leaks L M X T

/-- **The graph of an exception**, after both analyses. -/
theorem buildChildsMap_asSpecified (hA : VCallCandidatesAnalyzer.analyze L M .fresh = .ok A)
    (X : Option Value) (T : CallBase) (ChildsMap : ChildsMapType) :
    AsSpecified L M X T
      (buildChildsMap M ⟨X, T⟩ ChildsMap A (ICallSolver.solve M .fresh)) := by
  have hexact : Exact M ⟨X, T⟩ A (ICallSolver.solve M .fresh)
      (buildChildsMap M ⟨X, T⟩ ChildsMap A (ICallSolver.solve M .fresh)) :=
    exact_buildChildsMap ChildsMap
  have hedge : ∀ n n', Drawn (buildChildsMap M ⟨X, T⟩ ChildsMap A
      (ICallSolver.solve M .fresh)).childsMap n n' ↔ IsEdge L M X T n n' := by
    intro n n'
    constructor
    · intro h
      obtain ⟨F, rfl⟩ := hexact.source_eq h
      cases n' with
      | leak =>
        obtain ⟨hmain, c, hc, rfl⟩ := (hexact.leakEdge F).mp h
        exact .leak ((reached_iff_spreads hA).mp hc) hmain
      | fn G =>
        obtain ⟨hmain, ⟨c, hc, rfl⟩, c', hc', rfl⟩ := (hexact.edge F G).mp h
        exact .caller ((reached_iff_spreads hA).mp hc) hmain
          ((mem_callersOf_iff_isCaller hA).mp hc')
    · intro h
      cases h with
      | @caller c c' hc hmain hcaller =>
        exact (hexact.edge _ _).mpr ⟨hmain, ⟨c, (reached_iff_spreads hA).mpr hc, rfl⟩, c',
          (mem_callersOf_iff_isCaller hA).mpr hcaller, rfl⟩
      | @leak c hc hmain =>
        exact (hexact.leakEdge _).mpr ⟨hmain, c, (reached_iff_spreads hA).mpr hc, rfl⟩
  refine ⟨?_, hedge, ?_⟩
  · intro n
    rw [hexact.key]
    constructor
    · intro h
      rcases h with ⟨c, hc, rfl⟩ | ⟨m, hm⟩
      · exact .left ((reached_iff_spreads hA).mp hc)
      · -- the target of an edge
        cases (hedge m n).mp hm with
        | caller hc hmain hcaller => exact .caller hc hmain hcaller
        | leak hc hmain => exact .leak hc hmain
    · intro h
      cases h with
      | left hc => exact Or.inl ⟨_, (reached_iff_spreads hA).mpr hc, rfl⟩
      | caller hc hmain hcaller => exact Or.inr ⟨_, (hedge _ _).mpr (.caller hc hmain hcaller)⟩
      | leak hc hmain => exact Or.inr ⟨_, (hedge _ _).mpr (.leak hc hmain)⟩
  · rw [hexact.leaked]
    simp only [reached_iff_spreads hA]
    rfl

/-! ### The reports -/

theorem CurrentException.eq_of_ofCallBase {CB : CallBase} {E : CurrentException}
    (h : ofCallBase CB = .ok E) : E = ⟨thrownBy CB, CB⟩ := by
  obtain ⟨hsite, F, hF, hvalue⟩ := ofCallBase_eq_ok.mp h
  obtain ⟨V, T⟩ := E
  unfold thrownBy
  rw [hF]
  dsimp only at hsite hvalue ⊢
  by_cases hname : F.name = "__cxa_throw".toList
  · rw [if_pos hname] at hvalue ⊢
    rw [hsite, hvalue.2]
  · rw [if_neg hname] at hvalue ⊢
    rw [hsite, hvalue]

open Classical in
theorem specifiedReport_leaked {opts : Options} {I : ℕ} {CB : CallBase} :
    (specifiedReport L M opts I CB).leaked = true ↔ Leaks L M (thrownBy CB) CB := by
  unfold specifiedReport
  rw [decide_eq_true_eq]

theorem AsSpecified.size_eq {X : Option Value} {T : CallBase} {r : BuildState}
    (h : AsSpecified L M X T r) : r.childsMap.size = {n | IsNode L M X T n}.ncard := by
  rw [SetMap.size_eq_ncard]
  simp only [h.node]

open Classical in
theorem AsSpecified.leaked_eq {X : Option Value} {T : CallBase} {r : BuildState}
    (h : AsSpecified L M X T r) : r.leaked = decide (Leaks L M X T) := by
  rw [Bool.eq_iff_iff, h.leaked, decide_eq_true_eq]

open Classical in
/-- **The body of the loop makes the report specified.** -/
theorem printSite_specified {opts : Options} {s s' : PrintState} {CB : CallBase} {I : ℕ}
    (hA : VCallCandidatesAnalyzer.analyze L M .fresh = .ok A) (hanalyzer : s.analyzer = A)
    (hsolver : s.solver = ICallSolver.solve M .fresh) (hindex : s.index = BitVec.ofNat 32 I)
    (h : printSite opts L M s CB = .ok s') :
    s'.reports = s.reports ++ [specifiedReport L M opts I CB] := by
  unfold printSite at h
  cases hE : CurrentException.ofCallBase CB with
  | error e =>
    rw [hE] at h
    cases h
  | ok E =>
    obtain ⟨name, hname⟩ := getExceptionName_ok hE L M
    simp only [hE, hname, Except.ok.injEq] at h
    subst h
    obtain rfl := CurrentException.eq_of_ofCallBase hE
    have hspec := buildChildsMap_asSpecified hA (thrownBy CB) CB s.childsMap
    unfold specifiedReport
    rw [hname, hanalyzer, hsolver, hspec.size_eq, hspec.leaked_eq, hindex, BitVec.toNat_ofNat]

/-- The reports of a run are those specified for the calls it meets, in their order. -/
theorem reports_specified {opts : Options} {out : PrintState} {sites : List CallBase}
    (hA : VCallCandidatesAnalyzer.analyze L M .fresh = .ok A)
    (h : sites.foldlM (printSite opts L M) ⟨0, ∅, A, ICallSolver.solve M .fresh, []⟩ =
      .ok out) : out.reports = sites.mapIdx (specifiedReport L M opts) := by
  -- the counter is the number of calls done, modulo `2 ^ 32`
  have hrun := List.foldlM_ok_induction (P := fun done s =>
    (s.analyzer = A ∧ s.solver = ICallSolver.solve M .fresh ∧
      s.index = BitVec.ofNat 32 done.length) ∧
    s.reports = done.mapIdx (specifiedReport L M opts)) h ⟨⟨rfl, rfl, rfl⟩, rfl⟩ ?_
  · exact hrun.2
  · intro done CB s s' _ hs hstep
    obtain ⟨⟨hanalyzer, hsolver, hindex⟩, hreports⟩ := hs
    obtain ⟨alone, r, -, -, -, hA', hS', hindex'⟩ :=
      printSite_eq_printAlone hanalyzer hsolver hstep
    refine ⟨⟨hA', hS', ?_⟩, ?_⟩
    · rw [hindex', hindex, List.length_append, List.length_singleton, BitVec.ofNat_add]
      rfl
    · rw [printSite_specified hA hanalyzer hsolver hindex hstep, hreports, List.mapIdx_append,
        List.mapIdx_singleton, Nat.zero_add]

theorem runPasses_eq_ok {opts : Options} {out : PrintState} :
    runPasses opts L M = .ok out ↔ ∃ A, VCallCandidatesAnalyzer.analyze L M .fresh = .ok A ∧
      (reportedSites M).foldlM (printSite opts L M)
        ⟨0, ∅, A, ICallSolver.solve M .fresh, []⟩ = .ok out := by
  unfold runPasses EHGraphPrinterPass.run runAnalyses Cached.fresh
  cases VCallCandidatesAnalyzer.analyze L M .fresh with
  | error e => exact iff_of_false nofun fun h => by obtain ⟨A, hA, -⟩ := h; cases hA
  | ok A =>
    dsimp only
    rw [doEHGraphDOTPrinting_eq]
    simp only [Except.ok.injEq, exists_eq_left']

end

theorem runPasses_comesThrough_iff (opts : Options) (L : LLVM) (M : Module) :
    (∃ out, runPasses opts L M = .ok out) ↔
      ComesThrough L M ∧ ∀ CB ∈ reportedSites M, Reportable CB := by
  simp only [Reportable, ← CurrentException.exists_ofCallBase_eq_ok]
  rw [ComesThrough, ← analyze_eq_ok_iff L M M.callSites .fresh, ← analyze_eq_analyzeIn]
  refine ⟨fun h => ?_, fun h => ?_⟩
  · obtain ⟨out, hout⟩ := h
    obtain ⟨A, hA, hfold⟩ := runPasses_eq_ok.mp hout
    exact ⟨⟨A, hA⟩, (foldlM_printSite_ok_iff opts L M _ _).mp ⟨out, hfold⟩⟩
  · obtain ⟨⟨A, hA⟩, hsites⟩ := h
    obtain ⟨out, hout⟩ := (foldlM_printSite_ok_iff opts L M _
      ⟨0, ∅, A, ICallSolver.solve M .fresh, []⟩).mpr hsites
    exact ⟨out, runPasses_eq_ok.mpr ⟨A, hA, hout⟩⟩

theorem runPasses_reports {opts : Options} {L : LLVM} {M : Module} {out : PrintState}
    (h : runPasses opts L M = .ok out) :
    out.reports = (reportedSites M).mapIdx (specifiedReport L M opts) := by
  obtain ⟨A, hA, hfold⟩ := runPasses_eq_ok.mp h
  exact reports_specified hA hfold

/-- **When the passes come through, and what they report**: exactly when the analyses come
through and every call met can be reported; and then the reports are those specified for the calls
met, in their order. -/
theorem runPasses_spec (opts : Options) (L : LLVM) (M : Module) :
    ((∃ out, runPasses opts L M = .ok out) ↔
      ComesThrough L M ∧ ∀ CB ∈ reportedSites M, Reportable CB) ∧
    ∀ out, runPasses opts L M = .ok out →
      out.reports = (reportedSites M).mapIdx (specifiedReport L M opts) :=
  ⟨runPasses_comesThrough_iff opts L M, fun _ h => runPasses_reports h⟩

end Ehgp
