import Ehgp.Drawing

/-!
# Reports do not influence one another

The graph lives in a static map, and every lookup, in the graph and in the
resolvers, goes through an inserting subscript.  Nevertheless building a graph,
walking it and asking the resolvers may be interleaved at will: the resolvers
stay as they are, and the graph at hand is the one its throw site has alone.

## Main definitions

* `Shared`, `Shared.Step` — what the reports share, and what may happen to it.
* `Shared.Alone` — the graph at hand is the one its exception has alone.
* `ReportedAlone` — the reports are those of the throw sites alone.

## Main results

* `Shared.Step.alone` — **no step changes the resolvers or mixes two graphs.**
* `reportedAlone_foldlM` — **every throw site is reported as if it were alone.**
-/

namespace Ehgp

section

variable {M : Module} {E : CurrentException} {A : VCallCandidatesAnalyzer} {S : ICallSolver}

/-! ### A build -/

theorem buildChildsMap_resolvers (M : Module) (E : CurrentException) (ChildsMap : ChildsMapType)
    (A : VCallCandidatesAnalyzer) (S : ICallSolver) :
    (buildChildsMap M E ChildsMap A S).analyzer = A ∧
      (buildChildsMap M E ChildsMap A S).solver = S := by
  obtain ⟨s, hrun, -, heq⟩ := buildChildsMap_run (M := M) (E := E) (A := A) (S := S) ChildsMap
  rw [heq]
  exact (AnyOrder.steps hrun).2

theorem buildChildsMap_clear (M : Module) (E : CurrentException) (ChildsMap : ChildsMapType)
    (A : VCallCandidatesAnalyzer) (S : ICallSolver) :
    buildChildsMap M E ChildsMap A S = buildChildsMap M E ∅ A S := rfl

/-! ### Steps in any order -/

/-- What the reports share: the static `ChildsMap`, the resolvers, and the `EHGraphDOTInfo` at
hand, by its exception and its verdict. -/
structure Shared where
  childsMap : ChildsMapType
  analyzer : VCallCandidatesAnalyzer
  solver : ICallSolver
  info : Option (CurrentException × Bool)

/-- A step: an `EHGraphDOTInfo` is constructed, its graph is walked, in whole by `WriteGraph` or
in part, or a resolver is asked. -/
inductive Shared.Step (M : Module) : Shared → Shared → Prop
  | build (s : Shared) (E : CurrentException) :
    Step M s
      { childsMap := (buildChildsMap M E s.childsMap s.analyzer s.solver).childsMap
        analyzer := (buildChildsMap M E s.childsMap s.analyzer s.solver).analyzer
        solver := (buildChildsMap M E s.childsMap s.analyzer s.solver).solver
        info := some (E, (buildChildsMap M E s.childsMap s.analyzer s.solver).leaked) }
  | writeGraph (s : Shared) : Step M s { s with childsMap := writeGraph s.childsMap }
  | walk (s : Shared) (l : List Node) (h : OnNodes s.childsMap l) :
    Step M s { s with childsMap := l.foldl SetMap.subscript s.childsMap }
  | derivedFrom (s : Shared) (Base Derived : Value) :
    Step M s { s with analyzer := (s.analyzer.derivedFrom Base Derived).2 }
  | getCallerCandidates (s : Shared) (F : Function) (Callers : List User) :
    Step M s { s with analyzer := (s.analyzer.getCallerCandidates F Callers).2 }
  | getCallSites (s : Shared) (F : Function) (Users : List User) :
    Step M s { s with solver := (s.solver.getCallSites F Users).2 }

/-- The state right after `analyze()` and `solve()`: no graph has been built. -/
def Shared.start (A : VCallCandidatesAnalyzer) (S : ICallSolver) : Shared := ⟨∅, A, S, none⟩

/-- The resolvers are as they were, and the graph and the verdict at hand are those of the
exception alone. -/
structure Shared.Alone (M : Module) (A : VCallCandidatesAnalyzer) (S : ICallSolver)
    (s : Shared) : Prop where
  analyzer : s.analyzer = A
  solver : s.solver = S
  childsMap : s.childsMap = (s.info.map fun i => (buildChildsMap M i.1 ∅ A S).childsMap).getD ∅
  leaked : ∀ i ∈ s.info, i.2 = (buildChildsMap M i.1 ∅ A S).leaked

/-- Before the first build the graph is empty, after it closed: a walk inserts nothing. -/
theorem Shared.Alone.foldl_subscript {s : Shared} (h : s.Alone M A S) {l : List Node}
    (hl : OnNodes s.childsMap l) : l.foldl SetMap.subscript s.childsMap = s.childsMap := by
  apply foldl_subscript_of_onNodes _ hl
  rw [h.childsMap]
  intro n n' hedge
  cases hi : s.info with
  | none =>
    rw [hi, Option.map_none, Option.getD_none, Drawn, SetMap.get_empty] at hedge
    exact absurd hedge List.not_mem_nil
  | some i =>
    have hexact : Exact M i.1 A S (buildChildsMap M i.1 ∅ A S) := exact_buildChildsMap ∅
    rw [hi, Option.map_some, Option.getD_some] at hedge
    rw [Option.map_some, Option.getD_some]
    exact hexact.closed hedge

/-- **No step changes the resolvers or mixes two graphs.** -/
theorem Shared.Step.alone {s s' : Shared} (hstep : Shared.Step M s s') (h : s.Alone M A S) :
    s'.Alone M A S := by
  cases hstep with
  | build E =>
    -- the resolvers are as they were and the old graph is cleared
    obtain ⟨hA, hS⟩ := buildChildsMap_resolvers M E ∅ A S
    have hbuild : buildChildsMap M E s.childsMap s.analyzer s.solver =
        buildChildsMap M E ∅ A S := by
      rw [h.analyzer, h.solver]
      exact buildChildsMap_clear M E s.childsMap A S
    rw [hbuild]
    constructor
    · dsimp only
      exact hA
    · dsimp only
      exact hS
    · dsimp only
      rw [Option.map_some, Option.getD_some]
    · intro i hi
      rw [← Option.some.inj hi]
  | writeGraph =>
    refine ⟨h.analyzer, h.solver, ?_, h.leaked⟩
    rw [writeGraph_eq]
    exact h.childsMap
  | walk l hl =>
    refine ⟨h.analyzer, h.solver, ?_, h.leaked⟩
    rw [h.foldl_subscript hl]
    exact h.childsMap
  | derivedFrom Base Derived =>
    refine ⟨?_, h.solver, h.childsMap, h.leaked⟩
    rw [VCallCandidatesAnalyzer.derivedFrom_state]
    exact h.analyzer
  | getCallerCandidates F Callers =>
    refine ⟨?_, h.solver, h.childsMap, h.leaked⟩
    rw [VCallCandidatesAnalyzer.getCallerCandidates_state]
    exact h.analyzer
  | getCallSites F Users =>
    refine ⟨h.analyzer, ?_, h.childsMap, h.leaked⟩
    rw [ICallSolver.getCallSites_state]
    exact h.solver

/-- **Any steps, in any order.** -/
theorem Shared.alone_of_steps {s : Shared}
    (h : Relation.ReflTransGen (Shared.Step M) (Shared.start A S) s) : s.Alone M A S := by
  induction h with
  | refl => exact ⟨rfl, rfl, rfl, fun i hi => absurd hi (Option.not_mem_none i)⟩
  | tail _ hstep ih => exact hstep.alone ih

end

/-! ### The reports of a sequence of throw sites -/

/-- A throw site processed alone, with the counter at `I`. -/
def printAlone (opts : Options) (L : LLVM) (M : Module) (A : VCallCandidatesAnalyzer)
    (S : ICallSolver) (I : BitVec 32) (CB : CallBase) : Except Abort PrintState :=
  printSite opts L M ⟨I, ∅, A, S, []⟩ CB

section

variable {opts : Options} {L : LLVM} {M : Module} {A : VCallCandidatesAnalyzer} {S : ICallSolver}

/-- **A throw site after others is processed as it is alone**: the reports before it are kept,
and nothing else is left of them. -/
theorem printSite_eq_printAlone {s s' : PrintState} {CB : CallBase} (hA : s.analyzer = A)
    (hS : s.solver = S) (h : printSite opts L M s CB = .ok s') :
    ∃ alone r, printAlone opts L M A S s.index CB = .ok alone ∧ alone.reports = [r] ∧
      s' = { alone with reports := s.reports ++ [r] } ∧ s'.analyzer = A ∧ s'.solver = S ∧
      s'.index = s.index + 1 := by
  subst hA hS
  unfold printAlone printSite at *
  cases hE : CurrentException.ofCallBase CB with
  | error e =>
    rw [hE] at h
    cases h
  | ok E =>
    -- the build clears the map, so the state before does not matter
    obtain ⟨name, hname⟩ := getExceptionName_ok hE L M
    obtain ⟨hA, hS⟩ := buildChildsMap_resolvers M E ∅ s.analyzer s.solver
    simp only [hE, hname, buildChildsMap_clear M E s.childsMap, Except.ok.injEq,
      List.nil_append] at h ⊢
    subst h
    refine ⟨_, _, rfl, rfl, ?_⟩
    dsimp only
    exact ⟨rfl, hA, hS, rfl⟩

variable (opts L M A S) in
/-- The throw sites `sites`, processed one after the other from a state with the counter at `I`
and any graph, are each reported as if they were alone. -/
structure ReportedAlone (I : BitVec 32) (ChildsMap : ChildsMapType) (sites : List CallBase)
    (s : PrintState) : Prop where
  /-- The resolvers are as they were. -/
  analyzer : s.analyzer = A
  solver : s.solver = S
  /-- There is a report for each throw site. -/
  index : s.index = I + BitVec.ofNat 32 sites.length
  length : s.reports.length = sites.length
  /-- The report of the `k`-th throw site, and the graph after it, are those it has alone. -/
  site : ∀ k CB, sites[k]? = some CB → ∃ sk alone r,
    (sites.take (k + 1)).foldlM (printSite opts L M) ⟨I, ChildsMap, A, S, []⟩ = .ok sk ∧
    printAlone opts L M A S (I + BitVec.ofNat 32 k) CB = .ok alone ∧
    alone.reports = [r] ∧ s.reports[k]? = some r ∧ sk.childsMap = alone.childsMap

/-- The throw sites done, together with the run that did them. -/
private theorem reportedAlone_run {I : BitVec 32} {ChildsMap : ChildsMapType}
    {sites : List CallBase} {s : PrintState}
    (h : sites.foldlM (printSite opts L M) ⟨I, ChildsMap, A, S, []⟩ = .ok s) :
    sites.foldlM (printSite opts L M) ⟨I, ChildsMap, A, S, []⟩ = .ok s ∧
      ReportedAlone opts L M A S I ChildsMap sites s := by
  refine List.foldlM_ok_induction (P := fun done s =>
    done.foldlM (printSite opts L M) ⟨I, ChildsMap, A, S, []⟩ = .ok s ∧
      ReportedAlone opts L M A S I ChildsMap done s) h ⟨rfl, rfl, rfl, ?_, rfl, ?_⟩ ?_
  · exact (BitVec.add_zero I).symm
  · intro k CB hk
    rw [List.getElem?_nil] at hk
    cases hk
  · intro done CB s s' _ ⟨hrun, hdone⟩ hstep
    obtain ⟨alone, r, halone, hr, rfl, hA, hS, hI⟩ :=
      printSite_eq_printAlone hdone.analyzer hdone.solver hstep
    have hrun' : (done ++ [CB]).foldlM (printSite opts L M) ⟨I, ChildsMap, A, S, []⟩ =
        .ok { alone with reports := s.reports ++ [r] } := by
      rw [List.foldlM_append, hrun, Except.bind_eq_ok]
      refine ⟨s, rfl, ?_⟩
      exact Except.bind_eq_ok.mpr ⟨_, hstep, rfl⟩
    refine ⟨hrun', hA, hS, ?_, ?_, ?_⟩
    · rw [hI, hdone.index, List.length_append, List.length_singleton, BitVec.ofNat_add,
        BitVec.add_assoc]
      rfl
    · rw [List.length_append, List.length_append, hdone.length]
      rfl
    · intro k CB' hk
      rcases Nat.lt_trichotomy k done.length with hlt | rfl | hgt
      · -- a throw site done before
        rw [List.getElem?_append_left hlt] at hk
        obtain ⟨sk, alone', r', hsk, halone', hr', hget, hmap⟩ := hdone.site k CB' hk
        refine ⟨sk, alone', r', ?_, halone', hr', ?_, hmap⟩
        · rw [List.take_append_of_le_length (by omega)]
          exact hsk
        · rw [List.getElem?_append_left (by rw [hdone.length]; exact hlt)]
          exact hget
      · -- the one just done
        rw [List.getElem?_concat_length, Option.some.injEq] at hk
        subst hk
        refine ⟨{ alone with reports := s.reports ++ [r] }, alone, r, ?_, ?_, hr, ?_, rfl⟩
        · rw [List.take_of_length_le (by rw [List.length_append]; rfl)]
          exact hrun'
        · rw [← hdone.index]
          exact halone
        · rw [← hdone.length, List.getElem?_concat_length]
      · rw [List.getElem?_eq_none (by simp; omega)] at hk
        cases hk

/-- **Every throw site is reported as if it were alone.** -/
theorem reportedAlone_foldlM {I : BitVec 32} {ChildsMap : ChildsMapType}
    {sites : List CallBase} {s : PrintState}
    (h : sites.foldlM (printSite opts L M) ⟨I, ChildsMap, A, S, []⟩ = .ok s) :
    ReportedAlone opts L M A S I ChildsMap sites s :=
  (reportedAlone_run h).2

end

/-- What the reports of a module do to one another: nothing. -/
structure NoInfluence (M : Module) (A : VCallCandidatesAnalyzer) (S : ICallSolver) : Prop where
  /-- The queries leave the resolvers as they are. -/
  derivedFrom : ∀ Base Derived, (A.derivedFrom Base Derived).2 = A
  getCallerCandidates : ∀ F Callers, (A.getCallerCandidates F Callers).2 = A
  getCallSites : ∀ F Users, (S.getCallSites F Users).2 = S
  /-- Builds, walks and queries, in any order, leave the graph at hand as it is alone. -/
  interleaved : ∀ s, Relation.ReflTransGen (Shared.Step M) (Shared.start A S) s → s.Alone M A S
  /-- Any sequence of throw sites, with any subset of the graphs written, is reported throw site
  by throw site. -/
  sequence : ∀ opts L I ChildsMap sites out,
    sites.foldlM (printSite opts L M) ⟨I, ChildsMap, A, S, []⟩ = .ok out →
      ReportedAlone opts L M A S I ChildsMap sites out
  /-- So is the module. -/
  printed : ∀ opts L ChildsMap out, doEHGraphDOTPrinting opts L M ChildsMap A S = .ok out →
    ReportedAlone opts L M A S 0 ChildsMap (reportedSites M) out

/-- **Reports do not influence one another.** -/
theorem reports_noInfluence (M : Module) (A : VCallCandidatesAnalyzer) (S : ICallSolver) :
    NoInfluence M A S where
  derivedFrom := A.derivedFrom_state
  getCallerCandidates := A.getCallerCandidates_state
  getCallSites := S.getCallSites_state
  interleaved _ h := Shared.alone_of_steps h
  sequence _ _ _ _ _ _ h := reportedAlone_foldlM h
  printed opts L ChildsMap out h := by
    rw [doEHGraphDOTPrinting_eq] at h
    exact reportedAlone_foldlM h

end Ehgp
