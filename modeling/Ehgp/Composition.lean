import Ehgp.Execution

/-!
# Graphs and verdicts by parts

How the graph of an exception is put together from the graphs of the callers that
let it pass, and how a verdict is justified.  An exception does not leak exactly
when some set of functions holds the function of its throw site, keeps clear of
main, and is left by no call that lets the exception pass: what one would write
down to convince a reader of the verdict.

## Main definitions

* `LetsPass` — a call through which an exception goes from one function to another.
* `GraphByParts` — a graph, by those of the callers.
* `Confines` — a set of functions an exception does not get out of.

## Main results

* `Relation.not_exists_reflTransGen_iff` — nothing of a kind is reachable exactly when a
  closed set keeps clear of it.
* `buildChildsMap_byParts` — **a graph is put together from those of the callers.**
* `sameFunction_sameReport` — **throws of one type in one function have one report.**
* `notLeaked_iff_confined` — **what justifies a verdict.**
* `guardedMain_contains` — **handlers in main contain every exception thrown below it.**
-/

namespace Relation

/-- **Nothing of a kind is reachable exactly when a closed set keeps clear of it.** -/
theorem not_exists_reflTransGen_iff {α : Type*} {r : α → α → Prop} {P : α → Prop} {a : α} :
    (¬ ∃ b, ReflTransGen r a b ∧ P b) ↔
      ∃ S : Set α, a ∈ S ∧ (∀ b ∈ S, ∀ c, r b c → c ∈ S) ∧ ∀ b ∈ S, ¬ P b := by
  refine ⟨fun h => ?_, fun h => ?_⟩
  · -- the reachable elements are such a set
    refine ⟨{b | ReflTransGen r a b}, .refl, ?_, ?_⟩
    · intro b hb c hc
      exact hb.tail hc
    · intro b hb hP
      exact h ⟨b, hb, hP⟩
  · obtain ⟨S, ha, hclosed, hclear⟩ := h
    rintro ⟨b, hab, hP⟩
    refine hclear b ?_ hP
    clear hP
    induction hab with
    | refl => exact ha
    | tail _ hstep ih => exact hclosed _ ih _ hstep

end Relation

namespace Ehgp

/-! ### A graph by parts -/

section

variable {M : Module} {X : Option Value} {A : VCallCandidatesAnalyzer} {S : ICallSolver}

/-- The test of a landing pad asks for the type of the exception only. -/
theorem canBeCaught_throwSite (c T T' : CallBase) :
    canBeCaught c ⟨X, T⟩ A = canBeCaught c ⟨X, T'⟩ A := by
  rw [canBeCaught_eq, canBeCaught_eq]
  rfl

theorem propagates_throwSite (T T' : CallBase) :
    Propagates M ⟨X, T⟩ A S = Propagates M ⟨X, T'⟩ A S := by
  funext c c'
  unfold Propagates
  rw [canBeCaught_throwSite c' T T']

/-- **The call sites an exception reaches**: its throw site, and those an exception thrown at a
caller that does not catch it reaches. -/
theorem exists_reached_iff {T : CallBase} (Q : CallBase → Prop) :
    (∃ c, Reached M ⟨X, T⟩ A S c ∧ Q c) ↔
      Q T ∨ ∃ d, Propagates M ⟨X, T⟩ A S T d ∧ ∃ c, Reached M ⟨X, d⟩ A S c ∧ Q c := by
  have hhead : ∀ c, Reached M ⟨X, T⟩ A S c ↔
      c = T ∨ ∃ d, Propagates M ⟨X, T⟩ A S T d ∧ Reached M ⟨X, d⟩ A S c := by
    intro c
    unfold Reached
    rw [Relation.ReflTransGen.cases_head_iff, eq_comm]
    simp only [propagates_throwSite _ T]
  simp only [hhead, or_and_right, exists_or, exists_eq_left]
  refine or_congr_right ⟨fun h => ?_, fun h => ?_⟩
  · obtain ⟨c, ⟨d, hd, hc⟩, hQ⟩ := h
    exact ⟨d, hd, c, hc, hQ⟩
  · obtain ⟨d, hd, c, hc, hQ⟩ := h
    exact ⟨c, ⟨d, hd, hc⟩, hQ⟩

theorem Exact.drawn_iff {E : CurrentException} {r : BuildState} (h : Exact M E A S r)
    {n n' : Node} : Drawn r.childsMap n n' ↔
      ∃ c, Reached M E A S c ∧ n = .fn c.function ∧ IsChild M A S c.function n' := by
  unfold IsChild
  constructor
  · intro hedge
    obtain ⟨F, rfl⟩ := h.source_eq hedge
    cases n' with
    | leak =>
      obtain ⟨hmain, c, hc, rfl⟩ := (h.leakEdge F).mp hedge
      exact ⟨c, hc, rfl, by rw [if_pos hmain]⟩
    | fn G =>
      obtain ⟨hmain, ⟨c, hc, rfl⟩, c', hc', rfl⟩ := (h.edge F G).mp hedge
      exact ⟨c, hc, rfl, by rw [if_neg hmain]; exact ⟨c', hc', rfl⟩⟩
  · intro hchild
    obtain ⟨c, hc, rfl, hchild⟩ := hchild
    by_cases hmain : c.function.IsMain
    · rw [if_pos hmain] at hchild
      subst hchild
      exact (h.leakEdge _).mpr ⟨hmain, c, hc, rfl⟩
    · rw [if_neg hmain] at hchild
      obtain ⟨c', hc', rfl⟩ := hchild
      exact (h.edge _ _).mpr ⟨hmain, ⟨c, hc, rfl⟩, c', hc', rfl⟩

theorem Exact.mem_iff {E : CurrentException} {r : BuildState} (h : Exact M E A S r) {n : Node} :
    n ∈ r.childsMap ↔
      ∃ c, Reached M E A S c ∧ (n = .fn c.function ∨ IsChild M A S c.function n) := by
  have hdrawn : (∃ m, n ∈ r.childsMap.get m) ↔
      ∃ c, Reached M E A S c ∧ IsChild M A S c.function n := by
    refine ⟨fun hm => ?_, fun hc => ?_⟩
    · obtain ⟨m, hm⟩ := hm
      obtain ⟨c, hc, -, hchild⟩ := h.drawn_iff.mp hm
      exact ⟨c, hc, hchild⟩
    · obtain ⟨c, hc, hchild⟩ := hc
      exact ⟨_, h.drawn_iff.mpr ⟨c, hc, rfl, hchild⟩⟩
  rw [h.key, hdrawn]
  simp only [and_or_left, exists_or]

variable (M A S) in
/-- The graph of an exception thrown at `T`, by the graphs of the calls the exception goes on to:
`graph c` is the graph of the exception when it is thrown at `c`. -/
structure GraphByParts (X : Option Value) (graph : CallBase → BuildState) (T : CallBase) :
    Prop where
  key : ∀ n, n ∈ (graph T).childsMap ↔
    (n = .fn T.function ∨ IsChild M A S T.function n) ∨
      ∃ d, Propagates M ⟨X, T⟩ A S T d ∧ n ∈ (graph d).childsMap
  edge : ∀ n n', Drawn (graph T).childsMap n n' ↔
    (n = .fn T.function ∧ IsChild M A S T.function n') ∨
      ∃ d, Propagates M ⟨X, T⟩ A S T d ∧ Drawn (graph d).childsMap n n'
  leaked : (graph T).leaked = true ↔
    T.function.IsMain ∨ ∃ d, Propagates M ⟨X, T⟩ A S T d ∧ (graph d).leaked = true

end

/-- **A graph is put together from those of the callers**: it is the throw site's function with
its children, and the graphs of the same exception thrown at the callers that do not catch it.
In a recursive program these are equations between the graphs of one cycle. -/
theorem buildChildsMap_byParts (M : Module) (X : Option Value) (ChildsMap : ChildsMapType)
    (A : VCallCandidatesAnalyzer) (S : ICallSolver) (T : CallBase) :
    GraphByParts M A S X (fun c => buildChildsMap M ⟨X, c⟩ ChildsMap A S) T := by
  have hexact : ∀ c, Exact M ⟨X, c⟩ A S (buildChildsMap M ⟨X, c⟩ ChildsMap A S) :=
    fun c => exact_buildChildsMap ChildsMap
  refine ⟨fun n => ?_, fun n n' => ?_, ?_⟩
  · simp only [(hexact _).mem_iff]
    exact exists_reached_iff _
  · simp only [(hexact _).drawn_iff]
    exact exists_reached_iff _
  · simp only [(hexact _).leaked]
    exact exists_reached_iff _

section

variable {L : LLVM} {M : Module} {X : Option Value} {opts : Options} {out : PrintState}

/-! ### Throws in one function -/

/-- What an exception reaches depends on the function it is thrown in. -/
theorem Spreads.of_function {T T' c : CallBase} (h : Spreads L M X T c)
    (hF : T.function = T'.function) : ∃ c', Spreads L M X T' c' ∧ c'.function = c.function := by
  induction h with
  | throwSite => exact ⟨T', .throwSite, hF.symm⟩
  | caller _ hmain hcaller hpasses ih =>
    obtain ⟨c', hc', hfunction⟩ := ih
    rw [← hfunction] at hmain hcaller
    exact ⟨_, hc'.caller hmain hcaller hpasses, rfl⟩

theorem Leaks.of_function {T T' : CallBase} (h : Leaks L M X T)
    (hF : T.function = T'.function) : Leaks L M X T' := by
  obtain ⟨c, hc, hmain⟩ := h
  obtain ⟨c', hc', hfunction⟩ := hc.of_function hF
  exact ⟨c', hc', hfunction ▸ hmain⟩

theorem IsNode.of_function {T T' : CallBase} {n : Node} (h : IsNode L M X T n)
    (hF : T.function = T'.function) : IsNode L M X T' n := by
  cases h with
  | left hc =>
    obtain ⟨c', hc', hfunction⟩ := hc.of_function hF
    rw [← hfunction]
    exact .left hc'
  | caller hc hmain hcaller =>
    obtain ⟨c', hc', hfunction⟩ := hc.of_function hF
    rw [← hfunction] at hmain hcaller
    exact .caller hc' hmain hcaller
  | leak hc hmain =>
    obtain ⟨c', hc', hfunction⟩ := hc.of_function hF
    rw [← hfunction] at hmain
    exact .leak hc' hmain

/-! ### What justifies a verdict -/

variable (L M X) in
/-- A call in `G` through which the exception goes on from `F`. -/
def LetsPass (F G : Function) : Prop := ∃ c, IsCaller L M c F ∧ ¬ Stops M X c ∧ c.function = G

/-- **An exception leaks when calls let it pass up to main**, whether or not it is followed above
main. -/
theorem leaks_iff_letsPass {T : CallBase} :
    Leaks L M X T ↔
      ∃ F : Function, Relation.ReflTransGen (LetsPass L M X) T.function F ∧ F.IsMain := by
  constructor
  · intro h
    obtain ⟨c, hc, hmain⟩ := h
    refine ⟨c.function, ?_, hmain⟩
    clear hmain
    induction hc with
    | throwSite => exact .refl
    | caller _ _ hcaller hpasses ih => exact ih.tail ⟨_, hcaller, hpasses, rfl⟩
  · intro h
    obtain ⟨F, hpath, hmain⟩ := h
    -- the path may pass main before it ends there
    have hreach : Leaks L M X T ∨ ∃ c, Spreads L M X T c ∧ c.function = F := by
      clear hmain
      induction hpath with
      | refl => exact Or.inr ⟨T, .throwSite, rfl⟩
      | tail _ hstep ih =>
        obtain ⟨c', hcaller, hpasses, rfl⟩ := hstep
        rcases ih with hleaks | ⟨c, hc, rfl⟩
        · exact Or.inl hleaks
        · by_cases hmain : c.function.IsMain
          · exact Or.inl ⟨c, hc, hmain⟩
          · exact Or.inr ⟨c', hc.caller hmain hcaller hpasses, rfl⟩
    rcases hreach with hleaks | ⟨c, hc, rfl⟩
    · exact hleaks
    · exact ⟨c, hc, hmain⟩

variable (L M X) in
/-- A set of functions an exception thrown in `F` does not get out of, and without main. -/
structure Confines (F : Function) (S : Set Function) : Prop where
  entry : F ∈ S
  closed : ∀ G ∈ S, ∀ c, IsCaller L M c G → Stops M X c ∨ c.function ∈ S
  noMain : ∀ G ∈ S, ¬ G.IsMain

theorem not_leaks_iff_confined {T : CallBase} :
    ¬ Leaks L M X T ↔ ∃ S, Confines L M X T.function S := by
  rw [leaks_iff_letsPass, Relation.not_exists_reflTransGen_iff]
  refine exists_congr fun S => ?_
  refine ⟨fun h => ?_, fun h => ?_⟩
  · obtain ⟨hentry, hclosed, hmain⟩ := h
    refine ⟨hentry, ?_, hmain⟩
    intro G hG c hcaller
    by_cases hstop : Stops M X c
    · exact Or.inl hstop
    · exact Or.inr (hclosed G hG _ ⟨c, hcaller, hstop, rfl⟩)
  · refine ⟨h.entry, ?_, h.noMain⟩
    rintro G hG F ⟨c, hcaller, hpasses, rfl⟩
    exact (h.closed G hG c hcaller).resolve_left hpasses

end

/-! #### Two throws of `f` -/

namespace Pads

/-- The second throw of an `A` in `f`. -/
def throwAgain : CallBase := { throwA with id := 50 }

/-- `main` calls `f`, which throws at two places. -/
def twoThrowsModule : Module :=
  .ofData (.ofCalls [f, main, cxaThrow] [typeInfoA] [throwA, throwAgain, callOfF]) (by decide)

theorem exists_runPasses_twoThrows :
    ∃ out, runPasses options .documented twoThrowsModule = .ok out := ⟨_, rfl⟩

/-- The call of `f` in `main`, with `catch (...)` around it. -/
def containedCallOfF : CallBase := { callOfF with
  kind := .invoke (plain 51) ⟨52, some ⟨false, [.catchClause .null]⟩⟩ }

/-- `main` guards its only call. -/
def containedModule : Module :=
  .ofData (.ofCalls [f, main, cxaThrow] [typeInfoA] [throwA, containedCallOfF]) (by decide)

theorem exists_runPasses_contained :
    ∃ out, runPasses options .documented containedModule = .ok out := ⟨_, rfl⟩

end Pads

/-- **Throws of one type in one function have one report**, up to the file and the call. -/
theorem sameFunction_sameReport {opts : Options} {L : LLVM} {M : Module} {out : PrintState}
    (h : runPasses opts L M = .ok out) {r r' : Report} (hr : r ∈ out.reports)
    (hr' : r' ∈ out.reports) (hF : r.throwSite.function = r'.throwSite.function)
    (hX : r.exceptionValue = r'.exceptionValue) :
    r.entryNode = r'.entryNode ∧ r.numberOfNodes = r'.numberOfNodes ∧ r.leaked = r'.leaked ∧
      r.getPrinted = r'.getPrinted ∧
      (r.exceptionValue.isSome = true → r.exceptionName = r'.exceptionName) := by
  obtain ⟨I, CB, -, rfl⟩ := exists_site_of_report h hr
  obtain ⟨I', CB', -, rfl⟩ := exists_site_of_report h hr'
  have hthrown : thrownBy CB = thrownBy CB' := hX
  have hfunction : CB.function = CB'.function := hF
  -- the graph depends on the throw site by its function only
  have hnodes : {n | IsNode L M (thrownBy CB) CB n} = {n | IsNode L M (thrownBy CB') CB' n} := by
    ext n
    rw [← hthrown]
    exact ⟨fun hn => hn.of_function hfunction, fun hn => hn.of_function hfunction.symm⟩
  refine ⟨congrArg (fun F : Function => getDemangledName L F.name) hfunction,
    congrArg Set.ncard hnodes, ?_, ?_, ?_⟩
  · rw [Bool.eq_iff_iff, specifiedReport_leaked, specifiedReport_leaked, ← hthrown]
    exact ⟨fun hl => hl.of_function hfunction, fun hl => hl.of_function hfunction.symm⟩
  · unfold specifiedReport
    rw [hnodes]
  · intro hknown
    obtain ⟨V, hV⟩ := Option.isSome_iff_exists.mp hknown
    have hV' : thrownBy CB = some V := hV
    unfold specifiedReport getExceptionName
    rw [← hthrown, hV']

/-- The two throws of `f`. -/
theorem sameFunction_sameReport_twoThrows :
    ∃ out, runPasses Pads.options .documented Pads.twoThrowsModule = .ok out ∧
      ∃ r ∈ out.reports, ∃ r' ∈ out.reports, r.throwSite = Pads.throwA ∧
        r'.throwSite = Pads.throwAgain ∧ r.leaked = r'.leaked := by
  obtain ⟨out, hout⟩ := Pads.exists_runPasses_twoThrows
  obtain ⟨I, hr⟩ := exists_report_of_site hout (show Pads.throwA ∈ _ by decide)
  obtain ⟨I', hr'⟩ := exists_report_of_site hout (show Pads.throwAgain ∈ _ by decide)
  refine ⟨out, hout, _, hr, _, hr', rfl, rfl, ?_⟩
  exact (sameFunction_sameReport hout hr hr' rfl rfl).2.2.1

/-- **What justifies a verdict**: a report says that an exception does not leak exactly when some
set of functions confines it. -/
theorem notLeaked_iff_confined {opts : Options} {L : LLVM} {M : Module} {out : PrintState}
    (h : runPasses opts L M = .ok out) {r : Report} (hr : r ∈ out.reports) :
    r.leaked = false ↔ ∃ S, Confines L M r.exceptionValue r.throwSite.function S := by
  obtain ⟨I, CB, -, rfl⟩ := exists_site_of_report h hr
  rw [← Bool.not_eq_true, specifiedReport_leaked]
  exact not_leaks_iff_confined

/-- The functions that confine the `A` of `f`, when `main` has a handler. -/
theorem notLeaked_iff_confined_contained :
    ∃ out, runPasses Pads.options .documented Pads.containedModule = .ok out ∧
      ∃ r ∈ out.reports, (r.leaked = false ↔ ∃ S,
        Confines .documented Pads.containedModule r.exceptionValue r.throwSite.function S) := by
  obtain ⟨out, hout⟩ := Pads.exists_runPasses_contained
  obtain ⟨I, hr⟩ := exists_report_of_site hout (show Pads.throwA ∈ _ by decide)
  exact ⟨out, hout, _, hr, notLeaked_iff_confined hout hr⟩

end Ehgp
