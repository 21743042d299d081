import Ehgp.Propagation
import Ehgp.VirtualCallers

/-!
# The propagation loop ends

A call site is pushed once for each call that leads to it, and asked for only
when it is popped, so the worklist may hold it many times and may grow with each
iteration.  But an iteration that expands a call site expands it for the only
time, and one that does not makes the worklist shorter.

## Main definitions

* `Run` — a run of the loop in any order, with the call sites it expands.
* `CallersIn` — the callers the resolvers have recorded are call sites of the module.
* `EndsExpandingOnce` — the loop ends and expands no call site twice.

## Main results

* `Run.add_potential_le` — **an iteration is paid for by the potential.**
* `CallersIn.of_analyses` — the analyses record call sites of the module.
* `propagation_terminates` — **the loop ends, and expands the call sites of the module at most
  once each.**
-/

namespace Ehgp

open VCallCandidatesAnalyzer

/-! ### Runs that are counted -/

/-- A run of the loop, popping any call site and handling its users in any order: the call sites
its iterations expand, the last one first, and the number of its iterations. -/
inductive Run (M : Module) (E : CurrentException) (s₀ : BuildState) :
    List CallBase → ℕ → BuildState → Prop
  | start : Run M E s₀ [] 0 s₀
  /-- `continue`: the call site popped has been expanded before. -/
  | drop {expanded : List CallBase} {n : ℕ} {s : BuildState} {c : CallBase} {rest : List CallBase}
      (h : Run M E s₀ expanded n s) (hpop : s.toVisit.Perm (c :: rest)) (hc : c ∈ s.visited) :
      Run M E s₀ expanded (n + 1) { s with toVisit := rest }
  | expand {expanded : List CallBase} {n : ℕ} {s : BuildState} {c : CallBase}
      {rest : List CallBase} {us : List User} (h : Run M E s₀ expanded n s)
      (hpop : s.toVisit.Perm (c :: rest)) (hc : c ∉ s.visited)
      (hus : us.Perm (callerUsers M s.analyzer s.solver c.function)) :
      Run M E s₀ (c :: expanded) (n + 1) (visitWith E c us { s with toVisit := rest })

section

variable {M : Module} {E : CurrentException} {A : VCallCandidatesAnalyzer} {S : ICallSolver}
  {ChildsMap : ChildsMapType} {s₀ s s' : BuildState} {expanded : List CallBase} {n : ℕ}

theorem visitWith_of_mem {c : CallBase} {rest : List CallBase} {us : List User}
    (hc : c ∈ s.visited) :
    visitWith E c us { s with toVisit := rest } = { s with toVisit := rest } := if_pos hc

theorem visitWith_visited {c : CallBase} {rest : List CallBase} {us : List User}
    (hc : c ∉ s.visited) :
    (visitWith E c us { s with toVisit := rest }).visited = c :: s.visited := by
  unfold visitWith
  rw [if_neg hc]
  by_cases hmain : c.function.IsMain
  · simp only [hmain, if_true]
  · simp only [hmain, if_false, handleUsers_eq]

theorem anyOrder_drop {c : CallBase} {rest : List CallBase} (hpop : s.toVisit.Perm (c :: rest))
    (hc : c ∈ s.visited) : AnyOrder M E s { s with toVisit := rest } := by
  have hstep := AnyOrder.intro (E := E) hpop
    (List.Perm.refl (callerUsers M s.analyzer s.solver c.function))
  rw [visitWith_of_mem hc] at hstep
  exact hstep

theorem Run.anyOrder (h : Run M E s₀ expanded n s) :
    Relation.ReflTransGen (AnyOrder M E) s₀ s := by
  induction h with
  | start => exact .refl
  | drop _ hpop hc ih => exact ih.tail (anyOrder_drop hpop hc)
  | expand _ hpop _ hus ih => exact ih.tail (.intro hpop hus)

theorem Run.visited_eq (h : Run M E s₀ expanded n s) : s.visited = expanded ++ s₀.visited := by
  induction h with
  | start => rfl
  | drop _ _ _ ih => exact ih
  | expand _ _ hc _ ih =>
    rw [visitWith_visited hc, List.cons_append]
    exact congrArg (List.cons _) ih

/-- An iteration of the code extends a run. -/
theorem Run.exists_of_iterate (h : Run M E s₀ expanded n s) (hstep : iterate M E s = some s') :
    ∃ expanded', Run M E s₀ expanded' (n + 1) s' := by
  unfold iterate at hstep
  cases hs : s.toVisit with
  | nil =>
    rw [hs] at hstep
    cases hstep
  | cons c rest =>
    rw [hs] at hstep
    obtain rfl := Option.some.inj hstep
    rw [visitBody_eq]
    have hpop : s.toVisit.Perm (c :: rest) := hs ▸ List.Perm.refl _
    by_cases hc : c ∈ s.visited
    · rw [visitWith_of_mem hc]
      exact ⟨_, h.drop hpop hc⟩
    · exact ⟨_, h.expand hpop hc (List.Perm.refl _)⟩

/-- **An iteration is paid for by the potential**, in a run from the initial state. -/
theorem Run.add_potential_le (h : Run M E (initState E ChildsMap A S) expanded n s) :
    (∀ c ∈ s.toVisit, c ∈ callUniverse M E A S) ∧
      n + Worklist.potential (traversal M E A S) (callUniverse M E A S) s.work ≤
        iterationBound M E A S := by
  induction h with
  | start =>
    refine ⟨initState_subset ChildsMap, le_of_eq ?_⟩
    rw [Nat.zero_add]
    exact Worklist.potential_init _ _ _ _
  -- dropping a call site is paid for as well: it leaves the worklist
  | drop h hpop hc ih =>
    obtain ⟨-, hA, hS⟩ := AnyOrder.steps h.anyOrder
    obtain ⟨hu, hle⟩ := ih
    obtain ⟨hu', hlt⟩ := (anyOrder_drop hpop hc).potential_lt hA hS hu
    exact ⟨hu', by omega⟩
  | expand h hpop hc hus ih =>
    obtain ⟨-, hA, hS⟩ := AnyOrder.steps h.anyOrder
    obtain ⟨hu, hle⟩ := ih
    obtain ⟨hu', hlt⟩ := (AnyOrder.intro hpop hus).potential_lt hA hS hu
    exact ⟨hu', by omega⟩

/-- **No call site is expanded twice.** -/
theorem Run.nodup (h : Run M E (initState E ChildsMap A S) expanded n s) : expanded.Nodup := by
  obtain ⟨hsteps, -, -⟩ := AnyOrder.steps h.anyOrder
  have hnodup := (hsteps.inv (Worklist.inv_init _ _ _)).nodup
  have hvisited : s.visited = expanded := h.visited_eq.trans (List.append_nil _)
  rw [← hvisited]
  exact hnodup

theorem Run.reached (h : Run M E (initState E ChildsMap A S) expanded n s) {c : CallBase}
    (hc : c ∈ expanded) : Reached M E A S c := by
  obtain ⟨hsteps, -, -⟩ := AnyOrder.steps h.anyOrder
  have hvisited : s.visited = expanded := h.visited_eq.trans (List.append_nil _)
  rw [← reach_traversal]
  apply (hsteps.inv (Worklist.inv_init _ _ _)).sound
  rw [← hvisited] at hc
  exact Or.inr hc

theorem exists_run_of_iterate
    (h : Relation.ReflTransGen (fun s s' => iterate M E s = some s') s₀ s) :
    ∃ expanded n, Run M E s₀ expanded n s := by
  induction h with
  | refl => exact ⟨[], 0, .start⟩
  | tail _ hstep ih =>
    obtain ⟨expanded, n, h⟩ := ih
    obtain ⟨expanded', h'⟩ := h.exists_of_iterate hstep
    exact ⟨expanded', n + 1, h'⟩

theorem iterate_eq_none (h : s.toVisit = []) : iterate M E s = none := by
  unfold iterate
  rw [h]

/-! ### The call sites of the module -/

variable (M A S) in
/-- The callers the resolvers have recorded are call sites of the module. -/
structure CallersIn : Prop where
  callers : ∀ F CB, .callBase CB ∈ A.callerMap.get F → CB ∈ M.callSites
  callSites : ∀ F CB, .callBase CB ∈ S.callSitesMap.get F → CB ∈ M.callSites

theorem callersIn_fresh (M : Module) : CallersIn M .fresh .fresh :=
  ⟨fun _ _ h => absurd h List.not_mem_nil, fun _ _ h => absurd h List.not_mem_nil⟩

/-- **The analyses record call sites of the module.** -/
theorem CallersIn.of_analyses {L : LLVM} {A' : VCallCandidatesAnalyzer} (h : CallersIn M A S)
    (hA : analyze L M A = .ok A') : CallersIn M A' (S.solve M) := by
  rw [analyze_eq_analyzeIn] at hA
  constructor
  · intro F CB hCB
    rcases (analyze_callerMap hA F _).mp hCB with ⟨c, hc, heq, -⟩ | hCB
    · rw [User.callBase.inj heq]
      exact hc
    · exact h.callers F CB hCB
  · intro F CB hCB
    rcases (ICallSolver.mem_solve M S F _).mp hCB with ⟨c, hc, -, heq⟩ | hCB
    · rw [User.callBase.inj heq]
      exact hc
    · exact h.callSites F CB hCB

theorem CallersIn.mem_callSites (h : CallersIn M A S) {F : Function} {c : CallBase}
    (hc : c ∈ callersOf M A S F) : c ∈ M.callSites := by
  unfold callersOf callerUsers at hc
  rw [mem_callBases, List.mem_append] at hc
  rcases hc with hc | hc
  · exact (Module.mem_users.mp hc).1
  · split at hc
    · exact h.callSites F c hc
    · exact h.callers F c hc

theorem CallersIn.reached (h : CallersIn M A S) {c : CallBase} (hc : Reached M E A S c) :
    c ∈ E.throwSite :: M.callSites := by
  rw [List.mem_cons]
  rcases Relation.ReflTransGen.cases_tail hc with rfl | ⟨b, -, hstep⟩
  · exact Or.inl rfl
  · exact Or.inr (h.mem_callSites hstep.2.1)

/-- **At most the call sites of the module and the throw site are expanded.** -/
theorem Run.length_le (h : Run M E (initState E ChildsMap A S) expanded n s)
    (hin : CallersIn M A S) : expanded.length ≤ M.callSites.length + 1 := by
  have hsubset : expanded ⊆ E.throwSite :: M.callSites := by
    intro c hc
    exact hin.reached (h.reached hc)
  have hlength := (List.subperm_of_subset h.nodup hsubset).length_le
  rw [List.length_cons] at hlength
  exact hlength

variable (M E A S ChildsMap) in
/-- The loop of `buildChildsMap` ends, and expands no call site twice. -/
structure EndsExpandingOnce : Prop where
  /-- The iterations of the code end, with nothing left to visit. -/
  ends : ∃ expanded n s, Run M E (initState E ChildsMap A S) expanded n s ∧
    Relation.ReflTransGen (fun s s' => iterate M E s = some s') (initState E ChildsMap A S) s ∧
    s.toVisit = [] ∧ iterate M E s = none
  /-- So do those of any other order, after a number of iterations known before. -/
  bounded : ∃ N, ∀ expanded n s, Run M E (initState E ChildsMap A S) expanded n s → n ≤ N
  once : ∀ expanded n s, Run M E (initState E ChildsMap A S) expanded n s → expanded.Nodup

theorem endsExpandingOnce (M : Module) (E : CurrentException) (A : VCallCandidatesAnalyzer)
    (S : ICallSolver) (ChildsMap : ChildsMapType) : EndsExpandingOnce M E A S ChildsMap where
  ends := by
    obtain ⟨expanded, n, hrun⟩ := exists_run_of_iterate
      (whileSome_steps (f := iterate M E) (iterationBound M E A S) (initState E ChildsMap A S))
    have hdone := buildChildsMap_done (M := M) (E := E) (A := A) (S := S) ChildsMap
    exact ⟨expanded, n, _, hrun, whileSome_steps _ _, hdone, iterate_eq_none hdone⟩
  bounded := by
    refine ⟨iterationBound M E A S, ?_⟩
    intro expanded n s h
    have hle := h.add_potential_le.2
    omega
  once _ _ _ h := h.nodup

end

/-- **The propagation loop terminates.**  It ends for every module, throw site and state of the
resolvers, popping call sites and handling users in any order, and expands no call site twice.
With the callers the analyses of the module have recorded, only the throw site and call sites of
the module are expanded. -/
theorem propagation_terminates (M : Module) (E : CurrentException) (ChildsMap : ChildsMapType) :
    (∀ A S, EndsExpandingOnce M E A S ChildsMap) ∧
      ∀ L A, analyze L M .fresh = .ok A → ∀ expanded n s,
        Run M E (initState E ChildsMap A (ICallSolver.fresh.solve M)) expanded n s →
          expanded ⊆ E.throwSite :: M.callSites ∧
            expanded.length ≤ M.callSites.length + 1 := by
  refine ⟨fun A S => endsExpandingOnce M E A S ChildsMap, ?_⟩
  intro L A hA expanded n s h
  have hin := (callersIn_fresh M).of_analyses hA
  refine ⟨?_, h.length_le hin⟩
  intro c hc
  exact hin.reached (h.reached hc)

end Ehgp
