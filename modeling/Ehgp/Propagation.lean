import Ehgp.EHGraph

/-!
# What the propagation loop computes

`buildChildsMap` is a worklist traversal: its successors are the callers that do
not catch the exception, and its accumulator is the graph.  Everything it leaves
behind is determined by the set of call sites the exception reaches, whatever
the order in which users are enumerated and call sites are popped.

## Main definitions

* `Reached` — the call sites an exception reaches.
* `AnyOrder` — one iteration, with both orders left open.
* `Recorded` — the graph records the expansion of some call sites.
* `Exact` — the graph and the verdict that belong to the reached call sites.

## Main results

* `iterate_anyOrder` — the code's iteration is one of those of `AnyOrder`.
* `AnyOrder.step` — **an iteration is a step of the worklist traversal.**
* `buildChildsMap_done` — the loop of `buildChildsMap` ends.
* `exact_buildChildsMap` — what `buildChildsMap` returns.
-/

namespace Ehgp

section

variable (M : Module) (E : CurrentException) (A : VCallCandidatesAnalyzer) (S : ICallSolver)

/-! ### The call sites an exception reaches -/

/-- The callers of a function, as far as the tool knows them. -/
def callersOf (F : Function) : List CallBase := callBases (callerUsers M A S F)

/-- The exception goes from a call site to a caller of its function that does not catch it. -/
def Propagates (c c' : CallBase) : Prop :=
  ¬ c.function.IsMain ∧ c' ∈ callersOf M A S c.function ∧
    (canBeCaught c' E A).1 = false

/-- The call sites the exception reaches from its throw site. -/
def Reached : CallBase → Prop := Relation.ReflTransGen (Propagates M E A S) E.throwSite

/-- The children of a function, once it is expanded. -/
def IsChild (F : Function) (n : Node) : Prop :=
  if F.IsMain then n = .leak
  else ∃ c ∈ callersOf M A S F, n = .fn c.function

theorem mem_pushedCalls {c c' : CallBase} :
    c' ∈ pushedCalls M E A S c ↔ Propagates M E A S c c' := by
  unfold pushedCalls Propagates uncaughtCalls
  split
  · next h => simp [h]
  · next h => simp [h, callersOf]

/-! ### Iterations in any order -/

/-- One iteration of the loop, popping any call site and handling its users in any order. -/
inductive AnyOrder : BuildState → BuildState → Prop
  | intro {s : BuildState} {c : CallBase} {rest : List CallBase} {us : List User}
      (hpop : s.toVisit.Perm (c :: rest))
      (hus : us.Perm (callerUsers M s.analyzer s.solver c.function)) :
      AnyOrder s (visitWith E c us { s with toVisit := rest })

/-- The code pops the back of the vector and handles the users in the order of their lists. -/
theorem iterate_anyOrder {s s' : BuildState} (h : iterate M E s = some s') :
    AnyOrder M E s s' := by
  unfold iterate at h
  split at h
  · exact absurd h nofun
  · next c rest hs =>
    rw [Option.some.injEq, visitBody_eq] at h
    subst h
    exact AnyOrder.intro (hs ▸ List.Perm.refl _) (List.Perm.refl _)

/-- The part of the state that becomes the result. -/
structure Graph where
  childsMap : ChildsMapType
  leafs : List Node
  leaked : Bool

/-- What the expansion of a call site records, with its users in a given order. -/
def Graph.record (g : Graph) (c : CallBase) (us : List User) : Graph :=
  let childsMap := g.childsMap.subscript (.fn c.function)
  if c.function.IsMain then
    ⟨childsMap.insertAt (.fn c.function) .leak, g.leafs ++ [Node.leak], true⟩
  else
    ⟨(callBases us).foldl (fun m CB => m.insertAt (.fn c.function) (.fn CB.function)) childsMap,
      g.leafs ++ (callBases us).map fun CB => .fn CB.function, g.leaked⟩

/-- The propagation as a worklist traversal. -/
def traversal : Worklist.Traversal CallBase Graph where
  next := pushedCalls M E A S
  visit c g g' := ∃ us, us.Perm (callerUsers M A S c.function) ∧ g' = g.record c us

/-- The state of the loop as a state of the traversal. -/
def BuildState.work (s : BuildState) : Worklist.State CallBase Graph :=
  ⟨s.toVisit, s.visited, ⟨s.childsMap, s.leafs, s.leaked⟩⟩

theorem reach_traversal (c : CallBase) :
    Worklist.Reach (traversal M E A S) E.throwSite c ↔ Reached M E A S c := by
  unfold Worklist.Reach Reached
  have h : (fun x y => y ∈ (traversal M E A S).next x) = Propagates M E A S := by
    funext x y
    exact propext (mem_pushedCalls M E A S)
  rw [h]

theorem uncaughtCalls_perm {us us' : List User} (h : us.Perm us') :
    (uncaughtCalls E A us).Perm (uncaughtCalls E A us') :=
  (h.filterMap _).filter _

variable {M E A S}

/-- **An iteration is a step of the worklist traversal**, and leaves the resolvers as they
are. -/
theorem AnyOrder.step {s s' : BuildState} (h : AnyOrder M E s s') (hA : s.analyzer = A)
    (hS : s.solver = S) :
    Worklist.Step (traversal M E A S) s.work s'.work ∧ s'.analyzer = A ∧ s'.solver = S := by
  subst hA hS
  obtain ⟨hpop, hus⟩ := h
  rename_i c rest us
  unfold visitWith
  by_cases hc : c ∈ s.visited
  · -- a call site pushed twice is dropped
    rw [if_pos hc]
    exact ⟨Worklist.Step.skip (s := s.work) hpop hc, rfl, rfl⟩
  · rw [if_neg hc]
    dsimp only
    by_cases hmain : c.function.IsMain
    · -- a call site in main has no successors
      rw [if_pos hmain]
      refine ⟨?_, rfl, rfl⟩
      have hpush : ([] : List CallBase).Perm (pushedCalls M E s.analyzer s.solver c) := by
        rw [pushedCalls, if_pos hmain]
      refine Worklist.Step.visit (t := traversal M E s.analyzer s.solver) (s := s.work) hpop hc
        hpush ⟨us, hus, ?_⟩
      simp only [Graph.record, if_pos hmain, BuildState.work]
    · rw [if_neg hmain, handleUsers_eq]
      refine ⟨?_, rfl, rfl⟩
      have hpush : (uncaughtCalls E s.analyzer us).reverse.Perm
          (pushedCalls M E s.analyzer s.solver c) := by
        rw [pushedCalls, if_neg hmain]
        exact (List.reverse_perm _).trans (uncaughtCalls_perm E s.analyzer hus)
      refine Worklist.Step.visit (t := traversal M E s.analyzer s.solver) (s := s.work) hpop hc
        hpush ⟨us, hus, ?_⟩
      simp only [Graph.record, if_neg hmain, BuildState.work]

/-! ### What the graph records -/

variable (M A S) in
/-- The graph records the expansion of the call sites `vs`. -/
structure Recorded (vs : List CallBase) (g : Graph) : Prop where
  /-- The keys are the functions of the expanded call sites. -/
  keys : ∀ n, n ∈ g.childsMap ↔ ∃ c ∈ vs, n = .fn c.function
  /-- A function's set is empty until one of its call sites is expanded, and complete from then
  on. -/
  edges : ∀ F n, n ∈ g.childsMap.get (.fn F) ↔ (∃ c ∈ vs, c.function = F) ∧ IsChild M A S F n
  /-- The leafs are the children recorded. -/
  leafs : ∀ n, n ∈ g.leafs ↔ ∃ c ∈ vs, IsChild M A S c.function n
  /-- The exception has leaked when a call site of main is expanded. -/
  leaked : g.leaked = true ↔ ∃ c ∈ vs, c.function.IsMain

variable (M A S) in
theorem recorded_nil : Recorded M A S [] ⟨∅, [], false⟩ where
  keys n := by simp
  edges F n := by simp
  leafs n := by simp
  leaked := by simp

theorem mem_callBases_perm {us : List User} {F : Function}
    (hus : us.Perm (callerUsers M A S F)) {c : CallBase} :
    c ∈ callBases us ↔ c ∈ callersOf M A S F :=
  (hus.filterMap _).mem_iff

/-- The children of a function added by the expansion of one of its call sites. -/
theorem Graph.mem_get_record {g : Graph} {c : CallBase} {us : List User}
    (hus : us.Perm (callerUsers M A S c.function)) (F : Function) (n : Node) :
    n ∈ (g.record c us).childsMap.get (.fn F) ↔
      F = c.function ∧ IsChild M A S c.function n ∨ n ∈ g.childsMap.get (.fn F) := by
  unfold Graph.record IsChild
  by_cases hmain : c.function.IsMain
  · simp [hmain]
  · simp only [hmain, if_false, SetMap.mem_get_foldl_insertAt, SetMap.get_subscript,
      mem_callBases_perm hus, Node.fn.injEq]
    have hassoc : (∃ x, x ∈ callersOf M A S c.function ∧ F = c.function ∧ n = .fn x.function) ↔
        F = c.function ∧ ∃ x ∈ callersOf M A S c.function, n = .fn x.function := by
      constructor
      · rintro ⟨x, hx, hF, hn⟩
        exact ⟨hF, x, hx, hn⟩
      · rintro ⟨hF, x, hx, hn⟩
        exact ⟨x, hx, hF, hn⟩
    rw [hassoc]

/-- **Expanding a call site extends the record by it.** -/
theorem Recorded.record {vs : List CallBase} {g : Graph} (h : Recorded M A S vs g)
    {c : CallBase} {us : List User} (hus : us.Perm (callerUsers M A S c.function)) :
    Recorded M A S (c :: vs) (g.record c us) where
  keys n := by
    have hold := h.keys n
    unfold Graph.record
    by_cases hmain : c.function.IsMain
    · simp [hmain, hold]
    · simp only [hmain, if_false, SetMap.mem_foldl_insertAt, SetMap.mem_subscript, hold,
        List.mem_cons, exists_eq_or_imp]
      -- the edges are inserted at a key that is there
      constructor
      · rintro (⟨x, -, rfl⟩ | hn)
        · exact Or.inl rfl
        · exact hn
      · exact Or.inr
  edges F n := by
    rw [Graph.mem_get_record hus, h.edges]
    simp only [List.mem_cons, exists_eq_or_imp]
    rw [or_and_right]
    refine or_congr_left ⟨?_, ?_⟩
    · rintro ⟨rfl, hn⟩
      exact ⟨rfl, hn⟩
    · rintro ⟨rfl, hn⟩
      exact ⟨rfl, hn⟩
  leafs n := by
    have hold := h.leafs n
    unfold Graph.record
    simp only [List.mem_cons, exists_eq_or_imp]
    by_cases hmain : c.function.IsMain
    · simp only [hmain, if_true, IsChild, List.mem_append, List.mem_singleton, hold]
      exact or_comm
    · simp only [hmain, if_false, IsChild, List.mem_append, List.mem_map, hold,
        mem_callBases_perm hus, eq_comm (b := n)]
      exact or_comm
  leaked := by
    unfold Graph.record
    by_cases hmain : c.function.IsMain
    · simp [hmain]
    · simp [hmain, h.leaked]

/-! ### Whole runs -/

variable (M E A S) in
/-- The graph and the verdict that belong to the call sites the exception reaches. -/
structure Exact (s : BuildState) : Prop where
  /-- The call sites expanded are those reached. -/
  visited : ∀ c, c ∈ s.visited ↔ Reached M E A S c
  /-- No call site is expanded twice. -/
  nodup : s.visited.Nodup
  /-- The exception leaks exactly when it reaches a call site in main. -/
  leaked : s.leaked = true ↔ ∃ c, Reached M E A S c ∧ c.function.IsMain
  /-- The edges between functions. -/
  edge : ∀ F G, Node.fn G ∈ s.childsMap.get (.fn F) ↔
    ¬ F.IsMain ∧ (∃ c, Reached M E A S c ∧ c.function = F) ∧
      ∃ c ∈ callersOf M A S F, c.function = G
  /-- The edges to the leak node. -/
  leakEdge : ∀ F, Node.leak ∈ s.childsMap.get (.fn F) ↔
    F.IsMain ∧ ∃ c, Reached M E A S c ∧ c.function = F
  /-- Main has the edge to the leak node exactly when the exception leaks. -/
  mainLeak : (∃ F : Function, F.IsMain ∧ Node.leak ∈ s.childsMap.get (.fn F)) ↔ s.leaked = true
  /-- The leak node has no children. -/
  leakChilds : s.childsMap.get .leak = []
  /-- The keys are the functions reached and all targets of edges. -/
  key : ∀ n, n ∈ s.childsMap ↔
    (∃ c, Reached M E A S c ∧ n = .fn c.function) ∨ ∃ m, n ∈ s.childsMap.get m

theorem get_foldl_subscript (l : List Node) (m : ChildsMapType) (n : Node) :
    (l.foldl SetMap.subscript m).get n = m.get n :=
  SetMap.get_foldl_subscript (fun k => k) l m n

theorem mem_foldl_subscript (l : List Node) (m : ChildsMapType) (n : Node) :
    n ∈ l.foldl SetMap.subscript m ↔ n ∈ l ∨ n ∈ m :=
  (SetMap.mem_foldl_subscript (fun k => k) l m n).trans (by simp)

/-- **From the record of the reached call sites to the result.** -/
theorem exact_insertLeafs {s : BuildState} (hv : ∀ c, c ∈ s.visited ↔ Reached M E A S c)
    (hnodup : s.visited.Nodup) (hr : Recorded M A S s.visited s.work.acc) :
    Exact M E A S (insertLeafs s) := by
  -- the leafs become keys, but get no children
  have hget : ∀ n, (insertLeafs s).childsMap.get n = s.childsMap.get n :=
    get_foldl_subscript s.leafs s.childsMap
  have hedge : ∀ F n, n ∈ s.childsMap.get (.fn F) ↔
      (∃ c, Reached M E A S c ∧ c.function = F) ∧ IsChild M A S F n := by
    intro F n
    rw [show s.childsMap = s.work.acc.childsMap from rfl, hr.edges]
    simp only [hv]
  -- the leak node is never the source of an edge
  have hleak : s.childsMap.get .leak = [] := by
    refine SetMap.get_eq_nil fun hmem => ?_
    obtain ⟨c, -, hc⟩ := (hr.keys .leak).mp hmem
    exact absurd hc nofun
  have hleaked : (insertLeafs s).leaked = true ↔ ∃ c, Reached M E A S c ∧ c.function.IsMain := by
    rw [show (insertLeafs s).leaked = s.work.acc.leaked from rfl, hr.leaked]
    simp only [hv]
  have hmain : ∀ F, Node.leak ∈ (insertLeafs s).childsMap.get (.fn F) ↔
      F.IsMain ∧ ∃ c, Reached M E A S c ∧ c.function = F := by
    intro F
    rw [hget, hedge, IsChild]
    by_cases hF : F.IsMain <;> simp [hF]
  refine ⟨hv, hnodup, hleaked, ?_, hmain, ?_, ?_, ?_⟩
  · intro F G
    rw [hget, hedge, IsChild]
    by_cases hF : F.IsMain <;> simp [hF, eq_comm (a := G)]
  · rw [hleaked]
    constructor
    · rintro ⟨F, hF, hedge⟩
      obtain ⟨-, c, hc, rfl⟩ := (hmain F).mp hedge
      exact ⟨c, hc, hF⟩
    · rintro ⟨c, hc, hF⟩
      exact ⟨c.function, hF, (hmain _).mpr ⟨hF, c, hc, rfl⟩⟩
  · rw [hget, hleak]
  · intro n
    rw [insertLeafs, mem_foldl_subscript, show s.childsMap = s.work.acc.childsMap from rfl,
      hr.keys, show s.leafs = s.work.acc.leafs from rfl, hr.leafs, or_comm]
    simp only [hv, get_foldl_subscript]
    -- a leaf is the target of an edge, and the other way round
    refine or_congr_right ⟨?_, ?_⟩
    · rintro ⟨c, hc, hn⟩
      exact ⟨.fn c.function, (hr.edges _ _).mpr ⟨⟨c, (hv c).mpr hc, rfl⟩, hn⟩⟩
    · rintro ⟨m, hm⟩
      cases m with
      | leak =>
        rw [show s.work.acc.childsMap = s.childsMap from rfl, hleak] at hm
        exact absurd hm List.not_mem_nil
      | fn F =>
        obtain ⟨⟨c, hc, rfl⟩, hn⟩ := (hr.edges _ _).mp hm
        exact ⟨c, (hv c).mp hc, hn⟩

theorem Exact.source_eq {s : BuildState} (h : Exact M E A S s) {m n : Node}
    (hedge : n ∈ s.childsMap.get m) : ∃ F : Function, m = .fn F := by
  cases m with
  | leak =>
    rw [h.leakChilds] at hedge
    exact absurd hedge List.not_mem_nil
  | fn F => exact ⟨F, rfl⟩

/-! #### The invariant of a run -/

/-- **What every run from the initial state keeps**, in any order. -/
theorem AnyOrder.steps {ChildsMap : ChildsMapType} {s : BuildState}
    (h : Relation.ReflTransGen (AnyOrder M E) (initState E ChildsMap A S) s) :
    Worklist.Steps (traversal M E A S) (Worklist.init E.throwSite ⟨∅, [], false⟩) s.work ∧
      s.analyzer = A ∧ s.solver = S := by
  induction h with
  | refl => exact ⟨.refl, rfl, rfl⟩
  | tail _ hstep ih =>
    obtain ⟨hsteps, hA, hS⟩ := ih
    obtain ⟨hwork, hA', hS'⟩ := hstep.step hA hS
    exact ⟨hsteps.tail hwork, hA', hS'⟩

/-- Every run keeps the record of the call sites visited. -/
theorem recorded_of_steps {s : BuildState}
    (h : Worklist.Steps (traversal M E A S) (Worklist.init E.throwSite ⟨∅, [], false⟩) s.work) :
    Recorded M A S s.visited s.work.acc := by
  refine Worklist.acc_induction (P := fun vs g => Recorded M A S vs g) h
    (recorded_nil M A S) ?_
  rintro vs c g g' hg - ⟨us, hus, rfl⟩
  exact hg.record hus

/-- **Any finished run leaves the graph and the verdict of the reached call sites.** -/
theorem exact_of_anyOrder {ChildsMap : ChildsMapType} {s : BuildState}
    (h : Relation.ReflTransGen (AnyOrder M E) (initState E ChildsMap A S) s)
    (hdone : s.toVisit = []) : Exact M E A S (insertLeafs s) := by
  obtain ⟨hsteps, -, -⟩ := AnyOrder.steps h
  have hinv := hsteps.inv (Worklist.inv_init _ _ _)
  refine exact_insertLeafs (fun c => ?_) hinv.nodup (recorded_of_steps hsteps)
  rw [← reach_traversal]
  exact Worklist.mem_visited_iff hinv hdone

/-! ### The loop ends -/

theorem mem_callUniverse_of_caller {F : Function} {c : CallBase}
    (hc : c ∈ callersOf M A S F) : c ∈ callUniverse M E A S := by
  unfold callersOf callerUsers at hc
  rw [mem_callBases, List.mem_append] at hc
  simp only [callUniverse, List.mem_toFinset, List.mem_cons, List.mem_append, List.cons_append,
    mem_callBases]
  rcases hc with hc | hc
  · exact Or.inr (Or.inl (Or.inl (Module.mem_users.mp hc).1))
  · split at hc
    · exact Or.inr (Or.inl (Or.inr (SetMap.mem_values hc)))
    · exact Or.inr (Or.inr (SetMap.mem_values hc))

theorem callUniverse_closed (c : CallBase) (c' : CallBase)
    (h : c' ∈ (traversal M E A S).next c) : c' ∈ callUniverse M E A S :=
  mem_callUniverse_of_caller ((mem_pushedCalls M E A S).mp h).2.1

theorem initState_subset (ChildsMap : ChildsMapType) :
    ∀ c ∈ (initState E ChildsMap A S).toVisit, c ∈ callUniverse M E A S := by
  intro c hc
  rw [List.mem_singleton.mp hc]
  simp [callUniverse]

/-- **An iteration keeps the worklist inside the universe, and lowers the potential**, in any
order. -/
theorem AnyOrder.potential_lt {s s' : BuildState} (h : AnyOrder M E s s') (hA : s.analyzer = A)
    (hS : s.solver = S) (hu : ∀ c ∈ s.toVisit, c ∈ callUniverse M E A S) :
    (∀ c ∈ s'.toVisit, c ∈ callUniverse M E A S) ∧
      Worklist.potential (traversal M E A S) (callUniverse M E A S) s'.work <
        Worklist.potential (traversal M E A S) (callUniverse M E A S) s.work := by
  obtain ⟨hwork, -, -⟩ := h.step hA hS
  exact ⟨hwork.toVisit_subset (fun c _ => callUniverse_closed c) hu, hwork.potential_lt hu⟩

/-- **The loop of `buildChildsMap` ends**: its bound is the potential of the initial state. -/
theorem buildChildsMap_done (ChildsMap : ChildsMapType) :
    (buildChildsMap M E ChildsMap A S).toVisit = [] := by
  have hstop := whileSome_eq_none (f := iterate M E)
    (fun s => Worklist.potential (traversal M E A S) (callUniverse M E A S) s.work)
    (fun s => (s.analyzer = A ∧ s.solver = S) ∧ ∀ c ∈ s.toVisit, c ∈ callUniverse M E A S)
    (fun s s' hs hstep => ?_) (n := iterationBound M E A S) (s := initState E ChildsMap A S)
    ⟨⟨rfl, rfl⟩, initState_subset ChildsMap⟩ (le_of_eq ?_)
  · unfold iterate at hstop
    split at hstop
    · next h => exact h
    · exact absurd hstop nofun
  · obtain ⟨⟨hA, hS⟩, hu⟩ := hs
    have hany := iterate_anyOrder M E hstep
    obtain ⟨hu', hlt⟩ := hany.potential_lt hA hS hu
    exact ⟨⟨(hany.step hA hS).2, hu'⟩, hlt⟩
  · exact Worklist.potential_init _ _ _ _

theorem buildChildsMap_run (ChildsMap : ChildsMapType) :
    ∃ s, Relation.ReflTransGen (AnyOrder M E) (initState E ChildsMap A S) s ∧
      s.toVisit = [] ∧ buildChildsMap M E ChildsMap A S = insertLeafs s :=
  ⟨whileSome (iterate M E) (iterationBound M E A S) (initState E ChildsMap A S),
    Relation.ReflTransGen.mono (fun _ _ => iterate_anyOrder M E) _ _ (whileSome_steps _ _),
    buildChildsMap_done ChildsMap, rfl⟩

/-- **What `buildChildsMap` returns.** -/
theorem exact_buildChildsMap (ChildsMap : ChildsMapType) :
    Exact M E A S (buildChildsMap M E ChildsMap A S) := by
  obtain ⟨s, hrun, hdone, heq⟩ := buildChildsMap_run (M := M) (E := E) (A := A) (S := S) ChildsMap
  rw [heq]
  exact exact_of_anyOrder hrun hdone

/-- **Worklist exactness.**  The loop of `buildChildsMap` ends, with the graph and the verdict of
the call sites the exception reaches, and so does every finished run of it that pops the worklist
and enumerates the users of a function in another order. -/
theorem buildChildsMap_exactness (M : Module) (E : CurrentException) (ChildsMap : ChildsMapType)
    (A : VCallCandidatesAnalyzer) (S : ICallSolver) :
    (buildChildsMap M E ChildsMap A S).toVisit = [] ∧
      Exact M E A S (buildChildsMap M E ChildsMap A S) ∧
      ∀ s, Relation.ReflTransGen (AnyOrder M E) (initState E ChildsMap A S) s →
        s.toVisit = [] → Exact M E A S (insertLeafs s) := by
  refine ⟨buildChildsMap_done ChildsMap, exact_buildChildsMap ChildsMap, ?_⟩
  intro s hrun hdone
  exact exact_of_anyOrder hrun hdone

end

end Ehgp
