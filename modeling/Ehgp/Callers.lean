import Ehgp.Propagation
import Ehgp.VirtualCallers

/-!
# Which callers the graph has

The callers of a function are read off its use list and off the two resolvers.
The graph keeps every caller found there, at every level of the propagation: the
call sites a `!callees` node names, the virtual calls where no such node names
the function, and the calls whose callee is the function itself.  It has no
others: a virtual call of a function some `!callees` node lists is not asked
for, and an alias is not looked through.

## Main definitions

* `KeepsCallers` — the graph keeps the callers of a kind.
* `CallChain` — a chain of calls from the throw site.

## Main results

* `keepsCallers_of_callersOf` — known callers are kept.
* `CallChain.reached` — a chain of known callers is followed up to main.
* `recordedCallers_kept` — **the callers the resolvers have recorded.**
* `directCallers_kept` — **the calls of the function itself.**
-/

namespace Ehgp

/-! ### Callers that are kept -/

/-- The callers of a kind are kept: `Calls CB F` says that `CB` is a caller of `F`. -/
structure KeepsCallers (E : CurrentException) (A : VCallCandidatesAnalyzer)
    (Calls : CallBase → Function → Prop) (r : BuildState) : Prop where
  /-- The function of a caller is a child of an expanded function. -/
  child : ∀ c ∈ r.visited, ¬ c.function.IsMain → ∀ CB, Calls CB c.function →
    .fn CB.function ∈ r.childsMap.get (.fn c.function)
  /-- A caller of an expanded function that cannot catch the exception is expanded. -/
  expanded : ∀ c ∈ r.visited, ¬ c.function.IsMain → ∀ CB, Calls CB c.function →
    (canBeCaught CB E A).1 = false → CB ∈ r.visited
  /-- If it lies in main, the exception leaks. -/
  leaked : ∀ c ∈ r.visited, ¬ c.function.IsMain → ∀ CB, Calls CB c.function →
    (canBeCaught CB E A).1 = false → CB.function.IsMain → r.leaked = true

section

variable {M : Module} {E : CurrentException} {A : VCallCandidatesAnalyzer} {S : ICallSolver}

/-- **Known callers are kept.** -/
theorem keepsCallers_of_callersOf {Calls : CallBase → Function → Prop}
    (hcalls : ∀ CB F, Calls CB F → CB ∈ callersOf M A S F) (ChildsMap : ChildsMapType) :
    KeepsCallers E A Calls (buildChildsMap M E ChildsMap A S) := by
  have hexact := exact_buildChildsMap (M := M) (E := E) (A := A) (S := S) ChildsMap
  have hnext : ∀ c ∈ (buildChildsMap M E ChildsMap A S).visited, ¬ c.function.IsMain →
      ∀ CB, Calls CB c.function → (canBeCaught CB E A).1 = false → Reached M E A S CB := by
    intro c hc hmain CB hCB hcatch
    exact ((hexact.visited c).mp hc).tail ⟨hmain, hcalls CB c.function hCB, hcatch⟩
  constructor
  · intro c hc hmain CB hCB
    have hreach := (hexact.visited c).mp hc
    exact (hexact.edge _ _).mpr ⟨hmain, ⟨c, hreach, rfl⟩, CB, hcalls CB c.function hCB, rfl⟩
  · intro c hc hmain CB hCB hcatch
    exact (hexact.visited CB).mpr (hnext c hc hmain CB hCB hcatch)
  · intro c hc hmain CB hCB hcatch hCBmain
    exact hexact.leaked.mpr ⟨CB, hnext c hc hmain CB hCB hcatch, hCBmain⟩

/-! ### Chains of calls -/

/-- A chain of calls from the throw site `T`: each call site after it calls the function of the
one before, and lets the exception pass. -/
inductive CallChain (T : CallBase) (Calls : CallBase → Function → Prop)
    (Passes : CallBase → Prop) : CallBase → Prop
  | throwSite : CallChain T Calls Passes T
  | caller {c c' : CallBase} (h : CallChain T Calls Passes c) (hcalls : Calls c' c.function)
      (hpasses : Passes c') : CallChain T Calls Passes c'

/-- **A chain of known callers is followed**, at least up to its first call site in main. -/
theorem CallChain.reached {Calls : CallBase → Function → Prop} {Passes : CallBase → Prop}
    (hcalls : ∀ CB F, Calls CB F → CB ∈ callersOf M A S F)
    (hpasses : ∀ CB, Passes CB → (canBeCaught CB E A).1 = false) {c : CallBase}
    (h : CallChain E.throwSite Calls Passes c) :
    Reached M E A S c ∨ ∃ c', Reached M E A S c' ∧ c'.function.IsMain := by
  induction h with
  | throwSite => exact Or.inl .refl
  | @caller c c' _ hcall hpass ih =>
    rcases ih with hreach | hmain
    · by_cases hcmain : c.function.IsMain
      · exact Or.inr ⟨c, hreach, hcmain⟩
      · exact Or.inl (hreach.tail ⟨hcmain, hcalls c' c.function hcall, hpasses c' hpass⟩)
    · exact Or.inr hmain

theorem CallChain.leaked {Calls : CallBase → Function → Prop} {Passes : CallBase → Prop}
    (hcalls : ∀ CB F, Calls CB F → CB ∈ callersOf M A S F)
    (hpasses : ∀ CB, Passes CB → (canBeCaught CB E A).1 = false) {c : CallBase}
    (h : CallChain E.throwSite Calls Passes c) (hmain : c.function.IsMain)
    (ChildsMap : ChildsMapType) : (buildChildsMap M E ChildsMap A S).leaked = true := by
  apply (exact_buildChildsMap ChildsMap).leaked.mpr
  rcases h.reached hcalls hpasses with hreach | hleak
  · exact ⟨c, hreach, hmain⟩
  · exact hleak

end

/-! ### The callers the resolvers have recorded -/

/-- Recorded by either resolver. -/
def RecordedFor (M : Module) (A : VCallCandidatesAnalyzer) (CB : CallBase) (F : Function) :
    Prop :=
  CB ∈ M.callSites ∧ CB.Lists F ∨ .callBase CB ∈ A.callerMap.get F

/-- Recorded by the resolver that is asked: the virtual calls of a function count where no
`!callees` node lists it. -/
def AnsweredFor (M : Module) (A : VCallCandidatesAnalyzer) (CB : CallBase) (F : Function) :
    Prop :=
  CB ∈ M.callSites ∧ CB.Lists F ∨
    .callBase CB ∈ A.callerMap.get F ∧ ¬ ∃ c ∈ M.callSites, c.Lists F

/-- The callers known of a function after a run of `solve`. -/
theorem mem_callersOf_solve {M : Module} {A : VCallCandidatesAnalyzer} {CB : CallBase}
    {F : Function} :
    CB ∈ callersOf M A (ICallSolver.solve M .fresh) F ↔
      CB ∈ M.callSites ∧ .function F ∈ CB.operands ∨ AnsweredFor M A CB F := by
  unfold callersOf callerUsers AnsweredFor
  rw [mem_callBases, List.mem_append, Module.mem_users]
  apply or_congr_right
  by_cases hlist : ∃ c ∈ M.callSites, c.Lists F
  · rw [if_pos ((ICallSolver.mem_callSitesMap_solve M F).mpr hlist), ICallSolver.mem_solve]
    simp [ICallSolver.fresh, hlist]
  · rw [if_neg (hlist ∘ (ICallSolver.mem_callSitesMap_solve M F).mp)]
    have hnone : ¬ (CB ∈ M.callSites ∧ CB.Lists F) := fun h => hlist ⟨CB, h⟩
    simp [hlist, hnone]

/-- **No caller a resolver answers with is lost.** -/
theorem recordedCallers_kept (M : Module) (E : CurrentException) (ChildsMap : ChildsMapType)
    (A : VCallCandidatesAnalyzer) :
    KeepsCallers E A (AnsweredFor M A)
      (buildChildsMap M E ChildsMap A (ICallSolver.solve M .fresh)) := by
  apply keepsCallers_of_callersOf
  intro CB F h
  exact mem_callersOf_solve.mpr (Or.inr h)

/-- The exception `B::f` throws. -/
def Sample.exceptionA : CurrentException :=
  ⟨some (.globalVariable Sample.typeInfoA), Sample.throwSite⟩

/-- The call in `g` whose `!callees` node lists `B::f` hides the virtual call of `B::f` in
`main`. -/
theorem listed_call_hides_virtual_call :
    ¬ ∀ A, VCallCandidatesAnalyzer.analyze .documented Sample.virtualModule .fresh = .ok A →
      KeepsCallers Sample.exceptionA A (RecordedFor Sample.virtualModule A)
        (buildChildsMap Sample.virtualModule Sample.exceptionA ∅ A
          (ICallSolver.solve Sample.virtualModule .fresh)) := by
  intro h
  have hrun : VCallCandidatesAnalyzer.analyze .documented Sample.virtualModule .fresh = .ok
      ⟨SetMap.insertAt ∅ none none, SetMap.insertAt ∅ Sample.f (.callBase Sample.virtualCall),
        SetMap.insertAt ∅ "_ZTS1B".toList (Sample.vtableB true, 16)⟩ := by
    rfl
  have hkept := h _ hrun
  have hleak := hkept.leaked Sample.throwSite (by decide) (by decide) Sample.virtualCall
    (Or.inr (by decide)) (by decide) (by decide)
  exact absurd hleak (by decide)

/-! ### The calls of the function itself -/

/-- What a callee is when every chain of aliases and pointer casts is stripped. -/
inductive ResolvesTo (M : Module) : Value → Function → Prop
  | function (F : Function) : ResolvesTo M (.function F) F
  | alias {GA : GlobalAlias} {F : Function} (h : ResolvesTo M (M.aliasee GA) F) :
      ResolvesTo M (.globalAlias GA) F
  | cast {id : ℕ} {ptr : Value} {F : Function} (h : ResolvesTo M ptr F) :
      ResolvesTo M (.cast id ptr) F

/-- The callers of a kind are kept, and the exception leaks where a chain of them, none of which
can catch it, ends in main. -/
structure KeepsCallChains (E : CurrentException) (A : VCallCandidatesAnalyzer)
    (Calls : CallBase → Function → Prop) (r : BuildState) : Prop
    extends KeepsCallers E A Calls r where
  chain : ∀ c, CallChain E.throwSite Calls (fun CB => (canBeCaught CB E A).1 = false) c →
    c.function.IsMain → r.leaked = true

/-- A call of the module whose callee is the function, or an alias or a cast of it. -/
def CallsResolved (M : Module) (CB : CallBase) (F : Function) : Prop :=
  CB ∈ M.callSites ∧ ResolvesTo M CB.calledOperand F

/-- A call of the module whose callee is the function itself. -/
def CallsDirectly (M : Module) (CB : CallBase) (F : Function) : Prop :=
  CB ∈ M.callSites ∧ CB.calledOperand = .function F

theorem CallsDirectly.mem_callersOf {M : Module} {A : VCallCandidatesAnalyzer} {S : ICallSolver}
    {CB : CallBase} {F : Function} (h : CallsDirectly M CB F) : CB ∈ callersOf M A S F := by
  obtain ⟨hmem, hcallee⟩ := h
  unfold callersOf callerUsers
  rw [mem_callBases, List.mem_append]
  apply Or.inl
  exact Module.mem_users.mpr ⟨hmem, hcallee ▸ CB.calledOperand_mem⟩

/-- **No call of the function itself is lost**, at any level of the propagation. -/
theorem directCallers_kept (M : Module) (E : CurrentException) (ChildsMap : ChildsMapType)
    (A : VCallCandidatesAnalyzer) (S : ICallSolver) :
    KeepsCallChains E A (CallsDirectly M) (buildChildsMap M E ChildsMap A S) where
  toKeepsCallers := keepsCallers_of_callersOf (fun _ _ h => h.mem_callersOf) ChildsMap
  chain _ hchain hmain :=
    hchain.leaked (fun _ _ h => h.mem_callersOf) (fun _ h => h) hmain ChildsMap

/-! #### A constructor called through its alias -/

namespace Alias

/-- The base-object constructor, which throws. -/
def baseConstructor : Function := .ofName 0 "_ZN1AC2Ev"

/-- The complete-object constructor is an alias of it. -/
def completeConstructor : GlobalAlias := ⟨1, "_ZN1AC1Ev"⟩

/-- The caller of the constructor. -/
def main : Function := .ofName 2 "main"

/-- The runtime function that throws. -/
def cxaThrow : Function := .ofName 3 "__cxa_throw"

/-- The throw in the constructor. -/
def throwSite : CallBase :=
  .ofCallee 10 baseConstructor ⟨0, none⟩ (.function cxaThrow)
    [.other 0, .globalVariable Sample.typeInfoA, .null]

/-- The call in `main`, through the alias. -/
def constructorCall : CallBase :=
  .ofCallee 11 main ⟨2, none⟩ (.globalAlias completeConstructor) [.other 2]

/-- The aliasee is the base-object constructor. -/
def aliasModule : Module := .ofData
  { ModuleData.ofCalls [baseConstructor, main, cxaThrow] [Sample.typeInfoA]
      [throwSite, constructorCall] with
    aliasee := fun GA =>
      if GA = completeConstructor then .function baseConstructor else .null }
  (by decide)

/-- The exception the constructor throws. -/
def exceptionA : CurrentException := ⟨some (.globalVariable Sample.typeInfoA), throwSite⟩

end Alias

/-- A call through an alias of the constructor is no caller. -/
theorem alias_call_lost :
    ¬ KeepsCallChains Alias.exceptionA .fresh (CallsResolved Alias.aliasModule)
      (buildChildsMap Alias.aliasModule Alias.exceptionA ∅ .fresh .fresh) := by
  intro h
  have hcall : CallsResolved Alias.aliasModule Alias.constructorCall Alias.baseConstructor :=
    ⟨by decide, .alias (.function _)⟩
  have hleak := h.chain Alias.constructorCall (.caller .throwSite hcall rfl) rfl
  exact absurd hleak (by decide)

end Ehgp
