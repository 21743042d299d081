import Ehgp.IR
import Ehgp.SetMap

/-!
# The callers named by `!callees`

`ICallSolver::solve` records, for every function a `!callees` node lists, the
calls that carry the node.

## Main results

* `ICallSolver.getCallSites_state` — a query leaves the solver as it is.
* `ICallSolver.mem_solve` — what a run of `solve` records.
-/

namespace Ehgp

/-- `ICallSolver`, without the module it refers to. -/
structure ICallSolver where
  /-- The calls recorded for a function. -/
  callSitesMap : SetMap Function User

namespace ICallSolver

/-- A solver that has not run. -/
def fresh : ICallSolver := ⟨∅⟩

/-- `getCallSites(F, Users)`: the answer and the users, and the solver afterwards. -/
def getCallSites (S : ICallSolver) (F : Function) (Users : List User) :
    (Bool × List User) × ICallSolver :=
  if F ∈ S.callSitesMap then
    ((true, Users ++ S.callSitesMap.get F), { S with callSitesMap := S.callSitesMap.subscript F })
  else ((false, Users), S)

/-- The body of the loops of `solve`, at a call. -/
def solveCall (S : ICallSolver) (CB : CallBase) : ICallSolver :=
  match CB.callees with
  | none => S
  | some MD => MD.foldl (fun S Op =>
      match Op.bind Value.asFunction with
      | some Callee => { S with callSitesMap := S.callSitesMap.insertAt Callee (.callBase CB) }
      | none => S) S

/-- `solve()`. -/
def solve (M : Module) (S : ICallSolver) : ICallSolver := M.callSites.foldl solveCall S

/-- **A query leaves the solver as it is**: the subscript reads an entry that is there. -/
@[simp] theorem getCallSites_state (S : ICallSolver) (F : Function) (Users : List User) :
    (S.getCallSites F Users).2 = S := by
  unfold getCallSites
  split
  · next h => rw [SetMap.subscript_of_mem h]
  · rfl

theorem getCallSites_result (S : ICallSolver) (F : Function) (Users : List User) :
    (S.getCallSites F Users).1 =
      (decide (F ∈ S.callSitesMap), Users ++ S.callSitesMap.get F) := by
  unfold getCallSites
  split
  · next h => simp [h]
  · next h => simp [h, SetMap.get_eq_nil h]

end ICallSolver

/-- The `!callees` node of a call lists a function. -/
def CallBase.Lists (CB : CallBase) (F : Function) : Prop :=
  ∃ MD, CB.callees = some MD ∧ some (.function F) ∈ MD

theorem Value.asFunction_eq_some {V : Value} {F : Function} :
    V.asFunction = some F ↔ V = .function F := by
  cases V <;> simp [Value.asFunction]

namespace ICallSolver

theorem mem_solveCall (S : ICallSolver) (CB : CallBase) (F : Function) (U : User) :
    U ∈ (S.solveCall CB).callSitesMap.get F ↔
      CB.Lists F ∧ U = .callBase CB ∨ U ∈ S.callSitesMap.get F := by
  unfold solveCall CallBase.Lists
  split
  · next h => simp [h]
  · next MD h =>
    simp only [h, Option.some.injEq, exists_eq_left']
    -- one operand of the node after the other, with any record so far
    clear h
    induction MD generalizing S with
    | nil => simp
    | cons Op MD ih =>
      rw [List.foldl_cons, ih, List.mem_cons]
      cases hOp : Op.bind Value.asFunction with
      | none =>
        -- an operand that is no function, or null, is skipped
        have hne : some (Value.function F) ≠ Op := by
          rintro rfl
          simp [Value.asFunction] at hOp
        simp [hne]
      | some G =>
        obtain ⟨V, rfl, hV⟩ := Option.bind_eq_some_iff.mp hOp
        rw [Value.asFunction_eq_some.mp hV]
        simp only [SetMap.mem_get_insertAt, Option.some.injEq, Value.function.injEq]
        tauto

/-- The keys of the record are the functions with a call recorded. -/
theorem mem_callSitesMap_solveCall {S : ICallSolver} (CB : CallBase) {F : Function}
    (h : F ∈ (S.solveCall CB).callSitesMap) : CB.Lists F ∨ F ∈ S.callSitesMap := by
  unfold solveCall CallBase.Lists at *
  split at h
  · exact Or.inr h
  · next MD hMD =>
    simp only [hMD, Option.some.injEq, exists_eq_left']
    clear hMD
    induction MD generalizing S with
    | nil => exact Or.inr h
    | cons Op MD ih =>
      rw [List.foldl_cons] at h
      rw [List.mem_cons]
      rcases ih h with hF | hF
      · exact Or.inl (Or.inr hF)
      · clear h ih
        cases hOp : Op.bind Value.asFunction with
        | none =>
          rw [hOp] at hF
          exact Or.inr hF
        | some G =>
          rw [hOp] at hF
          obtain ⟨V, rfl, hV⟩ := Option.bind_eq_some_iff.mp hOp
          rw [Value.asFunction_eq_some.mp hV]
          rcases SetMap.mem_insertAt.mp hF with rfl | hF
          · exact Or.inl (Or.inl rfl)
          · exact Or.inr hF

/-- **What a run of `solve` records.** -/
theorem mem_solve (M : Module) (S : ICallSolver) (F : Function) (U : User) :
    U ∈ (solve M S).callSitesMap.get F ↔
      (∃ CB ∈ M.callSites, CB.Lists F ∧ U = .callBase CB) ∨ U ∈ S.callSitesMap.get F := by
  unfold solve
  generalize M.callSites = l
  induction l generalizing S with
  | nil => simp
  | cons CB l ih =>
    rw [List.foldl_cons, ih, mem_solveCall]
    simp only [List.mem_cons, exists_eq_or_imp, or_assoc, or_left_comm]

theorem mem_callSitesMap_solve (M : Module) (F : Function) :
    F ∈ (solve M fresh).callSitesMap ↔ ∃ CB ∈ M.callSites, CB.Lists F := by
  constructor
  · suffices hkeys : ∀ (l : List CallBase) (S : ICallSolver),
        F ∈ (l.foldl solveCall S).callSitesMap →
          (∃ CB ∈ l, CB.Lists F) ∨ F ∈ S.callSitesMap by
      intro h
      rcases hkeys M.callSites fresh h with h | h
      · exact h
      · exact absurd h (AList.notMem_empty F)
    intro l
    induction l with
    | nil => exact fun S h => Or.inr h
    | cons CB l ih =>
      intro S h
      -- the key came with a later call, with this one, or was there before
      rcases ih (S.solveCall CB) h with ⟨c, hc, hF⟩ | h
      · exact Or.inl ⟨c, List.mem_cons_of_mem _ hc, hF⟩
      · rcases mem_callSitesMap_solveCall CB h with hF | h
        · exact Or.inl ⟨CB, List.mem_cons_self, hF⟩
        · exact Or.inr h
  · intro h
    obtain ⟨CB, hCB, hF⟩ := h
    exact SetMap.mem_of_mem_get ((mem_solve M fresh F _).mpr (Or.inl ⟨CB, hCB, hF, rfl⟩))

end ICallSolver

end Ehgp
