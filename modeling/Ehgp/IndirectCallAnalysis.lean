import Ehgp.IR
import Ehgp.SetMap

/-!
# The callers of virtual functions

`VCallCandidatesAnalyzer::analyze` makes two passes.  The first collects, from
the `!type` nodes of the vtables, the address points each type id is compatible
with and the subclass relation; the second looks at every call of the module and
records it as a caller of each function its slot may hold.

Preconditions of LLVM routines that the code does not check are kept: a broken
one ends the run with an `Abort`.

## Main definitions

* `collectGlobal` — the first pass, at a global variable.
* `getVCallCandidates` — the functions a call's slot may hold.
* `analyze` — both passes.
* `derivedFrom`, `getCallerCandidates` — the queries.

## Main results

* `derivedFrom_state`, `getCallerCandidates_state` — the queries leave the
  analyzer as it is.
-/

namespace Ehgp

/-- `AddressPoint`: a vtable and an offset into it. -/
abbrev AddressPoint := GlobalVariable × BitVec 64

/-- `VCallCandidatesAnalyzer`, without the module it refers to. -/
structure VCallCandidatesAnalyzer where
  /-- The type infos derived from a type info; a missing global is a null key or element. -/
  subclassesMap : SetMap (Option Value) (Option Value)
  /-- The virtual calls recorded for a function. -/
  callerMap : SetMap Function User
  /-- The address points compatible with a type id. -/
  typeIdCompatibleMap : SetMap StringRef AddressPoint

namespace VCallCandidatesAnalyzer

/-- An analyzer that has not run. -/
def fresh : VCallCandidatesAnalyzer := ⟨∅, ∅, ∅⟩

/-! ### The queries -/

/-- `derivedFrom(Base, Derived)`: the answer, and the analyzer afterwards. -/
def derivedFrom (A : VCallCandidatesAnalyzer) (Base Derived : Value) :
    Bool × VCallCandidatesAnalyzer :=
  if some Base ∈ A.subclassesMap then
    (decide (some Derived ∈ A.subclassesMap.get (some Base)),
      { A with subclassesMap := A.subclassesMap.subscript (some Base) })
  else (false, A)

/-- `getCallerCandidates(VF, Callers)`: the answer and the callers, and the analyzer
afterwards. -/
def getCallerCandidates (A : VCallCandidatesAnalyzer) (VF : Function) (Callers : List User) :
    (Bool × List User) × VCallCandidatesAnalyzer :=
  if VF ∈ A.callerMap then
    ((true, Callers ++ A.callerMap.get VF), { A with callerMap := A.callerMap.subscript VF })
  else ((false, Callers), A)

/-- **The query leaves the analyzer as it is**: the subscript reads an entry that is there. -/
@[simp] theorem derivedFrom_state (A : VCallCandidatesAnalyzer) (Base Derived : Value) :
    (A.derivedFrom Base Derived).2 = A := by
  unfold derivedFrom
  split
  · next h => rw [SetMap.subscript_of_mem h]
  · rfl

theorem derivedFrom_result (A : VCallCandidatesAnalyzer) (Base Derived : Value) :
    (A.derivedFrom Base Derived).1 =
      decide (some Derived ∈ A.subclassesMap.get (some Base)) := by
  unfold derivedFrom
  split
  · rfl
  · next h => simp [SetMap.get_eq_nil h]

/-- **The query leaves the analyzer as it is.** -/
@[simp] theorem getCallerCandidates_state (A : VCallCandidatesAnalyzer) (VF : Function)
    (Callers : List User) : (A.getCallerCandidates VF Callers).2 = A := by
  unfold getCallerCandidates
  split
  · next h => rw [SetMap.subscript_of_mem h]
  · rfl

theorem getCallerCandidates_result (A : VCallCandidatesAnalyzer) (VF : Function)
    (Callers : List User) :
    (A.getCallerCandidates VF Callers).1 =
      (decide (VF ∈ A.callerMap), Callers ++ A.callerMap.get VF) := by
  unfold getCallerCandidates
  split
  · next h => simp [h]
  · next h => simp [h, SetMap.get_eq_nil h]

/-! ### Collecting the address points -/

/-- `insertAddressPoint(TypeId, VTable, Offset)`. -/
def insertAddressPoint (A : VCallCandidatesAnalyzer) (TypeId : StringRef)
    (VTable : GlobalVariable) (Offset : BitVec 64) : VCallCandidatesAnalyzer :=
  { A with typeIdCompatibleMap := A.typeIdCompatibleMap.insertAt TypeId (VTable, Offset) }

/-- A global variable as a value, null when there is none. -/
def asValue (GV : Option GlobalVariable) : Option Value := GV.map .globalVariable

/-- The body of the loop over the `!type` nodes of a vtable. -/
def collectType (M : Module) (GV : GlobalVariable) (TypeInfo : Option GlobalVariable)
    (A : VCallCandidatesAnalyzer) (Node : TypeNode) : Except Abort VCallCandidatesAnalyzer :=
  match Node.typeID with
  | .string TypeIdStr =>
    if TypeIdStr.endsWith ".virtual" then .ok A
    else
      -- the address point is in before the id is found to be none of `_ZTS`
      let A := A.insertAddressPoint TypeIdStr GV Node.offset
      match TypeIdStr.consumeFront "_ZTS" with
      | none => .error .unreachableTypeId
      | some TypeIdStr =>
        let Base := M.getNamedGlobal ("_ZTI".toList ++ TypeIdStr)
        .ok { A with subclassesMap := A.subclassesMap.insertAt (asValue Base) (asValue TypeInfo) }
  | .other _ => .ok A

/-- `if (auto Index = GVName.find('.')) GVName = GVName.substr(0, Index)`: a dot in front cuts
nothing, and `npos` keeps the whole name. -/
def cutAtDot (GVName : StringRef) : StringRef :=
  match GVName.find '.' with
  | some 0 => GVName
  | some Index => GVName.take Index
  | none => GVName

/-- The body of the loop over the global variables. -/
def collectGlobal (M : Module) (A : VCallCandidatesAnalyzer) (GV : GlobalVariable) :
    Except Abort VCallCandidatesAnalyzer :=
  if GV.vcallVisibility = .visibilityPublic then .ok A
  else
    match GV.name.consumeFront "_ZTV" with
    | none => .ok A
    | some GVName =>
      let TypeInfo := M.getNamedGlobal ("_ZTI".toList ++ cutAtDot GVName)
      GV.types.foldlM (collectType M GV TypeInfo) A

/-! ### The candidates of a call -/

/-- The loop over the users of a vptr: the string id of the first `llvm.type.test`, empty when
that has another id or when there is none. -/
def findTypeId : List User → StringRef
  | [] => []
  | .callBase TypeTest :: rest =>
    if TypeTest.isTypeTest then
      match TypeTest.getArgOperand 1 with
      | some (.metadataAsValue (.string s)) => s
      -- `break` without an id
      | some (.metadataAsValue (.other _)) => []
      | _ => findTypeId rest
    else findTypeId rest
  | .other _ :: rest => findTypeId rest

/-- The body of the loop over the address points: the function in the slot, if it is defined
and not the pure virtual one, is a candidate. -/
def slotCandidate (L : LLVM) (M : Module) (Offset : BitVec 64) (Candidates : List Function)
    (AP : AddressPoint) : Except Abort (List Function) :=
  match L.constantFoldLoadFromConstPtr M AP.1 (Offset + AP.2) with
  | none => .error .dynCastNull
  | some (.function F) =>
    if M.isDeclaration F then .ok Candidates
    else if F.name ≠ "__cxa_pure_virtual".toList then .ok (Candidates ++ [F])
    else .ok Candidates
  | some _ => .ok Candidates

/-- `getVCallCandidates(CB, Candidates)`: the answer and the candidates, and the analyzer
afterwards. -/
def getVCallCandidates (L : LLVM) (M : Module) (A : VCallCandidatesAnalyzer) (CB : CallBase)
    (Candidates : List Function) :
    Except Abort ((Bool × List Function) × VCallCandidatesAnalyzer) :=
  if A.typeIdCompatibleMap.size = 0 then .ok ((false, Candidates), A)
  else
    match CB.calledOperand with
    | .load _ ptr =>
      -- `Offset` is an `APInt` of 64 bits
      if M.indexTypeSizeInBits ptr ≠ 64 then .error .offsetWidth
      else
        let stripped := L.stripAndAccumulateInBoundsConstantOffsets M ptr
        let TypeId := findTypeId (M.users stripped.1)
        -- an id without address points gets an empty entry
        let A := { A with typeIdCompatibleMap := A.typeIdCompatibleMap.subscript TypeId }
        match (A.typeIdCompatibleMap.get TypeId).foldlM (slotCandidate L M stripped.2)
            Candidates with
        | .error e => .error e
        | .ok Candidates => .ok ((!Candidates.isEmpty, Candidates), A)
    | _ => .ok ((false, Candidates), A)

/-- The body of the loops over functions, blocks and instructions, at a call. -/
def scanCall (L : LLVM) (M : Module) (A : VCallCandidatesAnalyzer) (CB : CallBase) :
    Except Abort VCallCandidatesAnalyzer :=
  match getVCallCandidates L M A CB [] with
  | .error e => .error e
  | .ok ((true, Candidates), A) =>
    .ok (Candidates.foldl (fun A Candidate =>
      { A with callerMap := A.callerMap.insertAt Candidate (.callBase CB) }) A)
  | .ok ((false, _), A) => .ok A

/-- `analyze()`, as built without assertions.  The loop under `#ifndef NDEBUG` is left out: it only
prints, but to do so it dereferences every caller recorded, those of a run on an earlier state of
the module included. -/
def analyze (L : LLVM) (M : Module) (A : VCallCandidatesAnalyzer) :
    Except Abort VCallCandidatesAnalyzer := do
  let A := { A with typeIdCompatibleMap := A.typeIdCompatibleMap.clear }
  let A ← M.globals.foldlM (collectGlobal M) A
  M.callSites.foldlM (scanCall L M) A

end VCallCandidatesAnalyzer

end Ehgp
