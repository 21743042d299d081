import Mathlib.Data.Int.Notation
import Mathlib.Data.List.Perm.Basic
import Mathlib.Data.List.Nodup
import Mathlib.Logic.Relation
import Mathlib.Tactic.Common

/-!
# The LLVM module the tool reads

As much of LLVM IR as the analyses look at.  A pointer to an IR object is a
record of the object's own properties, with an `id` standing for its address;
what an object owns — a function's blocks, a block's instructions, a variable's
initializer — is looked up in the module.

Use lists are part of the module: their order has no meaning in IR and is left
open, but the calls in the use list of a value are the calls that have it among
their operands, once for each operand.

## Main definitions

* `Function`, `GlobalVariable`, `Value`, `CallBase`, `User` — the IR objects.
* `ModuleData.callSites` — the calls of a module, in the order they are scanned.
* `Module` — a verified module: the data, its use lists, and the facts about
  them the verifier and the use lists guarantee.
* `LLVM` — the LLVM routines the analyses call, as parameters.
-/

namespace List

/-- A duplicate-free list whose elements are repeated has each as often as it is repeated. -/
theorem count_flatMap_replicate {α : Type*} [DecidableEq α] (n : α → ℕ) {l : List α} {a : α}
    (hl : l.Nodup) (ha : a ∈ l) :
    (l.flatMap fun b => List.replicate (n b) b).count a = n a := by
  induction l with
  | nil => exact absurd ha List.not_mem_nil
  | cons b l ih =>
    obtain ⟨hb, hl⟩ := List.nodup_cons.mp hl
    rw [List.flatMap_cons, List.count_append, List.count_replicate]
    rcases List.mem_cons.mp ha with rfl | ha
    · -- the element is not repeated further on
      have hnone : (l.flatMap fun b => List.replicate (n b) b).count a = 0 := by
        rw [List.count_eq_zero]
        simp only [List.mem_flatMap, List.mem_replicate, not_exists, not_and]
        rintro b hbl - rfl
        exact hb hbl
      simp [hnone]
    · have hne : b ≠ a := fun h => hb (h ▸ ha)
      simp [hne, ih hl ha]

end List

namespace Ehgp

/-! ### Names -/

/-- `llvm::StringRef`, as its characters. -/
abbrev StringRef := List Char

instance : Coe String StringRef := ⟨String.toList⟩

namespace StringRef

/-- `s.starts_with(p)`. -/
def startsWith (s p : StringRef) : Bool := p.isPrefixOf s

/-- `s.ends_with(p)`. -/
def endsWith (s p : StringRef) : Bool := p.isSuffixOf s

/-- `s.consume_front(p)`: what is left of `s`, or `none` when it has another front. -/
def consumeFront (s p : StringRef) : Option StringRef := p.isPrefixOf? s

/-- `s.find(c)`, with `none` for `npos`. -/
def find (s : StringRef) (c : Char) : Option ℕ := s.findIdx? (· == c)

theorem endsWith_iff {s p : StringRef} : s.endsWith p = true ↔ p <:+ s :=
  List.isSuffixOf_iff_suffix

theorem consumeFront_isSome {s p : StringRef} : (s.consumeFront p).isSome = true ↔ p <+: s := by
  rw [consumeFront, List.isSome_isPrefixOf?_eq_isPrefixOf, List.isPrefixOf_iff_prefix]

end StringRef

/-! ### Globals -/

/-- `GlobalValue::LinkageTypes`. -/
inductive Linkage where
  | external | availableExternally | linkOnceAny | linkOnceODR | weakAny | weakODR
  | appending | internal | priv | externalWeak | common
  deriving DecidableEq, Repr

/-- `GlobalValue::isInterposableLinkage`: the linker may put another definition in place. -/
def Linkage.isInterposable : Linkage → Bool
  | .weakAny | .linkOnceAny | .common | .externalWeak => true
  | _ => false

/-- `GlobalObject::VCallVisibility`. -/
inductive VCallVisibility where
  | visibilityPublic | visibilityLinkageUnit | visibilityTranslationUnit
  deriving DecidableEq, Repr

/-- The intrinsics the analyses tell apart. -/
inductive IntrinsicID where
  | notIntrinsic | typeTest | otherIntrinsic
  deriving DecidableEq, Repr

/-- A function type; types are uniqued, so an identity is all there is to compare. -/
abbrev FunctionType := ℕ

/-- `Function *`; the name of an unnamed function is empty. -/
structure Function where
  id : ℕ
  name : StringRef
  valueType : FunctionType
  /-- `hasFnAttribute(Attribute::NoUnwind)`. -/
  noUnwind : Bool
  intrinsicID : IntrinsicID
  deriving DecidableEq, Repr

/-- `Metadata *`: a string, or anything else. -/
inductive Metadata where
  /-- An `MDString`. -/
  | string (s : StringRef)
  /-- A node, a constant or a distinct type id. -/
  | other (id : ℕ)
  deriving DecidableEq, Repr

/-- A `!type` node: the address point and the type id. -/
structure TypeNode where
  /-- Operand 0, the zero-extended constant. -/
  offset : BitVec 64
  /-- Operand 1. -/
  typeID : Metadata
  deriving DecidableEq, Repr

/-- `GlobalVariable *`. -/
structure GlobalVariable where
  id : ℕ
  name : StringRef
  linkage : Linkage
  isConstant : Bool
  externallyInitialized : Bool
  vcallVisibility : VCallVisibility
  /-- The `!type` nodes `getMetadata(LLVMContext::MD_type, Types)` collects. -/
  types : List TypeNode
  deriving DecidableEq, Repr

/-- `hasExternalLinkage()`. -/
def GlobalVariable.hasExternalLinkage (GV : GlobalVariable) : Bool := GV.linkage == .external

/-- `GlobalAlias *`. -/
structure GlobalAlias where
  id : ℕ
  name : StringRef
  deriving DecidableEq, Repr

/-! ### Values -/

/-- `Value *`.  The pointer operands the analyses follow are part of the value. -/
inductive Value where
  /-- `ConstantPointerNull`. -/
  | null
  | function (F : Function)
  | globalVariable (GV : GlobalVariable)
  | globalAlias (GA : GlobalAlias)
  /-- A pointer cast, as an instruction or a constant expression. -/
  | cast (id : ℕ) (ptr : Value)
  /-- `getelementptr`, with its byte offset where that is constant. -/
  | getElementPtr (id : ℕ) (inBounds : Bool) (offset : Option ℤ) (ptr : Value)
  /-- A `LoadInst`. -/
  | load (id : ℕ) (ptr : Value)
  | metadataAsValue (MD : Metadata)
  /-- Arguments, other instructions, other constants. -/
  | other (id : ℕ)
  deriving DecidableEq, Repr

/-- `dyn_cast<Function>(V)`. -/
def Value.asFunction : Value → Option Function
  | .function F => some F
  | _ => none

/-- The initializer of a global variable: its size in bytes and the constants in it. -/
structure Initializer where
  /-- The allocation size of its type. -/
  size : ℕ
  /-- The value every load reads, when the initializer is uniform. -/
  uniform : Option Value
  /-- The constants by byte offset. -/
  slots : List (ℕ × Value)
  /-- They lie inside it. -/
  inside : ∀ slot ∈ slots, slot.1 < size

/-- The constant stored at a byte offset. -/
def Initializer.constantAt (I : Initializer) (offset : ℕ) : Option Value :=
  match I.uniform with
  | some v => some v
  | none => I.slots.lookup offset

/-! ### Instructions -/

/-- An operand of a landing pad. -/
inductive Clause where
  /-- `catch`, with the type info it names; `null` catches everything. -/
  | catchClause (typeInfo : Value)
  /-- `filter`, with the elements of its array. -/
  | filterClause (typeInfos : List Value)
  deriving DecidableEq, Repr

/-- `LandingPadInst *`. -/
structure LandingPad where
  cleanup : Bool
  clauses : List Clause
  deriving DecidableEq, Repr

/-- `BasicBlock *`. -/
structure BasicBlock where
  id : ℕ
  /-- `getLandingPadInst()`: the first non-phi instruction, when it is a landing pad. -/
  landingPad : Option LandingPad
  deriving DecidableEq, Repr

/-- The classes of `CallBase`. -/
inductive CallKind where
  | call
  | invoke (normalDest unwindDest : BasicBlock)
  | callBr
  deriving DecidableEq, Repr

/-- `CallBase *`. -/
structure CallBase where
  id : ℕ
  /-- `getFunction()`, the function the call is in. -/
  function : Function
  /-- `getParent()`, the block the call is in. -/
  block : BasicBlock
  kind : CallKind
  /-- `getCalledOperand()`. -/
  calledOperand : Value
  /-- `getFunctionType()`. -/
  functionType : FunctionType
  args : List Value
  bundleOperands : List Value
  /-- The `!callees` node; a `none` operand is null or no constant. -/
  callees : Option (List (Option Value))
  deriving DecidableEq, Repr

namespace CallBase

/-- All operands that are values, the called operand last. -/
def operands (CB : CallBase) : List Value := CB.args ++ CB.bundleOperands ++ [CB.calledOperand]

theorem calledOperand_mem (CB : CallBase) : CB.calledOperand ∈ CB.operands :=
  List.mem_append_right _ (List.mem_singleton_self _)

/-- `getArgOperand(i)`, with `none` past the last argument. -/
def getArgOperand (CB : CallBase) (i : ℕ) : Option Value := CB.args[i]?

/-- `getCalledFunction()`: null when the called operand is no function, or one of another
type. -/
def getCalledFunction (CB : CallBase) : Option Function :=
  match CB.calledOperand with
  | .function F => if F.valueType = CB.functionType then some F else none
  | _ => none

/-- `getCalledFunction()` answers with the called operand, when that has the type of the call. -/
theorem getCalledFunction_eq_some {CB : CallBase} {F : Function} :
    CB.getCalledFunction = some F ↔
      CB.calledOperand = .function F ∧ F.valueType = CB.functionType := by
  unfold getCalledFunction
  split
  · next G hG =>
    rw [hG, Value.function.injEq]
    by_cases htype : G.valueType = CB.functionType
    · rw [if_pos htype, Option.some.injEq]
      constructor
      · intro h
        exact ⟨h, h ▸ htype⟩
      · exact And.left
    · rw [if_neg htype]
      refine iff_of_false nofun ?_
      intro ⟨h, hF⟩
      exact htype (h ▸ hF)
  · next hne => exact iff_of_false nofun fun h => hne F h.1

/-- `isa<IntrinsicInst>(CB)` with `getIntrinsicID() == Intrinsic::type_test`. -/
def isTypeTest (CB : CallBase) : Bool :=
  match CB.kind, CB.calledOperand with
  | .call, .function F => F.intrinsicID == .typeTest
  | _, _ => false

end CallBase

/-- `User *`, as `dyn_cast<CallBase>` sees it. -/
inductive User where
  | callBase (CB : CallBase)
  /-- Another instruction, a constant, an alias, a global. -/
  | other (id : ℕ)
  deriving DecidableEq, Repr

/-- `dyn_cast<CallBase>(U)`. -/
def User.asCallBase : User → Option CallBase
  | .callBase CB => some CB
  | .other _ => none

@[simp] theorem User.asCallBase_callBase (CB : CallBase) :
    (User.callBase CB).asCallBase = some CB := rfl

@[simp] theorem User.asCallBase_other (id : ℕ) : (User.other id).asCallBase = none := rfl

theorem User.asCallBase_eq_some {U : User} {CB : CallBase} :
    U.asCallBase = some CB ↔ U = .callBase CB := by
  cases U <;> simp

/-- The calls among some users. -/
abbrev callBases (us : List User) : List CallBase := us.filterMap User.asCallBase

theorem callBases_cons (CB : CallBase) (us : List User) :
    callBases (.callBase CB :: us) = CB :: callBases us := rfl

@[simp] theorem mem_callBases {us : List User} {CB : CallBase} :
    CB ∈ callBases us ↔ .callBase CB ∈ us := by
  simp [callBases, User.asCallBase_eq_some]

/-! ### Modules -/

/-- A module without its use lists. -/
structure ModuleData where
  /-- `M.functions()`, in module order. -/
  functions : List Function
  /-- `M.globals()`, in module order. -/
  globals : List GlobalVariable
  /-- The blocks of a function; a declaration has none. -/
  blocks : Function → List BasicBlock
  /-- The instructions of a block. -/
  insts : BasicBlock → List User
  /-- The successors of a block. -/
  succs : BasicBlock → List BasicBlock
  /-- The initializer of a global variable, if it has one. -/
  initializer : GlobalVariable → Option Initializer
  /-- `getAliasee()`. -/
  aliasee : GlobalAlias → Value
  /-- `getDataLayout().getIndexTypeSizeInBits` of a pointer's type. -/
  indexTypeSizeInBits : Value → ℕ
  /-- The name of a local value. -/
  localName : Value → StringRef

namespace ModuleData

/-- `F->isDeclaration()`. -/
def isDeclaration (D : ModuleData) (F : Function) : Bool := (D.blocks F).isEmpty

/-- The calls of the module, as the nested loops over functions, blocks and instructions meet
them. -/
def callSites (D : ModuleData) : List CallBase :=
  D.functions.flatMap fun F => (D.blocks F).flatMap fun BB => callBases (D.insts BB)

/-- The calls that use a value, once for each operand that is the value. -/
def callUses (D : ModuleData) (V : Value) : List CallBase :=
  D.callSites.flatMap fun CB => List.replicate (CB.operands.count V) CB

theorem mem_callUses {D : ModuleData} {V : Value} {CB : CallBase} :
    CB ∈ D.callUses V ↔ CB ∈ D.callSites ∧ V ∈ CB.operands := by
  simp only [callUses, List.mem_flatMap, List.mem_replicate]
  constructor
  · rintro ⟨c, hc, hne, rfl⟩
    exact ⟨hc, List.count_pos_iff.mp (Nat.pos_of_ne_zero hne)⟩
  · rintro ⟨hc, hv⟩
    exact ⟨CB, hc, Nat.pos_iff_ne_zero.mp (List.count_pos_iff.mpr hv), rfl⟩

/-- `M.getNamedGlobal(Name)`. -/
def getNamedGlobal (D : ModuleData) (name : StringRef) : Option GlobalVariable :=
  D.globals.find? (·.name == name)

/-- `GV.hasDefinitiveInitializer()`. -/
def hasDefinitiveInitializer (D : ModuleData) (GV : GlobalVariable) : Bool :=
  (D.initializer GV).isSome && !GV.linkage.isInterposable && !GV.externallyInitialized

/-- The constant stored in the initializer of a variable at a byte offset. -/
def constantAt (D : ModuleData) (GV : GlobalVariable) (offset : BitVec 64) : Option Value :=
  (D.initializer GV).bind (·.constantAt offset.toNat)

/-- `V->getName()`. -/
def getName (D : ModuleData) : Value → StringRef
  | .function F => F.name
  | .globalVariable GV => GV.name
  | .globalAlias GA => GA.name
  | V => D.localName V

/-- What the verifier guarantees of a module. -/
structure WellFormed (D : ModuleData) : Prop where
  /-- The function list holds each function once. -/
  functions_nodup : D.functions.Nodup
  /-- Names are unique. -/
  names_unique : ∀ F ∈ D.functions, ∀ G ∈ D.functions, F.name = G.name → F.name ≠ [] → F = G
  /-- An instruction stands at one place. -/
  callSites_nodup : D.callSites.Nodup
  /-- A call knows the function and the block it is in. -/
  parents : ∀ F ∈ D.functions, ∀ BB ∈ D.blocks F, ∀ CB ∈ callBases (D.insts BB),
    CB.function = F ∧ CB.block = BB
  /-- The functions a call mentions belong to the module. -/
  operands_mem : ∀ CB ∈ D.callSites, ∀ F ∈ CB.operands.filterMap Value.asFunction,
    F ∈ D.functions

instance (D : ModuleData) : Decidable D.WellFormed :=
  decidable_of_iff
    (D.functions.Nodup ∧
      (∀ F ∈ D.functions, ∀ G ∈ D.functions, F.name = G.name → F.name ≠ [] → F = G) ∧
      D.callSites.Nodup ∧
      (∀ F ∈ D.functions, ∀ BB ∈ D.blocks F, ∀ CB ∈ callBases (D.insts BB),
        CB.function = F ∧ CB.block = BB) ∧
      ∀ CB ∈ D.callSites, ∀ F ∈ CB.operands.filterMap Value.asFunction, F ∈ D.functions)
    ⟨fun ⟨h₁, h₂, h₃, h₄, h₅⟩ => ⟨h₁, h₂, h₃, h₄, h₅⟩,
      fun h => ⟨h.1, h.2, h.3, h.4, h.5⟩⟩

end ModuleData

/-- A verified module with its use lists. -/
structure Module extends ModuleData where
  /-- `V->users()`, in an order of its own. -/
  users : Value → List User
  /-- The verifier has accepted the module. -/
  wf : toModuleData.WellFormed
  /-- The calls in a use list are the calls with the value among their operands. -/
  users_calls : ∀ V, (callBases (users V)).Perm (toModuleData.callUses V)

namespace Module

/-- A module whose use lists hold its calls in the order of the module, and nothing else. -/
def ofData (D : ModuleData) (h : D.WellFormed) : Module where
  toModuleData := D
  users V := (D.callUses V).map .callBase
  wf := h
  users_calls V := by
    rw [callBases, List.filterMap_map]
    exact (List.filterMap_some).symm ▸ List.Perm.refl _

variable {M : Module}

/-- **The calls in a use list.** -/
theorem mem_users {V : Value} {CB : CallBase} :
    .callBase CB ∈ M.users V ↔ CB ∈ M.callSites ∧ V ∈ CB.operands := by
  rw [← mem_callBases, (M.users_calls V).mem_iff, ModuleData.mem_callUses]

theorem count_users (V : Value) {CB : CallBase} (h : CB ∈ M.callSites) :
    (callBases (M.users V)).count CB = CB.operands.count V := by
  rw [(M.users_calls V).count_eq]
  exact List.count_flatMap_replicate _ M.wf.callSites_nodup h

end Module

/-! ### What is taken from LLVM -/

/-- The ways the tool stops before it is done: a broken precondition of an LLVM routine, or
`llvm_unreachable`. -/
inductive Abort where
  /-- `llvm_unreachable("Type id string is not start with _ZTS")`. -/
  | unreachableTypeId
  /-- `stripAndAccumulateInBoundsConstantOffsets` with an offset of another width. -/
  | offsetWidth
  /-- `dyn_cast` on a null pointer. -/
  | dynCastNull
  /-- A member call through a null `getCalledFunction()`. -/
  | calledFunctionNull
  /-- `getArgOperand` past the last argument. -/
  | argOperandRange
  deriving DecidableEq, Repr

/-- The LLVM routines the analyses call. -/
structure LLVM where
  /-- `Ptr->stripAndAccumulateInBoundsConstantOffsets(DL, Offset)` with `Offset` zero: the
  pointer left when the constant in-bounds offsets are stripped, and their sum modulo `2 ^ 64`. -/
  stripAndAccumulateInBoundsConstantOffsets : Module → Value → Value × BitVec 64
  /-- `ConstantFoldLoadFromConstPtr(GV, ptr, Offset, DL)`, with `none` for null. -/
  constantFoldLoadFromConstPtr : Module → GlobalVariable → BitVec 64 → Option Value
  /-- `itaniumDemangle(Name)`, with `none` for null. -/
  itaniumDemangle : StringRef → Option StringRef

/-! ### Modules given by their calls -/

/-- A function of a given name. -/
def Function.ofName (id : ℕ) (name : StringRef) : Function := ⟨id, name, 0, false, .notIntrinsic⟩

/-- A plain call. -/
def CallBase.ofCallee (id : ℕ) (F : Function) (BB : BasicBlock) (callee : Value)
    (args : List Value) : CallBase :=
  ⟨id, F, BB, .call, callee, 0, args, [], none⟩

/-- A module whose instructions are some calls: each stands in the block and the function it
names, and a function without calls is a declaration. -/
def ModuleData.ofCalls (functions : List Function) (globals : List GlobalVariable)
    (calls : List CallBase) : ModuleData where
  functions := functions
  globals := globals
  blocks F := ((calls.filter (·.function = F)).map (·.block)).dedup
  insts BB := (calls.filter (·.block = BB)).map .callBase
  succs _ := []
  initializer _ := none
  aliasee _ := .null
  indexTypeSizeInBits _ := 64
  localName _ := []

/-- The pointer under constant in-bounds offsets and casts, with the sum of the offsets. -/
def Value.stripInBounds : Value → Value × BitVec 64
  | .cast _ ptr => ptr.stripInBounds
  | .getElementPtr _ true (some offset) ptr =>
    (ptr.stripInBounds.1, ptr.stripInBounds.2 + BitVec.ofInt 64 offset)
  | V => (V, 0)

/-- LLVM as documented, on pointers made of casts and offsets and on loads of what an initializer
stores at an offset; without a demangler.  Loads from elsewhere are left out: LLVM folds one from
beyond an initializer to poison, and one from between two of its elements to the bytes there. -/
def LLVM.documented : LLVM where
  stripAndAccumulateInBoundsConstantOffsets _ V := V.stripInBounds
  constantFoldLoadFromConstPtr M GV offset :=
    if GV.isConstant && M.hasDefinitiveInitializer GV then M.constantAt GV offset else none
  itaniumDemangle _ := none

/-- The documented fold answers only for a constant with a definitive initializer, and with the
constant stored at the offset. -/
theorem LLVM.documented_fold {M : Module} {GV : GlobalVariable} {offset : BitVec 64} {V : Value}
    (h : LLVM.documented.constantFoldLoadFromConstPtr M GV offset = some V) :
    GV.isConstant = true ∧ M.hasDefinitiveInitializer GV = true ∧
      M.constantAt GV offset = some V := by
  unfold LLVM.documented at h
  dsimp only at h
  split at h
  · next hc =>
    rw [Bool.and_eq_true] at hc
    exact ⟨hc.1, hc.2, h⟩
  · exact absurd h nofun

end Ehgp
