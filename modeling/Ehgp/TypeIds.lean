import Ehgp.VirtualCallers

/-!
# What type ids and names are taken for

The first pass takes a type id for the name of a type info, and finds the type
info of a vtable by cutting the vtable's own name.  So the subclass relation is
the one the vtables state exactly where the names agree with their RTTI slots,
and an id that is no `_ZTS` name ends the run.

## Main definitions

* `RecordsSubclass` — the pairs of type infos the first pass records.
* `HasEntry`, `InRTTISlot`, `CutName` — what a vtable states, and what it is taken to state.
* `AgreesWithVtables` — `derivedFrom` answers what the vtables state.
* `NamesMatchRTTI` — the names agree with the RTTI slots.
* `AcceptsEveryTypeId` — no type id stops the tool or does harm.

## Main results

* `analyze_subclassesMap` — **what a run of `analyze` leaves of the subclass relation.**
* `agreesWithVtables_iff` — **when `derivedFrom` agrees with the vtables.**
* `acceptsEveryTypeId_iff` — **when every type id is accepted.**
-/

namespace Ehgp

open VCallCandidatesAnalyzer

theorem StringRef.consumeFront_eq_some {s p r : StringRef} :
    s.consumeFront p = some r ↔ s = p ++ r := by
  rw [consumeFront, List.isPrefixOf?_eq_some_iff_append_eq, eq_comm]

/-! ### The subclass relation -/

/-- A pair the first pass records: the entry of a vtable for an id, and the type infos found by
their names. -/
def RecordsSubclass (M : Module) (Base TypeInfo : Option GlobalVariable) : Prop :=
  ∃ GV ∈ M.globals, GV.vcallVisibility ≠ .visibilityPublic ∧
    ∃ s, GV.name = "_ZTV".toList ++ s ∧ M.getNamedGlobal ("_ZTI".toList ++ cutAtDot s) = TypeInfo ∧
      ∃ Node ∈ GV.types, ∃ u, Node.Records ("_ZTS".toList ++ u) ∧
        M.getNamedGlobal ("_ZTI".toList ++ u) = Base

section

variable {L : LLVM} {M : Module} {A A' : VCallCandidatesAnalyzer}

/-- What a type node adds to the relation. -/
theorem collectType_subclassesMap {GV : GlobalVariable} {TI : Option GlobalVariable}
    {Node : TypeNode} (h : collectType M GV TI A Node = .ok A') (b d : Option Value) :
    d ∈ A'.subclassesMap.get b ↔
      (∃ u, Node.Records ("_ZTS".toList ++ u) ∧
        b = asValue (M.getNamedGlobal ("_ZTI".toList ++ u)) ∧ d = asValue TI) ∨
      d ∈ A.subclassesMap.get b := by
  unfold collectType at h
  unfold TypeNode.Records
  cases hid : Node.typeID with
  | other id =>
    rw [hid] at h
    cases h
    simp
  | string t =>
    rw [hid] at h
    dsimp only at h
    simp only [Metadata.string.injEq]
    split at h
    · next hvirtual =>
      cases h
      refine (or_iff_right ?_).symm
      intro hrec
      obtain ⟨u, ⟨rfl, hplain⟩, -⟩ := hrec
      exact hplain (StringRef.endsWith_iff.mp hvirtual)
    · next hplain =>
      cases hfront : t.consumeFront "_ZTS" with
      | none =>
        -- the run has stopped
        rw [hfront] at h
        cases h
      | some u =>
        rw [hfront] at h
        cases h
        obtain rfl := StringRef.consumeFront_eq_some.mp hfront
        simp only [insertAddressPoint, SetMap.mem_get_insertAt]
        refine or_congr_left ⟨?_, ?_⟩
        · intro hadd
          exact ⟨u, ⟨rfl, fun hv => hplain (StringRef.endsWith_iff.mpr hv)⟩, hadd⟩
        · intro hadd
          obtain ⟨u', ⟨heq, -⟩, hadd⟩ := hadd
          rw [List.append_cancel_left heq]
          exact hadd

theorem collectGlobal_subclassesMap {GV : GlobalVariable}
    (h : collectGlobal M A GV = .ok A') (b d : Option Value) :
    d ∈ A'.subclassesMap.get b ↔
      (GV.vcallVisibility ≠ .visibilityPublic ∧
        ∃ s, GV.name = "_ZTV".toList ++ s ∧
          ∃ Node ∈ GV.types, ∃ u, Node.Records ("_ZTS".toList ++ u) ∧
            b = asValue (M.getNamedGlobal ("_ZTI".toList ++ u)) ∧
            d = asValue (M.getNamedGlobal ("_ZTI".toList ++ cutAtDot s))) ∨
      d ∈ A.subclassesMap.get b := by
  unfold collectGlobal at h
  split at h
  · next hpublic =>
    cases h
    refine (or_iff_right ?_).symm
    intro hadd
    exact hadd.1 hpublic
  · next hvis =>
    -- the name is what is left behind `_ZTV`
    cases hfront : GV.name.consumeFront "_ZTV" with
    | none =>
      rw [hfront] at h
      cases h
      refine (or_iff_right ?_).symm
      intro hadd
      obtain ⟨-, s, hs, -⟩ := hadd
      rw [StringRef.consumeFront_eq_some.mpr hs] at hfront
      cases hfront
    | some s =>
      rw [hfront] at h
      dsimp only at h
      have hname : GV.name = "_ZTV".toList ++ s := StringRef.consumeFront_eq_some.mp hfront
      rw [List.foldlM_iff_exists h fun Node _ A₁ A₂ hstep =>
        collectType_subclassesMap hstep b d]
      refine or_congr_left ⟨?_, ?_⟩
      · intro hadd
        exact ⟨hvis, s, hname, hadd⟩
      · intro hadd
        obtain ⟨-, s', hs', hadd⟩ := hadd
        rw [hname] at hs'
        rw [List.append_cancel_left hs']
        exact hadd

/-- **What the first pass adds to the subclass relation.** -/
theorem collect_subclassesMap (h : M.globals.foldlM (collectGlobal M) A = .ok A')
    (b d : Option Value) :
    d ∈ A'.subclassesMap.get b ↔
      (∃ Base TypeInfo, RecordsSubclass M Base TypeInfo ∧ b = asValue Base ∧
        d = asValue TypeInfo) ∨ d ∈ A.subclassesMap.get b := by
  rw [List.foldlM_iff_exists h fun GV _ A₁ A₂ hstep =>
    collectGlobal_subclassesMap hstep b d]
  refine or_congr_left ⟨?_, ?_⟩
  · intro hadd
    obtain ⟨GV, hGV, hvis, s, hname, Node, hNode, u, hrec, hb, hd⟩ := hadd
    exact ⟨_, _, ⟨GV, hGV, hvis, s, hname, rfl, Node, hNode, u, hrec, rfl⟩, hb, hd⟩
  · intro hadd
    obtain ⟨_, _, ⟨GV, hGV, hvis, s, hname, rfl, Node, hNode, u, hrec, rfl⟩, hb, hd⟩ := hadd
    exact ⟨GV, hGV, hvis, s, hname, Node, hNode, u, hrec, hb, hd⟩

theorem getVCallCandidates_subclassesMap {CB : CallBase} {r : Bool × List Function}
    (h : getVCallCandidates L M A CB [] = .ok (r, A')) :
    A'.subclassesMap = A.subclassesMap := by
  unfold getVCallCandidates at h
  split at h
  · cases h
    rfl
  · split at h
    · split at h
      · cases h
      · dsimp only at h
        split at h
        · cases h
        · cases h
          rfl
    · cases h
      rfl

theorem scanCall_subclassesMap {CB : CallBase} (h : scanCall L M A CB = .ok A') :
    A'.subclassesMap = A.subclassesMap := by
  unfold scanCall at h
  split at h
  · cases h
  · next C A₁ hq =>
    rw [foldl_insert_callerMap] at h
    cases h
    have hsame : A₁.subclassesMap = A.subclassesMap := getVCallCandidates_subclassesMap hq
    exact hsame
  · next C A₁ hq =>
    cases h
    exact getVCallCandidates_subclassesMap hq

/-- **What a run of `analyze` leaves of the subclass relation.** -/
theorem analyze_subclassesMap {calls : List CallBase} (h : analyzeIn calls L M A = .ok A')
    (b d : Option Value) :
    d ∈ A'.subclassesMap.get b ↔
      (∃ Base TypeInfo, RecordsSubclass M Base TypeInfo ∧ b = asValue Base ∧
        d = asValue TypeInfo) ∨ d ∈ A.subclassesMap.get b := by
  obtain ⟨A₁, h₁, h₂⟩ := Except.bind_eq_ok.mp h
  have hscan : A'.subclassesMap = A₁.subclassesMap := by
    refine List.foldlM_ok_induction (P := fun _ s => s.subclassesMap = A₁.subclassesMap) h₂ rfl ?_
    intro done CB s s' _ hs hstep
    exact (scanCall_subclassesMap hstep).trans hs
  rw [hscan]
  exact collect_subclassesMap h₁ b d

/-! ### Names and RTTI slots -/

variable (M) in
/-- The type info named `_ZTI<b>`. -/
def IsTypeInfo (b : StringRef) (B : GlobalVariable) : Prop :=
  M.getNamedGlobal ("_ZTI".toList ++ b) = some B

variable (M) in
/-- A vtable without public visibility has an entry at `o` with the id `_ZTS<b>`. -/
def HasEntry (V : GlobalVariable) (o : BitVec 64) (b : StringRef) : Prop :=
  V ∈ M.globals ∧ IsVTable V ∧ ⟨o, .string ("_ZTS".toList ++ b)⟩ ∈ V.types

variable (M) in
/-- A type info is in the RTTI slot of the address point `o`, the word before it. -/
def InRTTISlot (V : GlobalVariable) (o : BitVec 64) (D : GlobalVariable) : Prop :=
  M.constantAt V (o - BitVec.ofNat 64 (M.indexTypeSizeInBits (.globalVariable V) / 8)) =
    some (.globalVariable D)

/-- The name of a vtable, without `_ZTV` and cut at the first dot, is `d`. -/
def CutName (V : GlobalVariable) (d : StringRef) : Prop :=
  ∃ s, V.name = "_ZTV".toList ++ s ∧ cutAtDot s = d

/-- A member-pointer id. -/
def IsMemberPointerId (b : StringRef) : Prop := ".virtual".toList <:+ "_ZTS".toList ++ b

variable (M A) in
/-- `derivedFrom` answers what the vtables state. -/
def AgreesWithVtables : Prop :=
  ∀ b B d D, IsTypeInfo M b B → IsTypeInfo M d D →
    ((A.derivedFrom (.globalVariable B) (.globalVariable D)).1 = true ↔
      ∃ V o, HasEntry M V o b ∧ InRTTISlot M V o D)

variable (M) in
/-- The names of the vtables agree with their RTTI slots, id by id. -/
structure NamesMatchRTTI : Prop where
  /-- The type info a vtable is named for is in the RTTI slot of a vtable with the same id. -/
  named : ∀ b B d D V o, IsTypeInfo M b B → IsTypeInfo M d D → HasEntry M V o b →
    ¬ IsMemberPointerId b → CutName V d → ∃ V' o', HasEntry M V' o' b ∧ InRTTISlot M V' o' D
  /-- A vtable with the same id is named for the type info in an RTTI slot. -/
  slots : ∀ b B d D V o, IsTypeInfo M b B → IsTypeInfo M d D → HasEntry M V o b →
    InRTTISlot M V o D → ¬ IsMemberPointerId b ∧ ∃ V' o', HasEntry M V' o' b ∧ CutName V' d

theorem IsTypeInfo.name_eq {b : StringRef} {B : GlobalVariable} (h : IsTypeInfo M b B) :
    B.name = "_ZTI".toList ++ b := by
  have hname := List.find?_some h
  exact beq_iff_eq.mp hname

theorem IsTypeInfo.unique {b b' : StringRef} {B : GlobalVariable} (h : IsTypeInfo M b B)
    (h' : IsTypeInfo M b' B) : b = b' :=
  List.append_cancel_left (h.name_eq.symm.trans h'.name_eq)

theorem asValue_eq_some {GV : Option GlobalVariable} {B : GlobalVariable} :
    some (.globalVariable B) = asValue GV ↔ GV = some B := by
  cases GV with
  | none => exact iff_of_false (by simp [asValue]) (by simp)
  | some C => simp [asValue, eq_comm]

/-- The pair of two type infos is recorded where a vtable with an entry for the one is named for
the other. -/
theorem recordsSubclass_iff {b d : StringRef} {B D : GlobalVariable} (hB : IsTypeInfo M b B)
    (hD : IsTypeInfo M d D) :
    RecordsSubclass M (some B) (some D) ↔
      ¬ IsMemberPointerId b ∧ ∃ V o, HasEntry M V o b ∧ CutName V d := by
  constructor
  · intro h
    obtain ⟨V, hV, hvis, s, hname, hTI, Node, hNode, u, ⟨hid, hplain⟩, hBase⟩ := h
    -- a type info has one name
    obtain rfl : u = b := IsTypeInfo.unique hBase hB
    have hcut : cutAtDot s = d := IsTypeInfo.unique hTI hD
    refine ⟨hplain, V, Node.offset, ⟨hV, ⟨hvis, ?_⟩, ?_⟩, s, hname, hcut⟩
    · rw [hname]
      exact List.prefix_append _ _
    · rw [← hid]
      exact hNode
  · intro h
    obtain ⟨hplain, V, o, ⟨hV, ⟨hvis, -⟩, hentry⟩, s, hname, rfl⟩ := h
    exact ⟨V, hV, hvis, s, hname, hD, _, hentry, b, ⟨rfl, hplain⟩, hB⟩

end

/-- **When `derivedFrom` agrees with the vtables**: after a run of `analyze`, exactly when the
names of the vtables agree with their RTTI slots. -/
theorem agreesWithVtables_iff {L : LLVM} {M : Module} {A : VCallCandidatesAnalyzer}
    (h : analyze L M .fresh = .ok A) : AgreesWithVtables M A ↔ NamesMatchRTTI M := by
  rw [analyze_eq_analyzeIn] at h
  -- what `derivedFrom` answers, by the names
  have hderived : ∀ b B d D, IsTypeInfo M b B → IsTypeInfo M d D →
      ((A.derivedFrom (.globalVariable B) (.globalVariable D)).1 = true ↔
        ¬ IsMemberPointerId b ∧ ∃ V o, HasEntry M V o b ∧ CutName V d) := by
    intro b B d D hB hD
    rw [← recordsSubclass_iff hB hD, derivedFrom_result, decide_eq_true_eq,
      analyze_subclassesMap h]
    simp only [fresh, SetMap.get_empty, List.not_mem_nil, or_false, asValue_eq_some]
    constructor
    · intro hrec
      obtain ⟨Base, TypeInfo, hrec, rfl, rfl⟩ := hrec
      exact hrec
    · intro hrec
      exact ⟨_, _, hrec, rfl, rfl⟩
  constructor
  · intro hagree
    constructor
    · intro b B d D V o hB hD hentry hplain hcut
      exact (hagree b B d D hB hD).mp ((hderived b B d D hB hD).mpr ⟨hplain, V, o, hentry, hcut⟩)
    · intro b B d D V o hB hD hentry hslot
      exact (hderived b B d D hB hD).mp ((hagree b B d D hB hD).mpr ⟨V, o, hentry, hslot⟩)
  · intro hmatch b B d D hB hD
    rw [hderived b B d D hB hD]
    constructor
    · intro hnamed
      obtain ⟨hplain, V, o, hentry, hcut⟩ := hnamed
      exact hmatch.named b B d D V o hB hD hentry hplain hcut
    · intro hslot
      obtain ⟨V, o, hentry, hslot⟩ := hslot
      exact hmatch.slots b B d D V o hB hD hentry hslot

/-! #### Two classes of one name

Two translation units have a class `x` in an anonymous namespace each, one derived from `b` and
one from `c`.  Linking renames the second one apart. -/

namespace Linked

/-- A type info of one unit. -/
def typeInfo (id : ℕ) (name : StringRef) : GlobalVariable :=
  ⟨id, name, .internal, true, false, .visibilityPublic, []⟩

/-- The vtable of a class with an entry for its base. -/
def vtable (id : ℕ) (name base : StringRef) : GlobalVariable :=
  ⟨id, name, .internal, true, false, .visibilityTranslationUnit, [⟨16, .string base⟩]⟩

/-- The type info of the base in the first unit. -/
def typeInfoB : GlobalVariable := typeInfo 0 "_ZTI1b"

/-- The type info of the base in the second unit. -/
def typeInfoC : GlobalVariable := typeInfo 1 "_ZTI1c"

/-- The type info of `x` of the first unit. -/
def typeInfoX : GlobalVariable := typeInfo 2 "_ZTIN12_GLOBAL__N_11xE"

/-- The type info of `x` of the second unit, renamed by the linker. -/
def typeInfoX' : GlobalVariable := typeInfo 3 "_ZTIN12_GLOBAL__N_11xE.1"

/-- The vtable of `x` of the first unit. -/
def vtableX : GlobalVariable := vtable 4 "_ZTVN12_GLOBAL__N_11xE" "_ZTS1b"

/-- The vtable of `x` of the second unit, renamed as well. -/
def vtableX' : GlobalVariable := vtable 5 "_ZTVN12_GLOBAL__N_11xE.1" "_ZTS1c"

/-- The RTTI slots. -/
def initializer (GV : GlobalVariable) : Option Initializer :=
  if GV = vtableX then some ⟨24, none, [(8, .globalVariable typeInfoX)], by decide⟩
  else if GV = vtableX' then some ⟨24, none, [(8, .globalVariable typeInfoX')], by decide⟩
  else none

/-- The first unit alone. -/
def unitModule : Module :=
  .ofData { ModuleData.ofCalls [] [typeInfoB, typeInfoX, vtableX] [] with
    initializer := initializer } (by decide)

/-- Both units linked. -/
def linkedModule : Module :=
  .ofData
    { ModuleData.ofCalls [] [typeInfoB, typeInfoC, typeInfoX, typeInfoX', vtableX, vtableX'] [] with
      initializer := initializer } (by decide)

theorem hasEntry_unitModule {V : GlobalVariable} {o : BitVec 64} {b : StringRef} :
    HasEntry unitModule V o b ↔ V = vtableX ∧ o = 16 ∧ b = "1b".toList := by
  constructor
  · intro h
    obtain ⟨hV, ⟨hvis, -⟩, hentry⟩ := h
    have hglobals : V = typeInfoB ∨ V = typeInfoX ∨ V = vtableX := by
      simpa [unitModule, Module.ofData, ModuleData.ofCalls] using hV
    rcases hglobals with rfl | rfl | rfl
    · exact absurd rfl hvis
    · exact absurd rfl hvis
    · obtain ⟨ho, hid⟩ := TypeNode.mk.inj (List.mem_singleton.mp hentry)
      have hb : "_ZTS".toList ++ b = "_ZTS".toList ++ "1b".toList := Metadata.string.inj hid
      exact ⟨rfl, ho, List.append_cancel_left hb⟩
  · intro h
    obtain ⟨rfl, rfl, rfl⟩ := h
    exact ⟨by decide, ⟨by decide, by decide⟩, by decide⟩

/-- In one unit the names agree with the RTTI slots. -/
theorem namesMatch_unitModule : NamesMatchRTTI unitModule where
  named b B d D V o hB hD hentry hplain hcut := by
    obtain ⟨rfl, rfl, rfl⟩ := hasEntry_unitModule.mp hentry
    refine ⟨vtableX, 16, hentry, ?_⟩
    obtain ⟨s, hname, rfl⟩ := hcut
    have hs : "_ZTV".toList ++ "N12_GLOBAL__N_11xE".toList = "_ZTV".toList ++ s := hname
    obtain rfl : "N12_GLOBAL__N_11xE".toList = s := List.append_cancel_left hs
    obtain rfl : typeInfoX = D := Option.some.inj hD
    rfl
  slots b B d D V o hB hD hentry hslot := by
    obtain ⟨rfl, rfl, rfl⟩ := hasEntry_unitModule.mp hentry
    obtain rfl : typeInfoX = D := Value.globalVariable.inj (Option.some.inj hslot)
    refine ⟨by unfold IsMemberPointerId; decide, vtableX, 16, hentry, ?_⟩
    have hd : "_ZTI".toList ++ "N12_GLOBAL__N_11xE".toList = "_ZTI".toList ++ d := hD.name_eq
    obtain rfl : "N12_GLOBAL__N_11xE".toList = d := List.append_cancel_left hd
    exact ⟨"N12_GLOBAL__N_11xE".toList, rfl, rfl⟩

end Linked

/-- In one unit `derivedFrom` agrees with the vtables. -/
theorem agreesWithVtables_unit :
    ∃ A, analyze .documented Linked.unitModule .fresh = .ok A ∧
      AgreesWithVtables Linked.unitModule A := by
  refine ⟨_, rfl, ?_⟩
  exact (agreesWithVtables_iff (L := .documented) rfl).mpr Linked.namesMatch_unitModule

/-- After linking, the metadata of the second class makes the type info of the first derived from
`c`. -/
theorem renamed_class_mistaken :
    ¬ ∀ A, analyze .documented Linked.linkedModule .fresh = .ok A →
      AgreesWithVtables Linked.linkedModule A := by
  intro h
  have hagree := h _ rfl "1c".toList Linked.typeInfoC "N12_GLOBAL__N_11xE".toList Linked.typeInfoX
    rfl rfl
  obtain ⟨V, o, ⟨hV, ⟨hvis, -⟩, hentry⟩, hslot⟩ := hagree.mp (by decide)
  have hglobals : V ∈ [Linked.typeInfoB, Linked.typeInfoC, Linked.typeInfoX, Linked.typeInfoX',
    Linked.vtableX, Linked.vtableX'] := hV
  simp only [List.mem_cons, List.not_mem_nil, or_false] at hglobals
  -- the entry for `c` is in the vtable whose RTTI slot holds the other type info
  rcases hglobals with rfl | rfl | rfl | rfl | rfl | rfl
  · exact absurd rfl hvis
  · exact absurd rfl hvis
  · exact absurd rfl hvis
  · exact absurd rfl hvis
  · exact absurd (List.mem_singleton.mp hentry) (by simp)
  · obtain ⟨rfl, -⟩ := TypeNode.mk.inj (List.mem_singleton.mp hentry)
    exact absurd hslot (by unfold InRTTISlot; decide)

/-! ### Ids that are no `_ZTS` names -/

/-- A type id that is a `_ZTS` name. -/
def Metadata.IsTypeName (MD : Metadata) : Prop :=
  ∃ u, MD = .string ("_ZTS".toList ++ u)

/-- No type id ends the run, and an entry whose id is no `_ZTS` name changes neither the subclass
relation nor the address points of another id. -/
structure AcceptsEveryTypeId (L : LLVM) (M : Module) (A : VCallCandidatesAnalyzer) : Prop where
  reached : analyze L M A ≠ .error .unreachableTypeId
  others : ∀ GV ∈ M.globals, IsVTable GV → ∀ Node ∈ GV.types, ¬ Node.typeID.IsTypeName →
    ∀ TI A₁, ∃ A₂, collectType M GV TI A₁ Node = .ok A₂ ∧
      A₂.subclassesMap = A₁.subclassesMap ∧
      ∀ t, Node.typeID ≠ .string t →
        A₂.typeIdCompatibleMap.get t = A₁.typeIdCompatibleMap.get t

/-- An entry without a `_ZTS` name that comes through changes nothing at all. -/
theorem collectType_eq_of_not_isTypeName {M : Module} {GV : GlobalVariable}
    {TI : Option GlobalVariable} {Node : TypeNode} {A A' : VCallCandidatesAnalyzer}
    (hid : ¬ Node.typeID.IsTypeName) (h : collectType M GV TI A Node = .ok A') : A' = A := by
  unfold collectType at h
  split at h
  · next t ht =>
    split at h
    · cases h
      rfl
    · cases hfront : t.consumeFront "_ZTS" with
      | none =>
        rw [hfront] at h
        cases h
      | some u =>
        rw [ht, StringRef.consumeFront_eq_some.mp hfront] at hid
        exact absurd ⟨u, rfl⟩ hid
  · cases h
    rfl

/-- **When every type id is accepted**: exactly when every string id of a vtable without public
visibility, member-pointer ids apart, is a `_ZTS` name. -/
theorem acceptsEveryTypeId_iff (L : LLVM) (M : Module) (A : VCallCandidatesAnalyzer) :
    AcceptsEveryTypeId L M A ↔ TypeIdsAccepted M := by
  constructor
  · intro h t AP hAP
    obtain ⟨hmem, hvis, hname, hentry, hplain⟩ := hAP
    by_contra hids
    -- were the id not accepted, the entry would be one that must change nothing
    have hnot : ¬ (⟨AP.2, .string t⟩ : TypeNode).typeID.IsTypeName := by
      intro hname
      obtain ⟨u, hu⟩ := hname
      rw [Metadata.string.inj hu] at hids
      exact hids (List.prefix_append _ _)
    obtain ⟨A₂, hA₂, -⟩ := h.others AP.1 hmem ⟨hvis, hname⟩ _ hentry hnot none A
    have haccepted := (collectType_eq_ok_iff M AP.1 none ⟨AP.2, .string t⟩ A).mp ⟨A₂, hA₂⟩
    exact hids (haccepted t ⟨rfl, hplain⟩)
  · intro hids
    constructor
    · intro herror
      rw [analyze_eq_analyzeIn] at herror
      rcases analyze_error herror with ⟨hnot, -⟩ | ⟨-, hother | hother⟩
      · exact hnot hids
      · cases hother
      · cases hother
    · intro GV hGV hvtable Node hNode hid TI A₁
      have haccepted : ∀ t, Node.Records t → "_ZTS".toList <+: t := by
        intro t ht
        obtain ⟨ht, hplain⟩ := ht
        exact hids t (GV, Node.offset) ⟨hGV, hvtable.1, hvtable.2, ht ▸ hNode, hplain⟩
      obtain ⟨A₂, hA₂⟩ := (collectType_eq_ok_iff M GV TI Node A₁).mpr haccepted
      obtain rfl := collectType_eq_of_not_isTypeName hid hA₂
      exact ⟨A₂, hA₂, rfl, fun t _ => rfl⟩

namespace Linked

/-- A vtable with the id that control-flow integrity puts on all vtables. -/
def vtableAll : GlobalVariable :=
  ⟨6, "_ZTV1b", .external, true, false, .visibilityLinkageUnit, [⟨16, .string "all-vtables"⟩]⟩

/-- A module with that vtable. -/
def allVtablesModule : Module := .ofData (.ofCalls [] [typeInfoB, vtableAll] []) (by decide)

end Linked

/-- The id `all-vtables` ends the run. -/
theorem all_vtables_unreachable :
    ¬ AcceptsEveryTypeId .documented Linked.allVtablesModule .fresh := by
  intro h
  exact h.reached rfl

end Ehgp
