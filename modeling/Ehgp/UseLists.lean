import Ehgp.Completeness
import Ehgp.Handlers
import Ehgp.TypeIds

/-!
# The order of use lists

The order of a use list has no meaning in IR.  The traversal does not depend on
it, and neither does the first pass; but the scan for the type test of a virtual
call stops at the first one it meets, a type test without a string id included.
So the order matters exactly where a run comes to a call whose vptr has type
tests that lead to different candidates.

## Main definitions

* `Reordered` — two modules that differ in the order of their use lists.
* `OrderIrrelevant` — what the tool computes for both is the same.
* `ScannedId` — an id the scan may stop at.
* `SameSlots` — two ids lead to the same candidates.
* `TestsAgreeAt`, `TestsAgree` — the type tests of a vptr, and of every one, lead to the same
  candidates.

## Main results

* `sameAnswer_iff` — when a query answers the same in both modules.
* `TestsAgreeAt.sameAnswer` — where the type tests agree it does.
* `analyze_related` — both passes, step by step.
* `orderIrrelevant_iff` — **when the order of use lists does not matter.**
-/

namespace Ehgp

open VCallCandidatesAnalyzer

/-! ### Modules that differ in the order of their use lists -/

/-- Two modules differ only in the order of their use lists. -/
structure Reordered (M M' : Module) : Prop where
  data : M'.toModuleData = M.toModuleData
  users : ∀ V, (M'.users V).Perm (M.users V)

/-- LLVM's routines do not look at the use lists. -/
structure LLVM.IgnoresUseLists (L : LLVM) : Prop where
  strip : ∀ M M', Reordered M M' → ∀ V, L.stripAndAccumulateInBoundsConstantOffsets M' V =
    L.stripAndAccumulateInBoundsConstantOffsets M V
  fold : ∀ M M', Reordered M M' → ∀ GV offset, L.constantFoldLoadFromConstPtr M' GV offset =
    L.constantFoldLoadFromConstPtr M GV offset

theorem LLVM.documented_ignoresUseLists : LLVM.documented.IgnoresUseLists where
  strip _ _ _ _ := rfl
  fold M M' h GV offset := by
    unfold LLVM.documented
    dsimp only
    rw [h.data]

section

variable {L : LLVM} {M M' : Module}

theorem Reordered.callSites_eq (h : Reordered M M') : M'.callSites = M.callSites := by
  rw [h.data]

theorem Reordered.mem_users (h : Reordered M M') (V : Value) (U : User) :
    U ∈ M'.users V ↔ U ∈ M.users V :=
  (h.users V).mem_iff

theorem Reordered.isAddressPoint (h : Reordered M M') {t : StringRef} {AP : AddressPoint} :
    IsAddressPoint M' t AP ↔ IsAddressPoint M t AP := by
  have hglobals : M'.globals = M.globals := by rw [h.data]
  constructor
  · intro hAP
    exact ⟨hglobals ▸ hAP.mem, hAP.visibility, hAP.vtable, hAP.entry, hAP.plain⟩
  · intro hAP
    exact ⟨hglobals.symm ▸ hAP.mem, hAP.visibility, hAP.vtable, hAP.entry, hAP.plain⟩

theorem Reordered.typeIdsAccepted (h : Reordered M M') (hids : TypeIdsAccepted M) :
    TypeIdsAccepted M' := by
  intro t AP hAP
  exact hids t AP (h.isAddressPoint.mp hAP)

theorem Reordered.inSlot (h : Reordered M M') (hL : L.IgnoresUseLists) {k : BitVec 64}
    {AP : AddressPoint} {F : Function} : InSlot L M' k AP F ↔ InSlot L M k AP F := by
  have hdecl : M'.isDeclaration F = M.isDeclaration F := by rw [h.data]
  unfold InSlot
  rw [hL.fold M M' h, hdecl]

theorem Reordered.slotOffset_eq (h : Reordered M M') (hL : L.IgnoresUseLists) (ptr : Value) :
    slotOffset L M' ptr = slotOffset L M ptr := by
  unfold slotOffset
  rw [hL.strip M M' h]

/-- The first pass is the same. -/
theorem Reordered.collectGlobal_eq (h : Reordered M M') : collectGlobal M' = collectGlobal M := by
  have hnamed : M'.getNamedGlobal = M.getNamedGlobal := by rw [h.data]
  have htype : collectType M' = collectType M := by
    funext GV TI A Node
    unfold collectType
    rw [hnamed]
  funext A GV
  unfold collectGlobal
  rw [hnamed, htype]

/-! ### The ids a scan may stop at -/

/-- The id the scan takes from a type test, when it stops there: empty for an id that is no
string. -/
def CallBase.scannedId (TT : CallBase) : Option StringRef :=
  match TT.getArgOperand 1 with
  | some (.metadataAsValue (.string s)) => some s
  | some (.metadataAsValue (.other _)) => some []
  | _ => none

variable (M) in
/-- The scan of the users of a vptr stops at an id in some order of them. -/
def ScannedId (vptr : Value) (t : StringRef) : Prop :=
  ∃ TT, .callBase TT ∈ M.users vptr ∧ TT.isTypeTest = true ∧ TT.scannedId = some t

theorem findTypeId_cons {TT : CallBase} {t : StringRef} (htest : TT.isTypeTest = true)
    (hid : TT.scannedId = some t) (us : List User) : findTypeId (.callBase TT :: us) = t := by
  unfold CallBase.scannedId at hid
  rw [findTypeId, if_pos htest]
  cases harg : TT.getArgOperand 1 with
  | none =>
    rw [harg] at hid
    cases hid
  | some V =>
    rw [harg] at hid
    cases V with
    | metadataAsValue MD =>
      cases MD with
      | string s => exact Option.some.inj hid
      | other id => exact Option.some.inj hid
    | _ => cases hid

theorem findTypeId_skip {TT : CallBase} (h : TT.isTypeTest = true → TT.scannedId = none)
    (us : List User) : findTypeId (.callBase TT :: us) = findTypeId us := by
  unfold CallBase.scannedId at h
  by_cases htest : TT.isTypeTest = true
  · have hnone := h htest
    rw [findTypeId, if_pos htest]
    -- a type test without a metadata operand is passed over
    cases harg : TT.getArgOperand 1 with
    | none => rfl
    | some V =>
      rw [harg] at hnone
      cases V with
      | metadataAsValue MD =>
        cases MD with
        | string s => cases hnone
        | other id => cases hnone
      | _ => rfl
  · rw [findTypeId, if_neg htest]

/-- **The scan finds an id of a type test**, or there is none to stop at. -/
theorem findTypeId_spec (us : List User) :
    (∃ TT, .callBase TT ∈ us ∧ TT.isTypeTest = true ∧ TT.scannedId = some (findTypeId us)) ∨
      (∀ TT, .callBase TT ∈ us → TT.isTypeTest = true → TT.scannedId = none) ∧
        findTypeId us = [] := by
  induction us with
  | nil => exact Or.inr ⟨fun TT hTT => absurd hTT List.not_mem_nil, rfl⟩
  | cons U us ih =>
    -- a user the scan goes on behind leaves both cases as they are
    have hskip (heq : findTypeId (U :: us) = findTypeId us)
        (hU : ∀ TT, U = .callBase TT → TT.isTypeTest = true → TT.scannedId = none) :
        (∃ TT, .callBase TT ∈ U :: us ∧ TT.isTypeTest = true ∧
          TT.scannedId = some (findTypeId (U :: us))) ∨
        (∀ TT, .callBase TT ∈ U :: us → TT.isTypeTest = true → TT.scannedId = none) ∧
          findTypeId (U :: us) = [] := by
      rw [heq]
      rcases ih with ⟨TT, hTT, hrest⟩ | ⟨hnone, hnil⟩
      · exact Or.inl ⟨TT, List.mem_cons_of_mem _ hTT, hrest⟩
      · refine Or.inr ⟨?_, hnil⟩
        intro TT hTT htest
        rcases List.mem_cons.mp hTT with hhead | htail
        · exact hU TT hhead.symm htest
        · exact hnone TT htail htest
    cases U with
    | other id => exact hskip rfl (by simp)
    | callBase c =>
      by_cases hc : c.isTypeTest = true ∧ ∃ t, c.scannedId = some t
      · obtain ⟨htest, t, ht⟩ := hc
        refine Or.inl ⟨c, List.mem_cons_self, htest, ?_⟩
        rw [findTypeId_cons htest ht]
        exact ht
      · have hnone : c.isTypeTest = true → c.scannedId = none := by
          intro htest
          rw [Option.eq_none_iff_forall_ne_some]
          intro t ht
          exact hc ⟨htest, t, ht⟩
        apply hskip (findTypeId_skip hnone us)
        intro TT hTT
        rw [← User.callBase.inj hTT]
        exact hnone

/-- The ids found in two orders are ids the scan may stop at, or there are none. -/
theorem Reordered.slotTypeId_scanned (h : Reordered M M') (hL : L.IgnoresUseLists) (ptr : Value) :
    ScannedId M (L.stripAndAccumulateInBoundsConstantOffsets M ptr).1 (slotTypeId L M ptr) ∧
        ScannedId M (L.stripAndAccumulateInBoundsConstantOffsets M ptr).1 (slotTypeId L M' ptr) ∨
      slotTypeId L M' ptr = slotTypeId L M ptr := by
  unfold slotTypeId ScannedId
  rw [hL.strip M M' h]
  generalize (L.stripAndAccumulateInBoundsConstantOffsets M ptr).1 = vptr
  rcases findTypeId_spec (M.users vptr) with hfirst | ⟨hnone, hnil⟩
  · rcases findTypeId_spec (M'.users vptr) with ⟨TT', hTT', hrest'⟩ | ⟨hnone', -⟩
    · exact Or.inl ⟨hfirst, TT', (h.mem_users _ _).mp hTT', hrest'⟩
    · -- the users are the same ones, so one order cannot miss an id the other finds
      obtain ⟨TT, hTT, htest, hid⟩ := hfirst
      rw [hnone' TT ((h.mem_users _ _).mpr hTT) htest] at hid
      cases hid
  · rcases findTypeId_spec (M'.users vptr) with ⟨TT', hTT', htest', hid'⟩ | ⟨-, hnil'⟩
    · rw [hnone TT' ((h.mem_users _ _).mp hTT') htest'] at hid'
      cases hid'
    · exact Or.inr (hnil'.trans hnil.symm)

/-! ### Answers -/

variable (L M) in
/-- LLVM folds the slot at `k` from every address point for an id. -/
def SlotsOfFold (k : BitVec 64) (t : StringRef) : Prop :=
  ∀ AP, IsAddressPoint M t AP → L.constantFoldLoadFromConstPtr M AP.1 (k + AP.2) ≠ none

variable (L M) in
/-- The functions in the slots at `k` from the address points for an id. -/
def SlotHolds (k : BitVec 64) (t : StringRef) (F : Function) : Prop :=
  ∃ AP, IsAddressPoint M t AP ∧ InSlot L M k AP F

variable (L M) in
/-- Two ids lead to the same candidates: LLVM folds the slots for both or for neither, and then
they hold the same functions. -/
structure SameSlots (k : BitVec 64) (t t' : StringRef) : Prop where
  fold : SlotsOfFold L M k t ↔ SlotsOfFold L M k t'
  holds : SlotsOfFold L M k t → ∀ F, SlotHolds L M k t F ↔ SlotHolds L M k t' F

theorem SameSlots.refl (k : BitVec 64) (t : StringRef) : SameSlots L M k t t :=
  ⟨Iff.rfl, fun _ _ => Iff.rfl⟩

theorem SameSlots.symm {k : BitVec 64} {t t' : StringRef} (h : SameSlots L M k t t') :
    SameSlots L M k t' t :=
  ⟨h.fold.symm, fun hfold F => (h.holds (h.fold.mpr hfold) F).symm⟩

theorem SameSlots.trans {k : BitVec 64} {t t' t'' : StringRef} (h : SameSlots L M k t t')
    (h' : SameSlots L M k t' t'') : SameSlots L M k t t'' :=
  ⟨h.fold.trans h'.fold, fun hfold F => (h.holds hfold F).trans (h'.holds (h.fold.mp hfold) F)⟩

/-- What a query returns. -/
abbrev Answer := Except Abort ((Bool × List Function) × VCallCandidatesAnalyzer)

/-- Two queries stop with the same error, or return the same value and the same candidates. -/
def SameAnswer (x y : Answer) : Prop :=
  Except.Related (fun r r' => r.1.1 = r'.1.1 ∧ ∀ F, F ∈ r.1.2 ↔ F ∈ r'.1.2) x y

/-- **What a query for a loaded callee answers.** -/
theorem getVCallCandidates_load {A : VCallCandidatesAnalyzer} {CB : CallBase} {id : ℕ}
    {ptr : Value} (hA : Knows M A) (hload : CB.calledOperand = .load id ptr)
    (hwidth : M.indexTypeSizeInBits ptr = 64) :
    (∃ b C A', getVCallCandidates L M A CB [] = .ok ((b, C), A') ∧
      SlotsOfFold L M (slotOffset L M ptr) (slotTypeId L M ptr) ∧
      (∀ F, F ∈ C ↔ SlotHolds L M (slotOffset L M ptr) (slotTypeId L M ptr) F) ∧
      (b = true ↔ C ≠ [])) ∨
    getVCallCandidates L M A CB [] = .error .dynCastNull ∧
      ¬ SlotsOfFold L M (slotOffset L M ptr) (slotTypeId L M ptr) := by
  have hiff : (∃ r, getVCallCandidates L M A CB [] = .ok r) ↔ _ :=
    getVCallCandidates_eq_ok_iff hA
  have hslots : SlotsFold L M CB ↔ SlotsOfFold L M (slotOffset L M ptr) (slotTypeId L M ptr) :=
    (slotsFold_load_iff hload).trans (and_iff_right hwidth)
  rw [hslots] at hiff
  cases hquery : getVCallCandidates L M A CB [] with
  | ok r =>
    obtain ⟨⟨b, C⟩, A'⟩ := r
    obtain ⟨-, -, hC, hb⟩ := getVCallCandidates_ok hA hquery
    refine Or.inl ⟨b, C, A', rfl, ?_, ?_, hb⟩
    · intro AP hAP
      exact hiff.mp ⟨_, hquery⟩ ⟨_, AP, hAP⟩ AP hAP
    · intro F
      exact (hC F).trans (candidate_load_iff hload F)
  | error e =>
    have hnot : ¬ SlotsOfFold L M (slotOffset L M ptr) (slotTypeId L M ptr) := by
      intro hfold
      obtain ⟨r, hr⟩ := hiff.mpr fun _ => hfold
      rw [hquery] at hr
      cases hr
    refine Or.inr ⟨?_, hnot⟩
    rcases getVCallCandidates_error hquery with rfl | rfl
    · -- the width is the one assumed
      unfold getVCallCandidates at hquery
      rw [hload] at hquery
      dsimp only at hquery
      rw [if_neg (not_not.mpr hwidth)] at hquery
      split at hquery
      · cases hquery
      · split at hquery
        · next e he =>
          cases hquery
          obtain ⟨AP, -, s, -, hs⟩ :=
            List.exists_step_of_foldlM_error (fun _ => True) (by simp) trivial he
          cases slotCandidate_error hs
        · cases hquery
    · rfl

/-- **When a query for a loaded callee answers the same in both modules**: exactly when the ids
found lead to the same candidates. -/
theorem Reordered.sameAnswer_iff (h : Reordered M M') (hL : L.IgnoresUseLists)
    {A A' : VCallCandidatesAnalyzer} {CB : CallBase} {id : ℕ} {ptr : Value} (hA : Knows M A)
    (hA' : Knows M' A') (hload : CB.calledOperand = .load id ptr)
    (hwidth : M.indexTypeSizeInBits ptr = 64) :
    SameAnswer (getVCallCandidates L M A CB []) (getVCallCandidates L M' A' CB []) ↔
      SameSlots L M (slotOffset L M ptr) (slotTypeId L M ptr) (slotTypeId L M' ptr) := by
  have hwidth' : M'.indexTypeSizeInBits ptr = 64 := by
    rw [h.data]
    exact hwidth
  have hfold : ∀ k t, SlotsOfFold L M' k t ↔ SlotsOfFold L M k t := by
    intro k t
    simp only [SlotsOfFold, h.isAddressPoint, hL.fold M M' h]
  have hholds : ∀ k t F, SlotHolds L M' k t F ↔ SlotHolds L M k t F := by
    intro k t F
    simp only [SlotHolds, h.isAddressPoint, h.inSlot hL]
  have hspec := getVCallCandidates_load (L := L) hA hload hwidth
  have hspec' := getVCallCandidates_load (L := L) hA' hload hwidth'
  simp only [h.slotOffset_eq hL, hfold, hholds] at hspec'
  -- either query stops or answers, as the slots for the id it finds fold or not
  rcases hspec with ⟨b, C, A₁, hq, hf, hC, hb⟩ | ⟨hq, hf⟩
  · rcases hspec' with ⟨b', C', A₁', hq', hf', hC', hb'⟩ | ⟨hq', hf'⟩
    · rw [hq, hq']
      constructor
      · intro hsame
        obtain ⟨-, hsame⟩ := hsame
        refine ⟨iff_of_true hf hf', ?_⟩
        intro _ F
        rw [← hC, ← hC']
        exact hsame F
      · intro hsame
        have hmem : ∀ F, F ∈ C ↔ F ∈ C' := by
          intro F
          rw [hC, hC']
          exact hsame.holds hf F
        have hempty : C ≠ [] ↔ C' ≠ [] := by
          simp only [ne_eq, List.eq_nil_iff_forall_not_mem, hmem]
        refine ⟨?_, hmem⟩
        rw [Bool.eq_iff_iff]
        exact hb.trans (hempty.trans hb'.symm)
    · rw [hq, hq']
      refine iff_of_false (fun hsame => hsame) ?_
      intro hsame
      exact hf' (hsame.fold.mp hf)
  · rcases hspec' with ⟨b', C', A₁', hq', hf', -, -⟩ | ⟨hq', hf'⟩
    · rw [hq, hq']
      refine iff_of_false (fun hsame => hsame) ?_
      intro hsame
      exact hf (hsame.fold.mpr hf')
    · rw [hq, hq']
      exact iff_of_true rfl ⟨iff_of_false hf hf', fun hfold => absurd hfold hf⟩

/-- Another call is answered without a look at a use list. -/
theorem Reordered.sameAnswer_other (h : Reordered M M') {A A' : VCallCandidatesAnalyzer}
    {CB : CallBase} (hA : Knows M A) (hA' : Knows M' A')
    (hother : ∀ id ptr, CB.calledOperand = .load id ptr → M.indexTypeSizeInBits ptr ≠ 64) :
    SameAnswer (getVCallCandidates L M A CB []) (getVCallCandidates L M' A' CB []) := by
  have hsize : A'.typeIdCompatibleMap.size = 0 ↔ A.typeIdCompatibleMap.size = 0 := by
    rw [hA.empty, hA'.empty]
    simp only [h.isAddressPoint]
  have hwidth : M'.indexTypeSizeInBits = M.indexTypeSizeInBits := by rw [h.data]
  unfold getVCallCandidates
  rw [hwidth]
  by_cases hzero : A.typeIdCompatibleMap.size = 0
  · rw [if_pos hzero, if_pos (hsize.mpr hzero)]
    exact ⟨rfl, fun F => Iff.rfl⟩
  · rw [if_neg hzero, if_neg (mt hsize.mp hzero)]
    cases hop : CB.calledOperand with
    | load id ptr =>
      dsimp only
      rw [if_pos (hother id ptr hop), if_pos (hother id ptr hop)]
      exact rfl
    | _ => exact ⟨rfl, fun F => Iff.rfl⟩

variable (L M) in
/-- The type tests of the vptr of a call lead to the same candidates, where the call loads its
callee through a pointer of the width assumed. -/
def TestsAgreeAt (CB : CallBase) : Prop :=
  ∀ id ptr, CB.calledOperand = .load id ptr → M.indexTypeSizeInBits ptr = 64 →
    ∀ t t', ScannedId M (L.stripAndAccumulateInBoundsConstantOffsets M ptr).1 t →
      ScannedId M (L.stripAndAccumulateInBoundsConstantOffsets M ptr).1 t' →
        SameSlots L M (slotOffset L M ptr) t t'

variable (L M) in
/-- The type tests of every vptr lead to the same candidates. -/
def TestsAgree : Prop := ∀ CB ∈ M.callSites, TestsAgreeAt L M CB

/-- Where the type tests agree, the ids found in two orders lead to the same candidates. -/
theorem TestsAgreeAt.sameSlots {CB : CallBase} (hagree : TestsAgreeAt L M CB)
    (h : Reordered M M') (hL : L.IgnoresUseLists) {id : ℕ} {ptr : Value}
    (hload : CB.calledOperand = .load id ptr) (hwidth : M.indexTypeSizeInBits ptr = 64) :
    SameSlots L M (slotOffset L M ptr) (slotTypeId L M ptr) (slotTypeId L M' ptr) := by
  -- either order finds an id of a type test, or neither finds one
  rcases h.slotTypeId_scanned hL ptr with ⟨hid, hid'⟩ | heq
  · exact hagree id ptr hload hwidth _ _ hid hid'
  · rw [heq]
    exact .refl _ _

/-- **Where the type tests agree, a query answers the same in any order.** -/
theorem TestsAgreeAt.sameAnswer {CB : CallBase} (hagree : TestsAgreeAt L M CB)
    (h : Reordered M M') (hL : L.IgnoresUseLists) {A A' : VCallCandidatesAnalyzer}
    (hA : Knows M A) (hA' : Knows M' A') :
    SameAnswer (getVCallCandidates L M A CB []) (getVCallCandidates L M' A' CB []) := by
  by_cases hslot : ∃ id ptr, CB.calledOperand = .load id ptr ∧ M.indexTypeSizeInBits ptr = 64
  · obtain ⟨id, ptr, hload, hwidth⟩ := hslot
    rw [h.sameAnswer_iff hL hA hA' hload hwidth]
    exact hagree.sameSlots h hL hload hwidth
  · apply h.sameAnswer_other hA hA'
    intro id ptr hload hwidth
    exact hslot ⟨id, ptr, hload, hwidth⟩

theorem TestsAgreeAt.slotsFold_iff {CB : CallBase} (hagree : TestsAgreeAt L M CB)
    (h : Reordered M M') (hL : L.IgnoresUseLists) : SlotsFold L M' CB ↔ SlotsFold L M CB := by
  have hwidth : M'.indexTypeSizeInBits = M.indexTypeSizeInBits := by rw [h.data]
  unfold SlotsFold
  refine forall₂_congr fun id ptr => imp_congr_right fun hload => ?_
  rw [hwidth, h.slotOffset_eq hL]
  refine and_congr_right fun hwidth => ?_
  simp only [h.isAddressPoint, hL.fold M M' h]
  exact (hagree.sameSlots h hL hload hwidth).fold.symm

/-! ### Both passes -/

/-- The analyzers of the two modules have recorded the same, empty entries of the lookup apart. -/
structure SameAnalyzer (A A' : VCallCandidatesAnalyzer) : Prop where
  subclasses : A'.subclassesMap = A.subclassesMap
  keys : ∀ F, F ∈ A'.callerMap ↔ F ∈ A.callerMap
  callers : ∀ F U, U ∈ A'.callerMap.get F ↔ U ∈ A.callerMap.get F

/-- **The scan of a call keeps the analyzers alike**, where the query answers the same. -/
theorem Reordered.scanCall_related {A A' : VCallCandidatesAnalyzer} {CB : CallBase}
    (hA : Knows M A) (hA' : Knows M' A') (hsame : SameAnalyzer A A')
    (hquery : SameAnswer (getVCallCandidates L M A CB []) (getVCallCandidates L M' A' CB [])) :
    Except.Related (fun s s' => Knows M s ∧ Knows M' s' ∧ SameAnalyzer s s')
      (scanCall L M A CB) (scanCall L M' A' CB) := by
  rcases Except.Related.cases hquery with
    ⟨e, hq, hq'⟩ | ⟨⟨⟨b, C⟩, A₁⟩, ⟨⟨b', C'⟩, A₁'⟩, hq, hq', -, hmem⟩
  · unfold scanCall
    rw [hq, hq']
    exact rfl
  · -- equal candidates are recorded, in whatever order the queries give them
    have hscan := scanCall_eq hA hq
    have hscan' := scanCall_eq hA' hq'
    have hknows := (scanCall_records hA hscan).1
    have hknows' := (scanCall_records hA' hscan').1
    have hsub := getVCallCandidates_subclassesMap hq
    have hsub' := getVCallCandidates_subclassesMap hq'
    rw [hscan, hscan']
    refine ⟨hknows, hknows', ?_, ?_, ?_⟩
    · exact hsub'.trans (hsame.subclasses.trans hsub.symm)
    · intro F
      have hkeys := SetMap.mem_foldl_insertAt (fun G : Function => G)
        (fun _ => User.callBase CB) C A.callerMap F
      have hkeys' := SetMap.mem_foldl_insertAt (fun G : Function => G)
        (fun _ => User.callBase CB) C' A'.callerMap F
      rw [hkeys, hkeys']
      simp only [← hmem, hsame.keys]
    · intro F U
      have hget := SetMap.mem_get_foldl_insertAt (fun G : Function => G)
        (fun _ => User.callBase CB) C A.callerMap F U
      have hget' := SetMap.mem_get_foldl_insertAt (fun G : Function => G)
        (fun _ => User.callBase CB) C' A'.callerMap F U
      rw [hget, hget']
      simp only [← hmem, hsame.callers]

/-- **Both passes**: where every query a run asks answers the same, so does `analyze`. -/
theorem Reordered.analyze_related (h : Reordered M M')
    (hquery : ∀ CB, ComesTo L M CB → ∀ A A', Knows M A → Knows M' A' →
      SameAnswer (getVCallCandidates L M A CB []) (getVCallCandidates L M' A' CB []))
    (A : VCallCandidatesAnalyzer) :
    Except.Related SameAnalyzer (analyze L M A) (analyze L M' A) := by
  unfold analyze
  dsimp only
  have hglobals : M'.globals = M.globals := by rw [h.data]
  rw [hglobals, h.callSites_eq, h.collectGlobal_eq]
  -- the first pass is literally the same, the second is related call by call
  cases hcollect : M.globals.foldlM (collectGlobal M)
      { A with typeIdCompatibleMap := A.typeIdCompatibleMap.clear } with
  | error e => exact rfl
  | ok A₁ =>
    have hids : TypeIdsAccepted M := (collect_eq_ok_iff M _).mp ⟨A₁, hcollect⟩
    have hknows : Knows M A₁ := knows_of_collect rfl hcollect
    have hknows' : Knows M' A₁ := by
      refine ⟨fun t AP => ?_, ?_⟩
      · rw [hknows.points, h.isAddressPoint]
      · rw [hknows.empty]
        simp only [h.isAddressPoint]
    have hsame : SameAnalyzer A₁ A₁ := ⟨rfl, fun _ => Iff.rfl, fun _ _ => Iff.rfl⟩
    -- the slots of the calls scanned have folded, so a run comes to the next one
    have hrun : Except.Related (fun s s' => (Knows M s ∧ Knows M' s' ∧ SameAnalyzer s s') ∧
        ((∃ t AP, IsAddressPoint M t AP) → ∀ c ∈ M.callSites, SlotsFold L M c))
        (M.callSites.foldlM (scanCall L M) A₁) (M.callSites.foldlM (scanCall L M') A₁) := by
      apply List.foldlM_related_done (R := fun done s s' =>
        (Knows M s ∧ Knows M' s' ∧ SameAnalyzer s s') ∧
          ((∃ t AP, IsAddressPoint M t AP) → ∀ c ∈ done, SlotsFold L M c))
      · intro done CB rest s s' hsplit hs
        obtain ⟨⟨hs, hs', hsame⟩, hfold⟩ := hs
        have hcomes : ComesTo L M CB := ⟨hids, done, rest, hsplit, hfold⟩
        have hstep := Reordered.scanCall_related hs hs' hsame (hquery CB hcomes s s' hs hs')
        rcases hstep.cases with ⟨e, hscan, hscan'⟩ | ⟨s₁, s₁', hscan, hscan', hrel⟩
        · rw [hscan, hscan']
          exact rfl
        · rw [hscan, hscan']
          refine ⟨hrel, ?_⟩
          intro hpoint c hc
          rcases List.mem_append.mp hc with hdone | hlast
          · exact hfold hpoint c hdone
          · rw [List.mem_singleton.mp hlast]
            exact (scanCall_eq_ok_iff hs).mp ⟨s₁, hscan⟩ hpoint
      · exact ⟨⟨hknows, hknows', hsame⟩, fun _ c hc => absurd hc List.not_mem_nil⟩
    exact hrun.mono fun s s' hs => hs.1.2.2

/-! ### The graphs -/

/-- Two graphs are the same, as sets: the call sites expanded, the edges, the keys and the
verdict. -/
structure SameGraph (r r' : BuildState) : Prop where
  expanded : ∀ c, c ∈ r'.visited ↔ c ∈ r.visited
  edges : ∀ n n', Drawn r'.childsMap n n' ↔ Drawn r.childsMap n n'
  keys : ∀ n, n ∈ r'.childsMap ↔ n ∈ r.childsMap
  leaked : r'.leaked = r.leaked

theorem Reordered.symm (h : Reordered M M') : Reordered M' M :=
  ⟨h.data.symm, fun V => (h.users V).symm⟩

theorem Reordered.moreHandlers (h : Reordered M M') : MoreHandlers M M' id where
  callSites := by
    rw [h.callSites_eq, List.map_id]
  function _ := rfl
  operands _ := rfl
  kind CB := .same CB.kind

theorem SameAnalyzer.sameResolvers {A A' : VCallCandidatesAnalyzer} (h : SameAnalyzer A A')
    (S : ICallSolver) : SameResolvers id A A' S S where
  derivedFrom Base Derived := by
    rw [derivedFrom_result, derivedFrom_result, h.subclasses]
  callSites F := by simp
  callerCandidates F := by
    simp [getCallerCandidates_result, h.keys, h.callers]

/-- The second graph is a part of the first. -/
theorem Reordered.noWorse (h : Reordered M M') {A A' : VCallCandidatesAnalyzer}
    {S S' : ICallSolver} (hres : SameResolvers id A A' S S') (E : CurrentException)
    (ChildsMap ChildsMap' : ChildsMapType) :
    NoWorse id (buildChildsMap M E ChildsMap A S) (buildChildsMap M' E ChildsMap' A' S') := by
  have hcalls : MoreHandlers M M' id := h.moreHandlers
  apply NoWorse.of_exact (exact_buildChildsMap ChildsMap) (exact_buildChildsMap ChildsMap')
    fun _ => rfl
  · intro c' hc'
    exact Reached.of_moreHandlers (E := E) hcalls hres hc'
  · intro F c' hc'
    exact hcalls.exists_caller hres hc'

/-- **The graph does not depend on the order of use lists**, where the resolvers give equal
answers. -/
theorem Reordered.sameGraph (h : Reordered M M') {A A' : VCallCandidatesAnalyzer}
    {S S' : ICallSolver} (hres : SameResolvers id A A' S S') (E : CurrentException)
    (ChildsMap ChildsMap' : ChildsMapType) :
    SameGraph (buildChildsMap M E ChildsMap A S) (buildChildsMap M' E ChildsMap' A' S') := by
  -- each graph is a part of the other
  have hto := h.noWorse hres E ChildsMap ChildsMap'
  have hfrom := h.symm.noWorse hres.symm E ChildsMap' ChildsMap
  constructor
  · intro c
    constructor
    · intro hc
      obtain ⟨c', hc', rfl⟩ := hto.expanded c hc
      exact hc'
    · intro hc
      obtain ⟨c', hc', rfl⟩ := hfrom.expanded c hc
      exact hc'
  · exact fun n n' => ⟨hto.edges n n', hfrom.edges n n'⟩
  · exact fun n => ⟨hto.keys n, hfrom.keys n⟩
  · rw [Bool.eq_iff_iff]
    exact ⟨hto.leaked, hfrom.leaked⟩

/-! ### When the order matters -/

variable (L M M') in
/-- What the tool computes is the same for both modules. -/
structure OrderIrrelevant : Prop where
  /-- Every query answers the same, whenever it is asked. -/
  query : ∀ CB ∈ M.callSites, ∀ A A', Asked L M CB A → Asked L M' CB A' →
    SameAnswer (getVCallCandidates L M A CB []) (getVCallCandidates L M' A' CB [])
  /-- `analyze` records the same, or stops with the same error. -/
  passes : ∀ A, Except.Related SameAnalyzer (analyze L M A) (analyze L M' A)
  /-- Every exception has the same graph. -/
  graph : ∀ A B B', analyze L M A = .ok B → analyze L M' A = .ok B' →
    ∀ E ChildsMap ChildsMap', SameGraph
      (buildChildsMap M E ChildsMap B (ICallSolver.solve M .fresh))
      (buildChildsMap M' E ChildsMap' B' (ICallSolver.solve M' .fresh))

variable (M) in
/-- The module with a user of a value in front of its use list. -/
def Module.reorder (V : Value) (U : User) (hU : U ∈ M.users V) : Module where
  toModuleData := M.toModuleData
  users W := if W = V then U :: (M.users V).erase U else M.users W
  wf := M.wf
  users_calls W := by
    split
    · next h =>
      subst h
      exact ((List.perm_cons_erase hU).symm.filterMap _).trans (M.users_calls W)
    · exact M.users_calls W

theorem Module.reordered_reorder {V : Value} {U : User} (hU : U ∈ M.users V) :
    Reordered M (M.reorder V U hU) where
  data := rfl
  users W := by
    unfold reorder
    dsimp only
    split
    · next h =>
      subst h
      exact (List.perm_cons_erase hU).symm
    · exact List.Perm.refl _

theorem ScannedId.exists_reordered (hL : L.IgnoresUseLists) {ptr : Value} {t : StringRef}
    (h : ScannedId M (L.stripAndAccumulateInBoundsConstantOffsets M ptr).1 t) :
    ∃ M', Reordered M M' ∧ slotTypeId L M' ptr = t := by
  obtain ⟨TT, hTT, htest, hid⟩ := h
  refine ⟨_, Module.reordered_reorder hTT, ?_⟩
  unfold slotTypeId
  rw [hL.strip M _ (Module.reordered_reorder hTT)]
  unfold Module.reorder
  dsimp only
  rw [if_pos rfl]
  exact findTypeId_cons htest hid _

/-- **The type tests of the call a run comes to next agree**, where no order matters and the tests
of the calls before it agree. -/
theorem testsAgreeAt_of_orderIrrelevant (hL : L.IgnoresUseLists)
    (h : ∀ M', Reordered M M' → OrderIrrelevant L M M') (hids : TypeIdsAccepted M)
    {before after : List CallBase} {CB : CallBase} (hsplit : M.callSites = before ++ CB :: after)
    (hfold : (∃ t AP, IsAddressPoint M t AP) → ∀ c ∈ before, SlotsFold L M c)
    (hbefore : ∀ c ∈ before, TestsAgreeAt L M c) : TestsAgreeAt L M CB := by
  intro id ptr hload hwidth t t' ht ht'
  obtain ⟨A, hA⟩ := comesTo_iff.mp ⟨hids, before, after, hsplit, hfold⟩
  have hCB : CB ∈ M.callSites := by simp [hsplit]
  -- an order that finds an id leads to the candidates of the given order
  have hsame : ∀ t, ScannedId M (L.stripAndAccumulateInBoundsConstantOffsets M ptr).1 t →
      SameSlots L M (slotOffset L M ptr) (slotTypeId L M ptr) t := by
    intro t ht
    obtain ⟨M', hM', rfl⟩ := ht.exists_reordered hL
    -- the slots of the calls before fold in that order, too, so a run comes to the call
    have hcomes' : ComesTo L M' CB := by
      refine ⟨hM'.typeIdsAccepted hids, before, after, hM'.callSites_eq.trans hsplit, ?_⟩
      intro hpoint c hc
      rw [(hbefore c hc).slotsFold_iff hM' hL]
      simp only [hM'.isAddressPoint] at hpoint
      exact hfold hpoint c hc
    obtain ⟨A', hA'⟩ := comesTo_iff.mp hcomes'
    have hanswer := (h M' hM').query CB hCB A A' hA hA'
    exact (hM'.sameAnswer_iff hL hA.knows hA'.knows hload hwidth).mp hanswer
  exact (hsame t ht).symm.trans (hsame t' ht')

end

/-- **When the order of use lists does not matter**, for an LLVM that does not look at it: exactly
when, at every call a run comes to, all type tests of the vptr lead to the same candidates. -/
theorem orderIrrelevant_iff {L : LLVM} (hL : L.IgnoresUseLists) (M : Module) :
    (∀ M', Reordered M M' → OrderIrrelevant L M M') ↔
      ∀ CB, ComesTo L M CB → TestsAgreeAt L M CB := by
  constructor
  · intro h
    -- along the calls a run comes to, by induction on the part scanned
    have hscanned : TypeIdsAccepted M → ∀ before after, M.callSites = before ++ after →
        ((∃ t AP, IsAddressPoint M t AP) → ∀ c ∈ before, SlotsFold L M c) →
        ∀ c ∈ before, TestsAgreeAt L M c := by
      intro hids before
      induction before using List.reverseRecOn with
      | nil => exact fun _ _ _ c hc => absurd hc List.not_mem_nil
      | append_singleton before CB ih =>
        intro after hsplit hfold
        rw [List.append_assoc, List.singleton_append] at hsplit
        have hbefore := ih (CB :: after) hsplit fun hpoint c hc =>
          hfold hpoint c (List.mem_append_left _ hc)
        intro c hc
        rcases List.mem_append.mp hc with hc | hc
        · exact hbefore c hc
        · rw [List.mem_singleton.mp hc]
          exact testsAgreeAt_of_orderIrrelevant hL h hids hsplit
            (fun hpoint c hc => hfold hpoint c (List.mem_append_left _ hc)) hbefore
    intro CB hcomes
    obtain ⟨hids, before, after, hsplit, hfold⟩ := hcomes
    exact testsAgreeAt_of_orderIrrelevant hL h hids hsplit hfold
      (hscanned hids before (CB :: after) hsplit hfold)
  · intro hagree M' h
    have hpasses := h.analyze_related fun CB hcomes A A' hA hA' =>
      (hagree CB hcomes).sameAnswer h hL hA hA'
    constructor
    · intro CB _ A A' hA hA'
      exact (hagree CB hA.comesTo).sameAnswer h hL hA.knows hA'.knows
    · exact hpasses
    · intro A B B' hB hB' E ChildsMap ChildsMap'
      have hsame := hpasses A
      rw [hB, hB'] at hsame
      have hsolve : ICallSolver.solve M' .fresh = ICallSolver.solve M .fresh := by
        unfold ICallSolver.solve
        rw [h.callSites_eq]
      rw [hsolve]
      exact h.sameGraph (hsame.sameResolvers _) E ChildsMap ChildsMap'

/-! #### A vptr tested twice -/

namespace Sample

/-- A second test of the vptr, for the same type or for one without a name, whose id is no
string. -/
def secondTest (MD : Metadata) : CallBase := .ofCallee 15 main (entry main) (.function typeTest)
  [.other 2, .metadataAsValue MD]

/-- The sample module with a second test of the vptr. -/
def twiceTested (MD : Metadata) : ModuleData :=
  { data true with
    insts := fun BB =>
      if BB = entry main then
        [.callBase testCall, .callBase (secondTest MD), .callBase virtualCall]
      else (data true).insts BB }

/-- The second test is for the same type. -/
def sameTestModule : Module := .ofData (twiceTested (.string "_ZTS1B")) (by decide)

/-- The second test is for a type without a name. -/
def unnamedTestModule : Module := .ofData (twiceTested (.other 0)) (by decide)

/-- Two tests for the same type agree. -/
theorem testsAgree_sameTestModule : TestsAgree .documented sameTestModule := by
  intro CB hCB id ptr hload _ t t' ht ht'
  have hsites : sameTestModule.callSites =
      [throwSite, listedCall, testCall, secondTest (.string "_ZTS1B"), virtualCall] := by decide
  -- the only load is that of the virtual call
  have hptr : ptr = .other 2 := by
    rw [hsites] at hCB
    simp only [List.mem_cons, List.not_mem_nil, or_false] at hCB
    rcases hCB with rfl | rfl | rfl | rfl | rfl
    · cases hload
    · cases hload
    · cases hload
    · cases hload
    · exact (Value.load.inj hload).2.symm
  subst hptr
  have hone : ∀ t, ScannedId sameTestModule
      (LLVM.documented.stripAndAccumulateInBoundsConstantOffsets sameTestModule (.other 2)).1 t →
        t = "_ZTS1B".toList := by
    intro t ht
    obtain ⟨TT, hTT, -, hid⟩ := ht
    have husers : User.callBase TT ∈
        [User.callBase testCall, User.callBase (secondTest (.string "_ZTS1B"))] := hTT
    rcases List.mem_pair.mp husers with heq | heq
    · rw [User.callBase.inj heq] at hid
      exact (Option.some.inj hid).symm
    · rw [User.callBase.inj heq] at hid
      exact (Option.some.inj hid).symm
  rw [hone t ht, hone t' ht']
  exact .refl _ _

end Sample

/-- The order of two tests for the same type does not matter. -/
theorem orderIrrelevant_same_test :
    OrderIrrelevant .documented Sample.sameTestModule
      (Sample.sameTestModule.reorder (.other 2) (.callBase (Sample.secondTest (.string "_ZTS1B")))
        (by decide)) :=
  (orderIrrelevant_iff LLVM.documented_ignoresUseLists _).mpr
    (fun CB hcomes => Sample.testsAgree_sameTestModule CB hcomes.mem) _
    (Module.reordered_reorder _)

/-- With the test for the unnamed type in front the virtual call has no candidate. -/
theorem unnamed_test_in_front :
    ¬ ∀ M M', Reordered M M' → OrderIrrelevant .documented M M' := by
  intro h
  have huser : User.callBase (Sample.secondTest (.other 0)) ∈
      Sample.unnamedTestModule.users (.other 2) := by decide
  have hreordered := Module.reordered_reorder huser
  have hcall : Sample.virtualCall ∈ Sample.unnamedTestModule.callSites := by decide
  -- asked after `analyze`, in either order
  have hanswer := (h _ _ hreordered).query Sample.virtualCall hcall _ _
    (Or.inr ⟨hcall, @Analyzed.run _ _ .fresh _ rfl⟩)
    (Or.inr ⟨hreordered.callSites_eq ▸ hcall, @Analyzed.run _ _ .fresh _ rfl⟩)
  -- the vtable of `B` is found before, and no id at all after
  have hfound : true = false := hanswer.1
  cases hfound

end Ehgp
