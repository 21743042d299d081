import Ehgp.AddressPoints

/-!
# The callers `analyze` records for a virtual function

The second pass reads the address points through a lookup that may insert empty
entries, and so never changes what a type id is compatible with.  With the first
pass this gives the recorded callers exactly, and exactly the modules on which an
LLVM precondition is broken.

## Main definitions

* `Knows` — the analyzer holds the address points of the module.
* `Candidate` — a function in a slot a call may load.
* `SlotsFold` — the preconditions of LLVM hold for the slot a call loads.
* `SlotsRead` — LLVM folds that slot to what is stored there.
* `IsVirtualCaller` — a virtual call whose slot holds a function.

## Main results

* `scanCall_records`, `scanCall_eq_ok_iff` — the second pass, at one call.
* `analyze_callerMap`, `analyze_eq_ok_iff` — both passes.
* `callerMap_exactness` — **the callers recorded are the virtual calls.**
* `preconditions_iff` — **when no LLVM precondition is broken.**
-/

namespace Ehgp

open VCallCandidatesAnalyzer

/-! ### The second pass -/

/-- The analyzer holds the address points of the module.  Empty entries do not matter, but when
there is no address point there must be no entry either. -/
structure Knows (M : Module) (A : VCallCandidatesAnalyzer) : Prop where
  points : ∀ t AP, AP ∈ A.typeIdCompatibleMap.get t ↔ IsAddressPoint M t AP
  empty : A.typeIdCompatibleMap.size = 0 ↔ ∀ t AP, ¬ IsAddressPoint M t AP

/-- After the first pass the analyzer holds the address points of the module. -/
theorem knows_of_collect {M : Module} {A A' : VCallCandidatesAnalyzer}
    (hA : A.typeIdCompatibleMap = ∅) (h : M.globals.foldlM (collectGlobal M) A = .ok A') :
    Knows M A' := by
  have hadds := collect_adds h
  refine ⟨fun t AP => ?_, ?_⟩
  · rw [hadds.points, hA, SetMap.get_empty]
    simp
  · rw [SetMap.size_eq_zero]
    simp only [hadds.ids, hA, AList.notMem_empty, or_false, not_exists]

/-- A lookup that inserts an empty entry keeps what the analyzer holds, once it holds
something. -/
theorem Knows.subscript {M : Module} {A : VCallCandidatesAnalyzer} (hA : Knows M A)
    (hne : A.typeIdCompatibleMap.size ≠ 0) (t : StringRef) :
    Knows M { A with typeIdCompatibleMap := A.typeIdCompatibleMap.subscript t } := by
  refine ⟨fun t' AP => ?_, ?_⟩
  · rw [SetMap.get_subscript, hA.points]
  · refine iff_of_false (fun h => ?_) (fun h => hne (hA.empty.mpr h))
    exact SetMap.size_eq_zero.mp h t (SetMap.mem_subscript.mpr (Or.inl rfl))

/-- A defined function, other than the pure virtual one, is in the slot of an address point. -/
def InSlot (L : LLVM) (M : Module) (Offset : BitVec 64) (AP : AddressPoint) (F : Function) : Prop :=
  L.constantFoldLoadFromConstPtr M AP.1 (Offset + AP.2) = some (.function F) ∧
    M.isDeclaration F = false ∧ F.name ≠ "__cxa_pure_virtual".toList

/-- What one slot adds to the candidates. -/
theorem slotCandidate_ok {L : LLVM} {M : Module} {Offset : BitVec 64} {C C' : List Function}
    {AP : AddressPoint} (h : slotCandidate L M Offset C AP = .ok C') (F : Function) :
    F ∈ C' ↔ InSlot L M Offset AP F ∨ F ∈ C := by
  unfold slotCandidate at h
  unfold InSlot
  split at h
  · cases h
  · next G hG =>
    rw [hG, Option.some.injEq, Value.function.injEq]
    split at h
    · -- a declaration is no candidate
      next hdecl =>
      cases h
      refine (or_iff_right ?_).symm
      rintro ⟨rfl, hF, -⟩
      exact absurd hdecl (by rw [hF]; exact Bool.false_ne_true)
    · next hdecl =>
      split at h
      · next hname =>
        cases h
        rw [List.mem_append, List.mem_singleton, or_comm]
        refine or_congr_left ⟨?_, fun hF => hF.1.symm⟩
        rintro rfl
        exact ⟨rfl, Bool.not_eq_true _ ▸ hdecl, hname⟩
      · next hname =>
        cases h
        -- neither is the pure virtual function
        refine (or_iff_right ?_).symm
        rintro ⟨rfl, -, hF⟩
        exact hname hF
  · next V hV hne =>
    cases h
    refine (or_iff_right ?_).symm
    rintro ⟨hF, -, -⟩
    rw [hne] at hF
    exact hV F (Option.some.inj hF)

theorem slotCandidate_eq_ok_iff (L : LLVM) (M : Module) (Offset : BitVec 64) (C : List Function)
    (AP : AddressPoint) :
    (∃ C', slotCandidate L M Offset C AP = .ok C') ↔
      L.constantFoldLoadFromConstPtr M AP.1 (Offset + AP.2) ≠ none := by
  unfold slotCandidate
  split
  · next h => simp [h]
  · next F h =>
    refine iff_of_true ?_ (by simp [h])
    repeat' split
    all_goals exact ⟨_, rfl⟩
  · next V _ h => exact iff_of_true ⟨_, rfl⟩ (by simp [h])

theorem slotCandidate_error {L : LLVM} {M : Module} {Offset : BitVec 64} {C : List Function}
    {AP : AddressPoint} {e : Abort} (h : slotCandidate L M Offset C AP = .error e) :
    e = .dynCastNull := by
  unfold slotCandidate at h
  split at h
  · cases h
    rfl
  · repeat' split at h
    all_goals cases h
  · cases h

/-- The type id the tool reads off the users of the pointer under a slot address. -/
def slotTypeId (L : LLVM) (M : Module) (ptr : Value) : StringRef :=
  findTypeId (M.users (L.stripAndAccumulateInBoundsConstantOffsets M ptr).1)

/-- The offset of a slot from its address point. -/
def slotOffset (L : LLVM) (M : Module) (ptr : Value) : BitVec 64 :=
  (L.stripAndAccumulateInBoundsConstantOffsets M ptr).2

/-- A function the slot loaded by a call may hold. -/
def Candidate (L : LLVM) (M : Module) (CB : CallBase) (F : Function) : Prop :=
  ∃ id ptr, CB.calledOperand = .load id ptr ∧
    ∃ AP, IsAddressPoint M (slotTypeId L M ptr) AP ∧ InSlot L M (slotOffset L M ptr) AP F

/-- The preconditions of LLVM hold for the slot loaded by a call: the index width is the one
assumed, and every slot load folds to a constant. -/
def SlotsFold (L : LLVM) (M : Module) (CB : CallBase) : Prop :=
  ∀ id ptr, CB.calledOperand = .load id ptr → M.indexTypeSizeInBits ptr = 64 ∧
    ∀ AP, IsAddressPoint M (slotTypeId L M ptr) AP →
      L.constantFoldLoadFromConstPtr M AP.1 (slotOffset L M ptr + AP.2) ≠ none

/-- Folding the loads of the slots of a call reads what is stored: the result, if there is one, is a
function exactly where that function is stored. -/
def SlotsRead (L : LLVM) (M : Module) (CB : CallBase) : Prop :=
  ∀ id ptr, CB.calledOperand = .load id ptr → ∀ AP, IsAddressPoint M (slotTypeId L M ptr) AP →
    L.constantFoldLoadFromConstPtr M AP.1 (slotOffset L M ptr + AP.2) ≠ none → ∀ F,
      L.constantFoldLoadFromConstPtr M AP.1 (slotOffset L M ptr + AP.2) = some (.function F) ↔
        M.constantAt AP.1 (slotOffset L M ptr + AP.2) = some (.function F)

theorem candidate_load_iff {L : LLVM} {M : Module} {CB : CallBase} {id : ℕ} {ptr : Value}
    (hload : CB.calledOperand = .load id ptr) (F : Function) :
    Candidate L M CB F ↔
      ∃ AP, IsAddressPoint M (slotTypeId L M ptr) AP ∧ InSlot L M (slotOffset L M ptr) AP F := by
  constructor
  · intro h
    obtain ⟨id', ptr', hload', hslot⟩ := h
    rw [hload, Value.load.injEq] at hload'
    obtain ⟨-, rfl⟩ := hload'
    exact hslot
  · intro h
    exact ⟨id, ptr, hload, h⟩

theorem slotsFold_load_iff {L : LLVM} {M : Module} {CB : CallBase} {id : ℕ} {ptr : Value}
    (hload : CB.calledOperand = .load id ptr) :
    SlotsFold L M CB ↔ M.indexTypeSizeInBits ptr = 64 ∧
      ∀ AP, IsAddressPoint M (slotTypeId L M ptr) AP →
        L.constantFoldLoadFromConstPtr M AP.1 (slotOffset L M ptr + AP.2) ≠ none := by
  constructor
  · intro h
    exact h id ptr hload
  · intro h id' ptr' hload'
    rw [hload, Value.load.injEq] at hload'
    obtain ⟨-, rfl⟩ := hload'
    exact h

theorem slotsRead_documented (M : Module) (CB : CallBase) : SlotsRead .documented M CB := by
  intro id ptr _ AP _ hfold F
  obtain ⟨c, hc⟩ := Option.ne_none_iff_exists'.mp hfold
  rw [hc, (LLVM.documented_fold hc).2.2]

/-- **What a query answers**, and that it only adds an empty entry. -/
theorem getVCallCandidates_ok {L : LLVM} {M : Module} {A A' : VCallCandidatesAnalyzer}
    {CB : CallBase} {b : Bool} {C : List Function} (hA : Knows M A)
    (h : getVCallCandidates L M A CB [] = .ok ((b, C), A')) :
    Knows M A' ∧ A'.callerMap = A.callerMap ∧ (∀ F, F ∈ C ↔ Candidate L M CB F) ∧
      (b = true ↔ C ≠ []) := by
  unfold getVCallCandidates at h
  split at h
  · next hsize =>
    cases h
    -- without address points there is no candidate
    refine ⟨hA, rfl, fun F => iff_of_false List.not_mem_nil ?_, by simp⟩
    rintro ⟨id, ptr, -, AP, hAP, -⟩
    exact hA.empty.mp hsize _ AP hAP
  · next hsize =>
    split at h
    · next id ptr hload =>
      split at h
      · cases h
      · dsimp only at h
        split at h
        · cases h
        · next C' hC =>
          cases h
          refine ⟨hA.subscript hsize _, rfl, fun F => ?_, by simp⟩
          -- the loop adds what is in the slots, to an empty list
          have hmem : F ∈ C ↔ (∃ AP ∈ (A.typeIdCompatibleMap.subscript (slotTypeId L M ptr)).get
              (slotTypeId L M ptr), InSlot L M (slotOffset L M ptr) AP F) := by
            rw [List.foldlM_iff_exists hC fun AP _ s s' hstep => slotCandidate_ok hstep F]
            exact or_iff_left List.not_mem_nil
          rw [hmem, candidate_load_iff hload]
          simp only [SetMap.get_subscript, hA.points]
    · next hload =>
      cases h
      refine ⟨hA, rfl, fun F => iff_of_false List.not_mem_nil ?_, by simp⟩
      rintro ⟨id, ptr, hload', -⟩
      exact hload id ptr hload'

/-- **When a query breaks no precondition.** -/
theorem getVCallCandidates_eq_ok_iff {L : LLVM} {M : Module} {A : VCallCandidatesAnalyzer}
    {CB : CallBase} (hA : Knows M A) :
    (∃ r, getVCallCandidates L M A CB [] = .ok r) ↔
      ((∃ t AP, IsAddressPoint M t AP) → SlotsFold L M CB) := by
  unfold getVCallCandidates
  split
  · next hsize =>
    refine iff_of_true ⟨_, rfl⟩ ?_
    rintro ⟨t, AP, hAP⟩
    exact absurd hAP (hA.empty.mp hsize t AP)
  · next hsize =>
    have hpoint : ∃ t AP, IsAddressPoint M t AP := by
      by_contra hno
      exact hsize (hA.empty.mpr fun t AP hAP => hno ⟨t, AP, hAP⟩)
    rw [forall_prop_of_true hpoint]
    split
    · next id ptr hload =>
      rw [slotsFold_load_iff hload]
      split
      · next hwidth => exact iff_of_false (by simp) fun h => hwidth h.1
      · next hwidth =>
        rw [not_not] at hwidth
        rw [and_iff_right hwidth]
        -- the empty entry the lookup may insert adds no address point
        have hslots : ∀ AP, IsAddressPoint M (slotTypeId L M ptr) AP ↔
            AP ∈ (A.typeIdCompatibleMap.subscript (slotTypeId L M ptr)).get
              (slotTypeId L M ptr) := by
          intro AP
          rw [SetMap.get_subscript, hA.points]
        simp only [hslots]
        split
        · next e he =>
          refine iff_of_false (by simp) fun h => ?_
          obtain ⟨AP, hAP, s, -, hs⟩ :=
            List.exists_step_of_foldlM_error (fun _ => True) (by simp) trivial he
          obtain ⟨C', hC⟩ := (slotCandidate_eq_ok_iff L M _ s AP).mpr (h AP hAP)
          exact absurd (hs.symm.trans hC) (by simp)
        · next C hC =>
          refine iff_of_true ⟨_, rfl⟩ fun AP hAP => ?_
          obtain ⟨s, s', -, hs⟩ :=
            List.step_ok_of_foldlM_ok (fun _ => True) (by simp) trivial hC AP hAP
          exact (slotCandidate_eq_ok_iff L M _ s AP).mp ⟨s', hs⟩
    · next hload =>
      exact iff_of_true ⟨_, rfl⟩ fun id ptr h => absurd h (hload id ptr)

/-- A query stops at nothing but a broken precondition. -/
theorem getVCallCandidates_error {L : LLVM} {M : Module} {A : VCallCandidatesAnalyzer}
    {CB : CallBase} {e : Abort} (h : getVCallCandidates L M A CB [] = .error e) :
    e = .offsetWidth ∨ e = .dynCastNull := by
  unfold getVCallCandidates at h
  split at h
  · cases h
  · split at h
    · split at h
      · cases h
        exact Or.inl rfl
      · dsimp only at h
        split at h
        · next e' he =>
          cases h
          obtain ⟨AP, -, s, -, hs⟩ :=
            List.exists_step_of_foldlM_error (fun _ => True) (by simp) trivial he
          exact Or.inr (slotCandidate_error hs)
        · cases h
    · cases h

theorem foldl_insert_callerMap (CB : CallBase) (C : List Function) (A : VCallCandidatesAnalyzer) :
    C.foldl (fun A F => { A with callerMap := A.callerMap.insertAt F (.callBase CB) }) A =
      { A with callerMap := C.foldl (fun m F => m.insertAt F (.callBase CB)) A.callerMap } := by
  induction C generalizing A with
  | nil => rfl
  | cons F C ih => rw [List.foldl_cons, ih, List.foldl_cons]

theorem exists_query_of_scanCall {L : LLVM} {M : Module} {A A' : VCallCandidatesAnalyzer}
    {CB : CallBase} (h : scanCall L M A CB = .ok A') :
    ∃ r, getVCallCandidates L M A CB [] = .ok r := by
  unfold scanCall at h
  split at h
  · cases h
  · next hq => exact ⟨_, hq⟩
  · next hq => exact ⟨_, hq⟩

/-- What the scan of a call does with the answer. -/
theorem scanCall_eq {L : LLVM} {M : Module} {A A' : VCallCandidatesAnalyzer} {CB : CallBase}
    {b : Bool} {C : List Function} (hA : Knows M A)
    (h : getVCallCandidates L M A CB [] = .ok ((b, C), A')) :
    scanCall L M A CB = .ok
      { A' with callerMap := C.foldl (fun m F => m.insertAt F (.callBase CB)) A.callerMap } := by
  obtain ⟨-, hcallers, -, hb⟩ := getVCallCandidates_ok hA h
  unfold scanCall
  rw [h, ← hcallers]
  cases b with
  | true =>
    dsimp only
    rw [foldl_insert_callerMap]
  | false =>
    -- `false` is answered without candidates, so nothing is recorded either way
    have hC : C = [] := by
      by_contra hne
      cases hb.mpr hne
    rw [hC]
    rfl

/-- **What the second pass records at a call.** -/
theorem scanCall_records {L : LLVM} {M : Module} {A A' : VCallCandidatesAnalyzer} {CB : CallBase}
    (hA : Knows M A) (h : scanCall L M A CB = .ok A') :
    Knows M A' ∧ ∀ F U, U ∈ A'.callerMap.get F ↔
      U = .callBase CB ∧ Candidate L M CB F ∨ U ∈ A.callerMap.get F := by
  obtain ⟨⟨⟨b, C⟩, A₁⟩, hq⟩ := exists_query_of_scanCall h
  obtain ⟨hA₁, -, hC, -⟩ := getVCallCandidates_ok hA hq
  rw [scanCall_eq hA hq] at h
  cases h
  refine ⟨⟨hA₁.points, hA₁.empty⟩, fun F U => ?_⟩
  have hfold := SetMap.mem_get_foldl_insertAt (fun G : Function => G)
    (fun _ => User.callBase CB) C A.callerMap F U
  refine hfold.trans (or_congr_left ⟨?_, ?_⟩)
  · rintro ⟨G, hG, rfl, rfl⟩
    exact ⟨rfl, (hC _).mp hG⟩
  · rintro ⟨rfl, hF⟩
    exact ⟨F, (hC F).mpr hF, rfl, rfl⟩

/-- **When the second pass comes through at a call.** -/
theorem scanCall_eq_ok_iff {L : LLVM} {M : Module} {A : VCallCandidatesAnalyzer} {CB : CallBase}
    (hA : Knows M A) :
    (∃ A', scanCall L M A CB = .ok A') ↔
      ((∃ t AP, IsAddressPoint M t AP) → SlotsFold L M CB) := by
  rw [← getVCallCandidates_eq_ok_iff hA]
  constructor
  · rintro ⟨A', h⟩
    exact exists_query_of_scanCall h
  · rintro ⟨⟨⟨b, C⟩, A₁⟩, hq⟩
    exact ⟨_, scanCall_eq hA hq⟩

theorem scanCall_error {L : LLVM} {M : Module} {A : VCallCandidatesAnalyzer} {CB : CallBase}
    {e : Abort} (h : scanCall L M A CB = .error e) : e = .offsetWidth ∨ e = .dynCastNull := by
  unfold scanCall at h
  split at h
  · next e' he =>
    cases h
    exact getVCallCandidates_error he
  · cases h
  · cases h

/-! ### Both passes -/

/-- `analyze`, with the calls scanned in a given order. -/
def analyzeIn (calls : List CallBase) (L : LLVM) (M : Module) (A : VCallCandidatesAnalyzer) :
    Except Abort VCallCandidatesAnalyzer := do
  let A := { A with typeIdCompatibleMap := A.typeIdCompatibleMap.clear }
  let A ← M.globals.foldlM (collectGlobal M) A
  calls.foldlM (scanCall L M) A

theorem analyze_eq_analyzeIn (L : LLVM) (M : Module) (A : VCallCandidatesAnalyzer) :
    analyze L M A = analyzeIn M.callSites L M A := rfl

/-- **What `analyze` records**: the calls scanned, under their candidates. -/
theorem analyze_callerMap {L : LLVM} {M : Module} {calls : List CallBase}
    {A A' : VCallCandidatesAnalyzer} (h : analyzeIn calls L M A = .ok A') (F : Function)
    (U : User) :
    U ∈ A'.callerMap.get F ↔
      (∃ CB ∈ calls, U = .callBase CB ∧ Candidate L M CB F) ∨ U ∈ A.callerMap.get F := by
  obtain ⟨A₁, h₁, h₂⟩ := Except.bind_eq_ok.mp h
  have hknows := knows_of_collect rfl h₁
  have hcallers : A₁.callerMap = A.callerMap := (collect_adds h₁).callers
  have hrun := List.foldlM_ok_induction (P := fun done s => Knows M s ∧ ∀ F U,
    U ∈ s.callerMap.get F ↔
      (∃ CB ∈ done, U = .callBase CB ∧ Candidate L M CB F) ∨ U ∈ A.callerMap.get F) h₂
    ⟨hknows, fun F U => by simp [hcallers]⟩ fun done CB s s' _ hs hstep => ?_
  · exact hrun.2 F U
  · obtain ⟨hs', hrec⟩ := scanCall_records hs.1 hstep
    refine ⟨hs', fun F U => ?_⟩
    rw [hrec, hs.2]
    simp only [List.mem_append, List.mem_singleton, or_and_right, exists_or, exists_eq_left,
      or_assoc, or_left_comm]

/-- A fresh analyzer has recorded nothing else. -/
theorem callerMap_of_fresh {L : LLVM} {M : Module} {calls : List CallBase}
    {A : VCallCandidatesAnalyzer} (h : analyzeIn calls L M .fresh = .ok A) {CB : CallBase}
    {F : Function} : .callBase CB ∈ A.callerMap.get F ↔ CB ∈ calls ∧ Candidate L M CB F := by
  rw [analyze_callerMap h]
  simp only [fresh, SetMap.get_empty, List.not_mem_nil, or_false, User.callBase.injEq]
  constructor
  · rintro ⟨c, hc, rfl, hF⟩
    exact ⟨hc, hF⟩
  · rintro ⟨hCB, hF⟩
    exact ⟨CB, hCB, rfl, hF⟩

private theorem knows_step {L : LLVM} {M : Module} {calls : List CallBase} :
    ∀ CB ∈ calls, ∀ s s', Knows M s → scanCall L M s CB = .ok s' → Knows M s' :=
  fun _ _ _ _ hs h => (scanCall_records hs h).1

/-- An analyzer that comes out of the first pass and the scan of some calls holds the address
points. -/
theorem knows_of_analyzeIn {L : LLVM} {M : Module} {calls : List CallBase}
    {A A' : VCallCandidatesAnalyzer} (h : analyzeIn calls L M A = .ok A') : Knows M A' := by
  obtain ⟨A₁, h₁, h₂⟩ := Except.bind_eq_ok.mp h
  refine List.foldlM_ok_induction (P := fun _ s => Knows M s) h₂ (knows_of_collect rfl h₁) ?_
  intro done CB s s' _ hs hstep
  exact (scanCall_records hs hstep).1

/-- **When `analyze` comes through.** -/
theorem analyze_eq_ok_iff (L : LLVM) (M : Module) (calls : List CallBase)
    (A : VCallCandidatesAnalyzer) :
    (∃ A', analyzeIn calls L M A = .ok A') ↔
      TypeIdsAccepted M ∧
        ((∃ t AP, IsAddressPoint M t AP) → ∀ CB ∈ calls, SlotsFold L M CB) := by
  unfold analyzeIn
  rw [← collect_eq_ok_iff M { A with typeIdCompatibleMap := A.typeIdCompatibleMap.clear }]
  constructor
  · rintro ⟨A', h⟩
    obtain ⟨A₁, h₁, h₂⟩ := Except.bind_eq_ok.mp h
    refine ⟨⟨A₁, h₁⟩, fun hpoint CB hCB => ?_⟩
    -- the scan came to each call with the address points, and through it
    obtain ⟨s, s', hs, hstep⟩ := List.step_ok_of_foldlM_ok (Knows M) knows_step
      (knows_of_collect rfl h₁) h₂ CB hCB
    exact (scanCall_eq_ok_iff hs).mp ⟨s', hstep⟩ hpoint
  · rintro ⟨⟨A₁, h₁⟩, hfold⟩
    have hscan : ∀ CB ∈ calls, ∀ s, Knows M s → ∃ s', scanCall L M s CB = .ok s' ∧ Knows M s' := by
      intro CB hCB s hs
      have hiff : (∃ s', scanCall L M s CB = .ok s') ↔ _ := scanCall_eq_ok_iff hs
      obtain ⟨s', hs'⟩ := hiff.mpr fun hpoint => hfold hpoint CB hCB
      exact ⟨s', hs', (scanCall_records hs hs').1⟩
    obtain ⟨A', h', -⟩ := List.foldlM_eq_ok (Knows M) hscan (knows_of_collect rfl h₁)
    exact ⟨A', Except.bind_eq_ok.mpr ⟨A₁, h₁, h'⟩⟩

/-- What `analyze` stops at: an unexpected type id in the first pass, a broken precondition in
the second. -/
theorem analyze_error {L : LLVM} {M : Module} {calls : List CallBase}
    {A : VCallCandidatesAnalyzer} {e : Abort} (h : analyzeIn calls L M A = .error e) :
    ¬ TypeIdsAccepted M ∧ e = .unreachableTypeId ∨
      TypeIdsAccepted M ∧ (e = .offsetWidth ∨ e = .dynCastNull) := by
  have hiff := collect_eq_ok_iff M { A with typeIdCompatibleMap := A.typeIdCompatibleMap.clear }
  rcases Except.bind_eq_error.mp h with h₁ | ⟨A₁, h₁, h₂⟩
  · refine Or.inl ⟨fun hids => ?_, collect_error h₁⟩
    obtain ⟨A', h'⟩ := hiff.mpr hids
    exact absurd (h₁.symm.trans h') (by simp)
  · obtain ⟨CB, -, s, -, hs⟩ := List.exists_step_of_foldlM_error (Knows M) knows_step
      (knows_of_collect rfl h₁) h₂
    exact Or.inr ⟨hiff.mp ⟨A₁, h₁⟩, scanCall_error hs⟩

/-! ### The callers recorded -/

/-- A value has an `llvm.type.test` user with the string id `t`. -/
def TypeTested (M : Module) (vptr : Value) (t : StringRef) : Prop :=
  ∃ TT, .callBase TT ∈ M.users vptr ∧ TT.isTypeTest = true ∧
    TT.getArgOperand 1 = some (.metadataAsValue (.string t))

/-- The `llvm.type.test` users of a value. -/
def typeTests (M : Module) (vptr : Value) : List CallBase :=
  (callBases (M.users vptr)).filter (·.isTypeTest)

/-- An id the scan of the users finds is tested. -/
theorem exists_of_findTypeId {us : List User} (h : findTypeId us ≠ []) :
    ∃ TT, .callBase TT ∈ us ∧ TT.isTypeTest = true ∧
      TT.getArgOperand 1 = some (.metadataAsValue (.string (findTypeId us))) := by
  induction us with
  | nil => exact absurd rfl h
  | cons U us ih =>
    cases U with
    | other id =>
      obtain ⟨TT, hTT, hrest⟩ := ih h
      exact ⟨TT, List.mem_cons_of_mem _ hTT, hrest⟩
    | callBase c =>
      have hlater (heq : findTypeId (.callBase c :: us) = findTypeId us) :
          ∃ TT, .callBase TT ∈ User.callBase c :: us ∧ TT.isTypeTest = true ∧
            TT.getArgOperand 1 =
              some (.metadataAsValue (.string (findTypeId (.callBase c :: us)))) := by
        rw [heq] at h ⊢
        obtain ⟨TT, hTT, hrest⟩ := ih h
        exact ⟨TT, List.mem_cons_of_mem _ hTT, hrest⟩
      by_cases hc : c.isTypeTest = true
      · cases hop : c.getArgOperand 1 with
        | none => exact hlater (by simp [findTypeId, hc, hop])
        | some V =>
          cases V with
          | metadataAsValue MD =>
            cases MD with
            | string s =>
              refine ⟨c, List.mem_cons_self, hc, ?_⟩
              rw [hop]
              simp [findTypeId, hc, hop]
            | other id => exact absurd (by simp [findTypeId, hc, hop]) h
          | _ => exact hlater (by simp [findTypeId, hc, hop])
      · exact hlater (by simp [findTypeId, hc])

/-- Where a value has one type test, the scan finds its id. -/
theorem findTypeId_eq {us : List User} (hone : ((callBases us).filter (·.isTypeTest)).length ≤ 1)
    {TT : CallBase} {t : StringRef} (hTT : .callBase TT ∈ us) (htest : TT.isTypeTest = true)
    (hid : TT.getArgOperand 1 = some (.metadataAsValue (.string t))) : findTypeId us = t := by
  induction us with
  | nil => exact absurd hTT List.not_mem_nil
  | cons U us ih =>
    cases U with
    | other id =>
      rw [List.mem_cons] at hTT
      exact ih hone (hTT.resolve_left (by simp))
    | callBase c =>
      rw [callBases_cons, List.filter_cons] at hone
      rw [List.mem_cons, User.callBase.injEq] at hTT
      by_cases hc : c.isTypeTest = true
      · -- a second type test would make two of them
        have hnone : TT = c := by
          refine hTT.resolve_right fun hmem => ?_
          have hmem' : TT ∈ (callBases us).filter (·.isTypeTest) :=
            List.mem_filter.mpr ⟨mem_callBases.mpr hmem, htest⟩
          have hpos := List.length_pos_of_mem hmem'
          rw [if_pos hc, List.length_cons] at hone
          omega
        subst hnone
        simp [findTypeId, htest, hid]
      · have hne : TT ≠ c := fun h => hc (h ▸ htest)
        rw [if_neg hc] at hone
        rw [← ih hone (hTT.resolve_left hne)]
        simp [findTypeId, hc]

/-- A virtual call whose slot holds `F`: the call loads its callee from an offset of a pointer
tested for a type id, and a vtable with an entry for that id stores `F` there. -/
def IsVirtualCaller (L : LLVM) (M : Module) (CB : CallBase) (F : Function) : Prop :=
  CB ∈ M.callSites ∧ ∃ id ptr, CB.calledOperand = .load id ptr ∧
    ∃ t, TypeTested M (L.stripAndAccumulateInBoundsConstantOffsets M ptr).1 t ∧
      ∃ V o, IsAddressPoint M t (V, o) ∧
        M.constantAt V ((L.stripAndAccumulateInBoundsConstantOffsets M ptr).2 + o) =
          some (.function F) ∧
        M.isDeclaration F = false ∧ F.name ≠ "__cxa_pure_virtual".toList

/-- What the exactness of the caller map rests on. -/
structure CallerMapAssumptions (L : LLVM) (M : Module) : Prop where
  /-- Every string type id of a vtable, member pointers apart, starts with `_ZTS`. -/
  typeIds : TypeIdsAccepted M
  /-- Every vptr has at most one `llvm.type.test` user. -/
  oneTest : ∀ CB ∈ M.callSites, ∀ id ptr, CB.calledOperand = .load id ptr →
    (typeTests M (L.stripAndAccumulateInBoundsConstantOffsets M ptr).1).length ≤ 1
  /-- The index width is 64. -/
  width : ∀ V, M.indexTypeSizeInBits V = 64
  /-- Every slot load folds to a constant. -/
  folds : ∀ CB ∈ M.callSites, ∀ id ptr, CB.calledOperand = .load id ptr →
    ∀ t, TypeTested M (L.stripAndAccumulateInBoundsConstantOffsets M ptr).1 t →
      ∀ V o, IsAddressPoint M t (V, o) → L.constantFoldLoadFromConstPtr M V
        ((L.stripAndAccumulateInBoundsConstantOffsets M ptr).2 + o) ≠ none
  /-- Constant folding of a slot load returns the function stored at that offset. -/
  reads : ∀ CB ∈ M.callSites, SlotsRead L M CB

namespace CallerMapAssumptions

variable {L : LLVM} {M : Module}

/-- The tool finds the id a vptr is tested for, wherever that id has an address point. -/
theorem slotTypeId_iff (h : CallerMapAssumptions L M) {CB : CallBase} (hCB : CB ∈ M.callSites)
    {id : ℕ} {ptr : Value} (hload : CB.calledOperand = .load id ptr) {t : StringRef}
    {AP : AddressPoint} (hAP : IsAddressPoint M t AP) :
    slotTypeId L M ptr = t ↔
      TypeTested M (L.stripAndAccumulateInBoundsConstantOffsets M ptr).1 t := by
  constructor
  · rintro rfl
    -- an address point has a `_ZTS` id, so the id found is not the empty one
    refine exists_of_findTypeId fun hnil => ?_
    have hpre := h.typeIds _ AP hAP
    rw [slotTypeId, hnil, List.prefix_nil] at hpre
    exact absurd hpre (by decide)
  · rintro ⟨TT, hTT, htest, hid⟩
    exact findTypeId_eq (h.oneTest CB hCB id ptr hload) hTT htest hid

/-- Under the assumptions the candidates of a call are the functions its slot holds. -/
theorem candidate_iff (h : CallerMapAssumptions L M) {CB : CallBase} (hCB : CB ∈ M.callSites)
    (F : Function) : Candidate L M CB F ↔ IsVirtualCaller L M CB F := by
  unfold Candidate IsVirtualCaller InSlot
  rw [and_iff_right hCB]
  refine exists_congr fun id => exists_congr fun ptr => and_congr_right fun hload => ?_
  have hread : ∀ V o, IsAddressPoint M (slotTypeId L M ptr) (V, o) →
      L.constantFoldLoadFromConstPtr M V (slotOffset L M ptr + o) ≠ none →
      (L.constantFoldLoadFromConstPtr M V (slotOffset L M ptr + o) = some (.function F) ↔
        M.constantAt V (slotOffset L M ptr + o) = some (.function F)) := by
    intro V o hAP hfold
    exact h.reads CB hCB id ptr hload (V, o) hAP hfold F
  constructor
  · rintro ⟨⟨V, o⟩, hAP, hslot, hF⟩
    have hstored := (hread V o hAP (by rw [hslot]; exact Option.some_ne_none _)).mp hslot
    exact ⟨_, (h.slotTypeId_iff hCB hload hAP).mp rfl, V, o, hAP, hstored, hF⟩
  · rintro ⟨t, ht, V, o, hAP, hstored, hF⟩
    obtain rfl := (h.slotTypeId_iff hCB hload hAP).mpr ht
    have hfold := h.folds CB hCB id ptr hload _ ht V o hAP
    exact ⟨(V, o), hAP, (hread V o hAP hfold).mpr hstored, hF⟩

theorem slotsFold (h : CallerMapAssumptions L M) {CB : CallBase} (hCB : CB ∈ M.callSites) :
    SlotsFold L M CB := fun id ptr hload =>
  ⟨h.width ptr, fun AP hAP => h.folds CB hCB id ptr hload _
    ((h.slotTypeId_iff hCB hload hAP).mp rfl) AP.1 AP.2 hAP⟩

end CallerMapAssumptions

/-- **Virtual caller map exactness.**  One run of a fresh analyzer comes through and records
exactly the virtual calls of a function, in whatever order the calls are scanned. -/
theorem callerMap_exactness {L : LLVM} {M : Module} (h : CallerMapAssumptions L M) :
    (∃ A, analyze L M .fresh = .ok A ∧
      ∀ CB F, .callBase CB ∈ A.callerMap.get F ↔ IsVirtualCaller L M CB F) ∧
    ∀ calls, calls.Perm M.callSites → ∃ A, analyzeIn calls L M .fresh = .ok A ∧
      ∀ CB F, .callBase CB ∈ A.callerMap.get F ↔ IsVirtualCaller L M CB F := by
  have hany : ∀ calls, calls.Perm M.callSites → ∃ A, analyzeIn calls L M .fresh = .ok A ∧
      ∀ CB F, .callBase CB ∈ A.callerMap.get F ↔ IsVirtualCaller L M CB F := by
    intro calls hperm
    obtain ⟨A, hA⟩ := (analyze_eq_ok_iff L M calls .fresh).mpr
      ⟨h.typeIds, fun _ CB hCB => h.slotsFold (hperm.mem_iff.mp hCB)⟩
    refine ⟨A, hA, fun CB F => ?_⟩
    rw [callerMap_of_fresh hA, hperm.mem_iff]
    constructor
    · rintro ⟨hCB, hF⟩
      exact (h.candidate_iff hCB F).mp hF
    · intro hF
      exact ⟨hF.1, (h.candidate_iff hF.1 F).mpr hF⟩
  exact ⟨hany M.callSites (List.Perm.refl _), hany⟩

/-! #### A module with one virtual call

`B::f` throws, `main` calls it through a vtable of `B`, and `g` calls it through a pointer whose
`!callees` node lists it. -/

namespace Sample

/-- The virtual function. -/
def f : Function := .ofName 0 "_ZN1B1fEv"

/-- A function that calls it through a pointer. -/
def g : Function := .ofName 1 "_Z1gv"

/-- The function with the virtual call. -/
def main : Function := .ofName 2 "main"

/-- The runtime function that throws. -/
def cxaThrow : Function := .ofName 3 "__cxa_throw"

/-- The intrinsic that tests a vptr. -/
def typeTest : Function := { Function.ofName 4 "llvm.type.test" with
  noUnwind := true, intrinsicID := .typeTest }

/-- The type info of the exception. -/
def typeInfoA : GlobalVariable :=
  ⟨5, "_ZTI1A", .linkOnceODR, true, false, .visibilityPublic, []⟩

/-- The vtable of `B`, constant or not. -/
def vtableB (isConstant : Bool) : GlobalVariable :=
  ⟨6, "_ZTV1B", .linkOnceODR, isConstant, false, .visibilityLinkageUnit,
    [⟨16, .string "_ZTS1B"⟩]⟩

/-- The block of a function without landing pads. -/
def entry (F : Function) : BasicBlock := ⟨F.id, none⟩

/-- The call that throws, from `f`. -/
def throwSite : CallBase :=
  .ofCallee 10 f (entry f) (.function cxaThrow) [.other 0, .globalVariable typeInfoA, .null]

/-- The indirect call in `g`. -/
def listedCall : CallBase := { CallBase.ofCallee 11 g (entry g) (.other 1) [] with
  callees := some [some (.function f)] }

/-- The type test of the vptr in `main`. -/
def testCall : CallBase := .ofCallee 12 main (entry main) (.function typeTest)
  [.other 2, .metadataAsValue (.string "_ZTS1B")]

/-- The virtual call, through a slot at the vptr. -/
def virtualCall : CallBase := .ofCallee 13 main (entry main) (.load 3 (.other 2)) [.other 4]

/-- The calls of the module, and the initializer of the vtable. -/
def data (isConstant : Bool) : ModuleData :=
  { ModuleData.ofCalls [f, g, main, cxaThrow, typeTest] [typeInfoA, vtableB isConstant]
      [throwSite, listedCall, testCall, virtualCall] with
    initializer := fun GV =>
      if GV = vtableB isConstant then
        some ⟨24, none, [(8, .globalVariable typeInfoA), (16, .function f)], by decide⟩
      else none }

/-- The module with a constant vtable. -/
def virtualModule : Module := .ofData (data true) (by decide)

/-- The module with a vtable that is not constant. -/
def mutableModule : Module := .ofData (data false) (by decide)

theorem isAddressPoint_virtualModule {t : StringRef} {AP : AddressPoint} :
    IsAddressPoint virtualModule t AP ↔ t = "_ZTS1B".toList ∧ AP = (vtableB true, 16) := by
  constructor
  · rintro ⟨hmem, hvis, -, hentry, -⟩
    have hglobals : AP.1 = typeInfoA ∨ AP.1 = vtableB true := by
      simpa [virtualModule, Module.ofData, data, ModuleData.ofCalls] using hmem
    rcases hglobals with h | h
    · exact absurd (h ▸ rfl) hvis
    · rw [h] at hentry
      obtain ⟨ho, ht⟩ := TypeNode.mk.inj (List.mem_singleton.mp hentry)
      exact ⟨Metadata.string.inj ht, Prod.ext h ho⟩
  · rintro ⟨rfl, rfl⟩
    exact ⟨by decide, by decide, by decide, by decide, by decide⟩

/-- The only load-based call is the virtual one. -/
theorem load_virtualModule {CB : CallBase} (hCB : CB ∈ virtualModule.callSites) {id : ℕ}
    {ptr : Value} (h : CB.calledOperand = .load id ptr) : ptr = .other 2 := by
  have hcases : CB = throwSite ∨ CB = listedCall ∨ CB = testCall ∨ CB = virtualCall := by
    have hsites : virtualModule.callSites = [throwSite, listedCall, testCall, virtualCall] := by
      decide
    rw [hsites] at hCB
    simpa using hCB
  rcases hcases with rfl | rfl | rfl | rfl
  · cases h
  · cases h
  · cases h
  · exact (Value.load.inj h).2.symm

theorem assumptions_virtualModule : CallerMapAssumptions .documented virtualModule where
  typeIds t AP hAP := by
    rw [(isAddressPoint_virtualModule.mp hAP).1]
    decide
  oneTest CB hCB id ptr h := by
    rw [load_virtualModule hCB h]
    decide
  width V := rfl
  folds CB hCB id ptr h t _ V o hAP := by
    rw [load_virtualModule hCB h]
    obtain ⟨rfl, rfl⟩ := Prod.mk.inj (isAddressPoint_virtualModule.mp hAP).2
    decide
  reads _ _ := slotsRead_documented _ _

end Sample

/-- In the sample module the caller recorded for `B::f` is the virtual call in `main`. -/
theorem callerMap_exactness_sample :
    ∃ A, analyze .documented Sample.virtualModule .fresh = .ok A ∧
      .callBase Sample.virtualCall ∈ A.callerMap.get Sample.f := by
  obtain ⟨⟨A, hA, hexact⟩, -⟩ := callerMap_exactness Sample.assumptions_virtualModule
  refine ⟨A, hA, (hexact _ _).mpr ⟨by decide, 3, .other 2, rfl, "_ZTS1B".toList, ?_⟩⟩
  exact ⟨⟨Sample.testCall, by decide, rfl, rfl⟩, Sample.vtableB true, 16,
    Sample.isAddressPoint_virtualModule.mpr ⟨rfl, rfl⟩, by decide, by decide, by decide⟩

/-! ### Broken preconditions -/

/-- **When no LLVM precondition is broken.**  A run of `analyze` passes a null constant to
`dyn_cast` or an offset of the wrong width exactly when it gets past the type ids, some vtable
has an address point, and a slot some call loads does not fold or is addressed by a pointer of
another index width. -/
theorem preconditions_iff (L : LLVM) (M : Module) (A : VCallCandidatesAnalyzer) :
    (∀ e, analyze L M A = .error e → e ≠ .dynCastNull ∧ e ≠ .offsetWidth) ↔
      (TypeIdsAccepted M → (∃ t AP, IsAddressPoint M t AP) →
        ∀ CB ∈ M.callSites, SlotsFold L M CB) := by
  rw [analyze_eq_analyzeIn]
  have hok := analyze_eq_ok_iff L M M.callSites A
  cases h : analyzeIn M.callSites L M A with
  | ok A' =>
    refine iff_of_true (fun e he => absurd he nofun) fun _ => ?_
    exact (hok.mp ⟨A', h⟩).2
  | error e =>
    -- a run that stops is not one that comes through
    have hfail : ¬ (TypeIdsAccepted M ∧ ((∃ t AP, IsAddressPoint M t AP) →
        ∀ CB ∈ M.callSites, SlotsFold L M CB)) := by
      rw [← hok, h]
      rintro ⟨A', hA'⟩
      cases hA'
    rcases analyze_error h with ⟨hids, rfl⟩ | ⟨hids, he⟩
    · refine iff_of_true (fun e he => ?_) fun hacc => absurd hacc hids
      cases he
      exact ⟨nofun, nofun⟩
    · refine iff_of_false (fun hall => ?_) fun hall => hfail ⟨hids, hall hids⟩
      obtain ⟨h₁, h₂⟩ := hall e rfl
      exact he.elim h₂ h₁

/-- A vtable that is not constant stops the tool: LLVM does not fold the load of its slot, and
`dyn_cast` is given the null result. -/
theorem preconditions_broken_by_mutable_vtable :
    ¬ ∀ e, analyze .documented Sample.mutableModule .fresh = .error e →
      e ≠ .dynCastNull ∧ e ≠ .offsetWidth := by
  intro h
  have hrun : analyze .documented Sample.mutableModule .fresh = .error .dynCastNull := rfl
  exact (h _ hrun).1 rfl

end Ehgp
