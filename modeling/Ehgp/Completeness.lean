import Ehgp.VirtualCallers

/-!
# When the candidates of a virtual call are complete

A query looks only at the vtables the first pass has kept: those without public
visibility, named `_ZTV`, with an entry for the type id found.  Each vtable is
kept or left out by itself, so a query may answer from some vtables of a
hierarchy while others are left out.  The answer is complete exactly when what
the left-out vtables hold is held by a kept one, too.

A query about a call is asked when the second pass comes to the call, and after
`analyze`.  Where a run stops before it comes to the call, nothing is answered.

## Main definitions

* `Asked` — the states of the analyzer in which a query about a call is asked.
* `ComesTo` — no run of `analyze` stops before it comes to a call.
* `Override` — a function a virtual call may run, whatever the visibility of the vtables.
* `CompleteAnswers` — an answer has all of them.
* `LeftOutCovered` — the vtables left out hold nothing new.

## Main results

* `comesTo_iff` — a call is asked about exactly where a run comes to it.
* `completeAnswers_iff` — **when the answers are complete.**
-/

namespace Ehgp

open VCallCandidatesAnalyzer

/-! ### The states a query is asked in -/

/-- What `analyze` leaves, and the queries after it. -/
inductive Analyzed (L : LLVM) (M : Module) : VCallCandidatesAnalyzer → Prop where
  | run {A₀ A : VCallCandidatesAnalyzer} : analyze L M A₀ = .ok A → Analyzed L M A
  | query {A A' : VCallCandidatesAnalyzer} {CB : CallBase} {r : Bool × List Function} :
    Analyzed L M A → getVCallCandidates L M A CB [] = .ok (r, A') → Analyzed L M A'

/-- A state in which the analyzer is asked about a call of the module: the second pass has come to
the call, or `analyze` is done. -/
def Asked (L : LLVM) (M : Module) (CB : CallBase) (A : VCallCandidatesAnalyzer) : Prop :=
  (∃ before after A₀, M.callSites = before ++ CB :: after ∧ analyzeIn before L M A₀ = .ok A) ∨
    CB ∈ M.callSites ∧ Analyzed L M A

/-- `analyze` comes to a call in its second pass: the type ids are accepted, and the slots of the
calls before it fold, if there are vtables to look them up in. -/
def ComesTo (L : LLVM) (M : Module) (CB : CallBase) : Prop :=
  TypeIdsAccepted M ∧ ∃ before after, M.callSites = before ++ CB :: after ∧
    ((∃ t AP, IsAddressPoint M t AP) → ∀ c ∈ before, SlotsFold L M c)

section

variable {L : LLVM} {M : Module} {CB : CallBase} {A : VCallCandidatesAnalyzer}

theorem Analyzed.knows (h : Analyzed L M A) : Knows M A := by
  induction h with
  | run hrun => exact knows_of_analyzeIn (analyze_eq_analyzeIn L M _ ▸ hrun)
  | query _ hquery ih => exact (getVCallCandidates_ok ih hquery).1

theorem Analyzed.exists_run (h : Analyzed L M A) : ∃ A₀ A₁, analyze L M A₀ = .ok A₁ := by
  induction h with
  | run hrun => exact ⟨_, _, hrun⟩
  | query _ _ ih => exact ih

/-- **An analyzer that is asked holds the address points.** -/
theorem Asked.knows (h : Asked L M CB A) : Knows M A := by
  rcases h with ⟨before, after, A₀, -, hrun⟩ | ⟨-, hdone⟩
  · exact knows_of_analyzeIn hrun
  · exact hdone.knows

/-- A run that comes through comes to every call. -/
theorem comesTo_of_analyze {A₀ : VCallCandidatesAnalyzer} (hCB : CB ∈ M.callSites)
    (h : analyze L M A₀ = .ok A) : ComesTo L M CB := by
  rw [analyze_eq_analyzeIn] at h
  obtain ⟨hids, hfold⟩ := (analyze_eq_ok_iff L M M.callSites A₀).mp ⟨A, h⟩
  obtain ⟨before, after, hsplit⟩ := List.append_of_mem hCB
  refine ⟨hids, before, after, hsplit, ?_⟩
  intro hpoint c hc
  exact hfold hpoint c (by simp [hsplit, hc])

theorem ComesTo.mem (h : ComesTo L M CB) : CB ∈ M.callSites := by
  obtain ⟨-, before, after, hsplit, -⟩ := h
  simp [hsplit]

theorem Asked.comesTo (h : Asked L M CB A) : ComesTo L M CB := by
  rcases h with ⟨before, after, A₀, hsplit, hrun⟩ | ⟨hCB, hdone⟩
  · obtain ⟨hids, hfold⟩ := (analyze_eq_ok_iff L M before A₀).mp ⟨A, hrun⟩
    exact ⟨hids, before, after, hsplit, hfold⟩
  · obtain ⟨A₀, A₁, hrun⟩ := hdone.exists_run
    exact comesTo_of_analyze hCB hrun

/-- **A call is asked about exactly where a run comes to it.** -/
theorem comesTo_iff : ComesTo L M CB ↔ ∃ A, Asked L M CB A := by
  constructor
  · intro h
    obtain ⟨hids, before, after, hsplit, hfold⟩ := h
    obtain ⟨A, hA⟩ := (analyze_eq_ok_iff L M before .fresh).mpr ⟨hids, hfold⟩
    exact ⟨A, Or.inl ⟨before, after, .fresh, hsplit, hA⟩⟩
  · intro h
    obtain ⟨A, hA⟩ := h
    exact hA.comesTo

end

/-! ### Overrides -/

/-- A defined function, other than the pure virtual one, is stored in a vtable at the offset of a
slot from an address point. -/
def Stored (M : Module) (Offset : BitVec 64) (V : GlobalVariable) (o : BitVec 64) (F : Function) :
    Prop :=
  M.constantAt V (Offset + o) = some (.function F) ∧ M.isDeclaration F = false ∧
    F.name ≠ "__cxa_pure_virtual".toList

/-- A function a virtual call may run: the vptr is tested for a type id, and a vtable of any
visibility with an entry for that id holds the function in the slot. -/
def Override (L : LLVM) (M : Module) (CB : CallBase) (F : Function) : Prop :=
  ∃ id ptr, CB.calledOperand = .load id ptr ∧
    ∃ t, TypeTested M (L.stripAndAccumulateInBoundsConstantOffsets M ptr).1 t ∧
      ∃ V ∈ M.globals, ∃ o, ⟨o, .string t⟩ ∈ V.types ∧ Stored M (slotOffset L M ptr) V o F

/-- The answers for a call are complete: those of the query, and those recorded for the graph. -/
structure CompleteAnswers (L : LLVM) (M : Module) (CB : CallBase) : Prop where
  /-- When the query answers `true`, every override is a candidate. -/
  query : ∀ A, Asked L M CB A → ∀ C A', getVCallCandidates L M A CB [] = .ok ((true, C), A') →
    ∀ F, Override L M CB F → F ∈ C
  /-- When the call is recorded for one function, it is recorded for every override. -/
  callerMap : ∀ A, analyze L M .fresh = .ok A → (∃ F, .callBase CB ∈ A.callerMap.get F) →
    ∀ F, Override L M CB F → .callBase CB ∈ A.callerMap.get F

/-- A vtable entry the query does not look at, when it has found the id `found` for a vptr tested
for `t`. -/
def LeftOut (found t : StringRef) (V : GlobalVariable) : Prop :=
  V.vcallVisibility = .visibilityPublic ∨ ¬ "_ZTV".toList <+: V.name ∨ ".virtual".toList <:+ t ∨
    t ≠ found

/-- Where the query comes through and some kept vtable holds a function in the slot, every
function a left-out vtable holds there is held by a kept one as well. -/
def LeftOutCovered (L : LLVM) (M : Module) (CB : CallBase) : Prop :=
  SlotsFold L M CB → ∀ id ptr, CB.calledOperand = .load id ptr →
    (∃ V o F, IsAddressPoint M (slotTypeId L M ptr) (V, o) ∧
      Stored M (slotOffset L M ptr) V o F) →
    ∀ t V o F, TypeTested M (L.stripAndAccumulateInBoundsConstantOffsets M ptr).1 t →
      V ∈ M.globals → ⟨o, .string t⟩ ∈ V.types → LeftOut (slotTypeId L M ptr) t V →
      Stored M (slotOffset L M ptr) V o F →
        ∃ V' o', IsAddressPoint M (slotTypeId L M ptr) (V', o') ∧
          Stored M (slotOffset L M ptr) V' o' F

section

variable {L : LLVM} {M : Module} {CB : CallBase}

/-- An entry that is not left out is an address point for the id found. -/
theorem isAddressPoint_of_not_leftOut {found t : StringRef} {V : GlobalVariable} {o : BitVec 64}
    (hV : V ∈ M.globals) (hentry : ⟨o, .string t⟩ ∈ V.types) (h : ¬ LeftOut found t V) :
    IsAddressPoint M found (V, o) := by
  unfold LeftOut at h
  simp only [not_or, not_not] at h
  obtain ⟨hvis, hname, hplain, rfl⟩ := h
  exact ⟨hV, hvis, hname, hentry, hplain⟩

/-- The candidates of a call are what the kept vtables hold, where the slots fold and the folds read
what is stored. -/
theorem candidate_iff_stored (hread : SlotsRead L M CB) (hfold : SlotsFold L M CB) {id : ℕ}
    {ptr : Value} (hload : CB.calledOperand = .load id ptr) (F : Function) :
    Candidate L M CB F ↔ ∃ V o, IsAddressPoint M (slotTypeId L M ptr) (V, o) ∧
      Stored M (slotOffset L M ptr) V o F := by
  rw [candidate_load_iff hload]
  have hslot : ∀ AP, IsAddressPoint M (slotTypeId L M ptr) AP →
      (InSlot L M (slotOffset L M ptr) AP F ↔ Stored M (slotOffset L M ptr) AP.1 AP.2 F) := by
    intro AP hAP
    exact and_congr_left' (hread id ptr hload AP hAP ((hfold id ptr hload).2 AP hAP) F)
  constructor
  · intro h
    obtain ⟨⟨V, o⟩, hAP, hF⟩ := h
    exact ⟨V, o, hAP, (hslot (V, o) hAP).mp hF⟩
  · intro h
    obtain ⟨V, o, hAP, hF⟩ := h
    exact ⟨(V, o), hAP, (hslot (V, o) hAP).mpr hF⟩

theorem Candidate.exists_addressPoint {F : Function} (h : Candidate L M CB F) :
    ∃ t AP, IsAddressPoint M t AP := by
  obtain ⟨id, ptr, -, AP, hAP, -⟩ := h
  exact ⟨_, AP, hAP⟩

/-- **Where the left-out vtables are covered, a call with a candidate has all overrides.** -/
theorem LeftOutCovered.candidate (hread : SlotsRead L M CB) (h : LeftOutCovered L M CB)
    (hfold : SlotsFold L M CB) (hsome : ∃ F, Candidate L M CB F) {F : Function}
    (hF : Override L M CB F) : Candidate L M CB F := by
  obtain ⟨id, ptr, hload, t, htest, V, hV, o, hentry, hstored⟩ := hF
  rw [candidate_iff_stored hread hfold hload]
  -- an entry that is not left out is looked at, the others are covered
  by_cases hleft : LeftOut (slotTypeId L M ptr) t V
  · obtain ⟨F', hF'⟩ := hsome
    obtain ⟨V', o', hkept⟩ := (candidate_iff_stored hread hfold hload F').mp hF'
    exact h hfold id ptr hload ⟨V', o', F', hkept⟩ t V o F htest hV hentry hleft hstored
  · exact ⟨V, o, isAddressPoint_of_not_leftOut hV hentry hleft, hstored⟩

/-- **When the answers for a call are complete**, for an LLVM whose folds read what is stored:
exactly when no run comes to the call, or the vtables left out hold nothing new. -/
theorem completeAnswers_iff (hCB : CB ∈ M.callSites) (hread : SlotsRead L M CB) :
    CompleteAnswers L M CB ↔ (ComesTo L M CB → LeftOutCovered L M CB) := by
  constructor
  · intro h hcomes hfold id ptr hload hkept t V o F htest hV hentry _ hstored
    -- a state the call is asked about in, and the answer there
    obtain ⟨A, hA⟩ := comesTo_iff.mp hcomes
    obtain ⟨⟨⟨b, C⟩, A'⟩, hquery⟩ := (getVCallCandidates_eq_ok_iff hA.knows).mpr fun _ => hfold
    obtain ⟨-, -, hC, hb⟩ := getVCallCandidates_ok hA.knows hquery
    -- a kept vtable holds a function, so the answer is `true`
    obtain ⟨V₀, o₀, F₀, hkept⟩ := hkept
    have hF₀ : F₀ ∈ C := (hC F₀).mpr
      ((candidate_iff_stored hread hfold hload F₀).mpr ⟨V₀, o₀, hkept⟩)
    obtain rfl : b = true := hb.mpr (List.ne_nil_of_mem hF₀)
    have hF : F ∈ C := h.query A hA C A' hquery F
      ⟨id, ptr, hload, t, htest, V, hV, o, hentry, hstored⟩
    exact (candidate_iff_stored hread hfold hload F).mp ((hC F).mp hF)
  · intro h
    constructor
    · intro A hA C A' hquery F hF
      obtain ⟨-, -, hC, hb⟩ := getVCallCandidates_ok hA.knows hquery
      obtain ⟨F', hF'⟩ := List.exists_mem_of_ne_nil C (hb.mp rfl)
      have hcandidate : Candidate L M CB F' := (hC F').mp hF'
      have hfold : SlotsFold L M CB :=
        (getVCallCandidates_eq_ok_iff hA.knows).mp ⟨_, hquery⟩ hcandidate.exists_addressPoint
      exact (hC F).mpr ((h hA.comesTo).candidate hread hfold ⟨F', hcandidate⟩ hF)
    · intro A hA hsome F hF
      -- the call is recorded under its candidates
      have hcalls : ∀ F, .callBase CB ∈ A.callerMap.get F ↔ Candidate L M CB F := by
        intro F
        exact (callerMap_of_fresh (analyze_eq_analyzeIn L M _ ▸ hA)).trans (and_iff_right hCB)
      simp only [hcalls] at hsome ⊢
      obtain ⟨-, hslots⟩ := (analyze_eq_ok_iff L M M.callSites .fresh).mp ⟨A, hA⟩
      obtain ⟨F', hcandidate⟩ := hsome
      have hfold : SlotsFold L M CB := hslots hcandidate.exists_addressPoint CB hCB
      have hcovered : LeftOutCovered L M CB := h (comesTo_of_analyze hCB hA)
      exact hcovered.candidate hread hfold ⟨F', hcandidate⟩ hF

end

/-! #### A hidden base and a public derived class -/

namespace Sample

/-- The override of `B::f` in a class `D` derived from `B`. -/
def overrideF : Function := .ofName 7 "_ZN1D1fEv"

/-- The vtable of `D`, exported from the unit. -/
def vtableD : GlobalVariable :=
  ⟨8, "_ZTV1D", .external, true, false, .visibilityPublic, [⟨16, .string "_ZTS1B"⟩]⟩

/-- What the override does. -/
def overrideCall : CallBase := .ofCallee 14 overrideF (entry overrideF) (.function g) []

/-- The sample module with `D` added. -/
def exportedModule : Module :=
  .ofData
    { ModuleData.ofCalls [f, g, main, cxaThrow, typeTest, overrideF]
        [typeInfoA, vtableB true, vtableD]
        [throwSite, listedCall, testCall, virtualCall, overrideCall] with
      initializer := fun GV =>
        if GV = vtableD then some ⟨24, none, [(16, .function overrideF)], by decide⟩
        else (data true).initializer GV }
    (by decide)

/-- In the sample module no vtable is left out. -/
theorem leftOutCovered_virtualModule : LeftOutCovered .documented virtualModule virtualCall := by
  intro _ id ptr hload _ t V o F htest hV hentry hleft _
  rw [load_virtualModule (by decide) hload] at hleft
  have hglobals : V = typeInfoA ∨ V = vtableB true := by
    simpa [virtualModule, Module.ofData, data, ModuleData.ofCalls] using hV
  rcases hglobals with rfl | rfl
  · exact absurd hentry List.not_mem_nil
  · obtain ⟨-, ht⟩ := TypeNode.mk.inj (List.mem_singleton.mp hentry)
    rw [Metadata.string.inj ht] at hleft
    exact absurd hleft (by unfold LeftOut; decide)

end Sample

/-- In the sample module the answers for the virtual call are complete. -/
theorem completeAnswers_sample :
    CompleteAnswers .documented Sample.virtualModule Sample.virtualCall :=
  (completeAnswers_iff (by decide) (slotsRead_documented _ _)).mpr
    fun _ => Sample.leftOutCovered_virtualModule

/-- The query answers from the vtable of `B` and does not know that of `D`. -/
theorem public_override_missed :
    ¬ ∀ CB ∈ Sample.exportedModule.callSites,
      CompleteAnswers .documented Sample.exportedModule CB := by
  intro h
  have hcomplete := h Sample.virtualCall (by decide)
  have hoverride : Override .documented Sample.exportedModule Sample.virtualCall Sample.overrideF :=
    ⟨3, .other 2, rfl, "_ZTS1B".toList, ⟨Sample.testCall, by decide, rfl, rfl⟩, Sample.vtableD,
      by decide, 16, by decide, by decide, by decide, by decide⟩
  -- asked after `analyze`, the query answers `true` with `B::f` alone
  have hmem := hcomplete.query _ (Or.inr ⟨by decide, @Analyzed.run _ _ .fresh _ rfl⟩)
    [Sample.f] _ rfl _ hoverride
  exact absurd hmem (by decide)

end Ehgp
