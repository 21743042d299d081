import Ehgp.Printing

/-!
# Which calls are reported

The loops of `doEHGraphDOTPrinting` meet a call once for every operand of it that
is a tracked function, called or not.  So the reports are one for each throw site
exactly when no call passes a tracked function as an argument; and a call whose
callee is no function, or one of another type, stops the tool when it is met.

## Main definitions

* `IsThrowSite`, `throwSites` — the calls that call a tracked function.
* `ReportsOf` — the reports made for a list of calls.
* `OneReportPerThrowSite` — the reports are in bijection with the throw sites.
* `Passed` — the calls a run passes to `CurrentException`.

## Main results

* `reportsOf_reportedSites` — the reports of a run that comes through.
* `reportedSites_perm_iff` — when the calls met are the throw sites.
* `oneReportPerThrowSite_iff` — **when there is one report for each throw site.**
* `calledFunction_ne_null_iff` — **when no call without a called function is passed.**
-/

namespace Ehgp

/-! ### Throw sites -/

/-- A call of a tracked function, outside the functions the loops skip. -/
def IsThrowSite (M : Module) (CB : CallBase) : Prop :=
  CB ∈ M.callSites ∧ ¬ InGlobalInit CB ∧
    ∃ F, CB.calledOperand = .function F ∧ shouldTrackFunction M F = true

/-- The throw sites of a module, each once. -/
def throwSites (M : Module) : List CallBase :=
  M.callSites.filter fun CB =>
    !decide (InGlobalInit CB) && CB.calledOperand.asFunction.any (shouldTrackFunction M)

theorem mem_throwSites {M : Module} {CB : CallBase} :
    CB ∈ throwSites M ↔ IsThrowSite M CB := by
  unfold throwSites IsThrowSite
  rw [List.mem_filter]
  simp [Option.any_eq_true, Value.asFunction_eq_some]

theorem nodup_throwSites (M : Module) : (throwSites M).Nodup := M.wf.callSites_nodup.filter _

/-! ### The calls the loops meet -/

section

variable {M : Module}

theorem mem_sitesOf {F : Function} {CB : CallBase} :
    CB ∈ sitesOf M F ↔ CB ∈ M.callSites ∧ ¬ InGlobalInit CB ∧ .function F ∈ CB.operands := by
  unfold sitesOf
  rw [List.mem_filter, mem_callBases, Module.mem_users]
  simp [and_assoc, and_comm (a := (¬ InGlobalInit CB))]

theorem mem_trackedFunctions {F : Function} :
    F ∈ trackedFunctions M ↔ F ∈ M.functions ∧ shouldTrackFunction M F = true :=
  List.mem_filter

theorem mem_functions_of_operand {CB : CallBase} (hCB : CB ∈ M.callSites) {F : Function}
    (hF : .function F ∈ CB.operands) : F ∈ M.functions :=
  M.wf.operands_mem CB hCB F
    (List.mem_filterMap.mpr ⟨.function F, hF, rfl⟩)

/-- **The calls the loops meet** are those with a tracked function among their operands. -/
theorem mem_reportedSites {CB : CallBase} :
    CB ∈ reportedSites M ↔ CB ∈ M.callSites ∧ ¬ InGlobalInit CB ∧
      ∃ F, .function F ∈ CB.operands ∧ shouldTrackFunction M F = true := by
  unfold reportedSites
  rw [List.mem_flatMap]
  constructor
  · intro ⟨F, hF, hCB⟩
    obtain ⟨hmem, hout, hop⟩ := mem_sitesOf.mp hCB
    exact ⟨hmem, hout, F, hop, (mem_trackedFunctions.mp hF).2⟩
  · intro ⟨hmem, hout, F, hop, htrack⟩
    have hF : F ∈ M.functions := mem_functions_of_operand hmem hop
    exact ⟨F, mem_trackedFunctions.mpr ⟨hF, htrack⟩, mem_sitesOf.mpr ⟨hmem, hout, hop⟩⟩

/-- A call stands in the use list of a function once for each operand. -/
theorem count_sitesOf {F : Function} {CB : CallBase} (h : CB ∈ sitesOf M F) :
    (sitesOf M F).count CB = CB.operands.count (.function F) := by
  obtain ⟨hmem, hout, -⟩ := mem_sitesOf.mp h
  unfold sitesOf
  rw [List.count_filter (by simp [hout])]
  exact Module.count_users _ hmem

theorem CallBase.count_operands (CB : CallBase) (V : Value) :
    CB.operands.count V =
      (CB.args ++ CB.bundleOperands).count V + if CB.calledOperand = V then 1 else 0 := by
  unfold CallBase.operands
  rw [List.count_append, List.count_singleton]
  simp [beq_iff_eq]

variable (M) in
/-- No call outside the skipped functions has a tracked function among its arguments or bundle
operands. -/
def PassesNoTracked : Prop :=
  ∀ CB ∈ M.callSites, ¬ InGlobalInit CB → ∀ F, shouldTrackFunction M F = true →
    .function F ∉ CB.args ++ CB.bundleOperands

/-- A tracked operand of a call is the called one, where none is passed. -/
theorem PassesNoTracked.calledOperand_eq (h : PassesNoTracked M) {F : Function}
    (htrack : shouldTrackFunction M F = true) {CB : CallBase} (hsite : CB ∈ sitesOf M F) :
    CB.calledOperand = .function F := by
  obtain ⟨hmem, hout, hop⟩ := mem_sitesOf.mp hsite
  rcases List.mem_append.mp hop with hpass | hcallee
  · exact absurd hpass (h CB hmem hout F htrack)
  · exact (List.mem_singleton.mp hcallee).symm

theorem PassesNoTracked.nodup (h : PassesNoTracked M) : (reportedSites M).Nodup := by
  apply List.nodup_flatMap.mpr
  constructor
  · intro F hF
    have htrack := (mem_trackedFunctions.mp hF).2
    apply List.nodup_iff_count_le_one.mpr
    intro CB
    by_cases hsite : CB ∈ sitesOf M F
    · obtain ⟨hmem, hout, -⟩ := mem_sitesOf.mp hsite
      have hnone := List.count_eq_zero.mpr (h CB hmem hout F htrack)
      rw [count_sitesOf hsite, CallBase.count_operands, hnone]
      split <;> omega
    · rw [List.count_eq_zero.mpr hsite]
      omega
  · -- a call in the use lists of two tracked functions would call both
    have hnodup : (trackedFunctions M).Nodup := M.wf.functions_nodup.filter _
    refine hnodup.imp_of_mem ?_
    intro F G hF hG hne CB hCBF hCBG
    have hcallF := h.calledOperand_eq (mem_trackedFunctions.mp hF).2 hCBF
    have hcallG := h.calledOperand_eq (mem_trackedFunctions.mp hG).2 hCBG
    exact hne (Value.function.inj (hcallF.symm.trans hcallG))

theorem not_pass_of_nodup (hnodup : (reportedSites M).Nodup) {CB : CallBase}
    (hthrow : IsThrowSite M CB) {F : Function} (htrack : shouldTrackFunction M F = true) :
    .function F ∉ CB.args ++ CB.bundleOperands := by
  intro hpass
  obtain ⟨hmem, hout, G, hcallee, htrackG⟩ := hthrow
  obtain ⟨hsites, hdisj⟩ := List.nodup_flatMap.mp hnodup
  have hop : .function F ∈ CB.operands := List.mem_append_left _ hpass
  have hF : F ∈ trackedFunctions M :=
    mem_trackedFunctions.mpr ⟨mem_functions_of_operand hmem hop, htrack⟩
  have hsite : CB ∈ sitesOf M F := mem_sitesOf.mpr ⟨hmem, hout, hop⟩
  by_cases hFG : F = G
  · -- it stands twice in the use list of `F`
    have hone := List.nodup_iff_count_le_one.mp (hsites F hF) CB
    have hpos := List.count_pos_iff.mpr hpass
    rw [count_sitesOf hsite, CallBase.count_operands, if_pos (hFG ▸ hcallee)] at hone
    omega
  · -- it stands in the use lists of both
    have hopG : .function G ∈ CB.operands := hcallee ▸ CB.calledOperand_mem
    have hG : G ∈ trackedFunctions M :=
      mem_trackedFunctions.mpr ⟨mem_functions_of_operand hmem hopG, htrackG⟩
    have hsymm : Std.Symm (Function.onFun List.Disjoint (sitesOf M)) :=
      ⟨fun _ _ h => List.Disjoint.symm h⟩
    exact hdisj.forall hF hG hFG hsite (mem_sitesOf.mpr ⟨hmem, hout, hopG⟩)

/-- **The calls met are the throw sites, each once, exactly when no call passes a tracked
function.** -/
theorem reportedSites_perm_iff :
    (reportedSites M).Perm (throwSites M) ↔ PassesNoTracked M := by
  constructor
  · intro hperm CB hmem hout F htrack hpass
    -- such a call would be met for the argument, and a second time for its callee
    have hmet : CB ∈ reportedSites M :=
      mem_reportedSites.mpr ⟨hmem, hout, F, List.mem_append_left _ hpass, htrack⟩
    have hthrow : IsThrowSite M CB := mem_throwSites.mp (hperm.mem_iff.mp hmet)
    exact not_pass_of_nodup (hperm.nodup_iff.mpr (nodup_throwSites M)) hthrow htrack hpass
  · intro h
    refine (List.perm_ext_iff_of_nodup h.nodup (nodup_throwSites M)).mpr ?_
    intro CB
    rw [mem_reportedSites, mem_throwSites, IsThrowSite]
    refine and_congr_right fun hmem => and_congr_right fun hout => exists_congr fun F => ?_
    refine and_congr_left fun htrack => ?_
    constructor
    · intro hop
      exact h.calledOperand_eq htrack (mem_sitesOf.mpr ⟨hmem, hout, hop⟩)
    · intro hcallee
      exact hcallee ▸ CB.calledOperand_mem

/-! ### The reports of a run -/

/-- The reports made for some calls, in their order, and the counter after them. -/
structure ReportsOf (opts : Options) (sites : List CallBase) (s : PrintState) : Prop where
  /-- One report for each call. -/
  throwSites : s.reports.map (·.throwSite) = sites
  /-- The exception of each is the one the constructor makes. -/
  exception : ∀ r ∈ s.reports,
    CurrentException.ofCallBase r.throwSite = .ok ⟨r.exceptionValue, r.throwSite⟩
  /-- The files are numbered by the counter. -/
  filenames : s.reports.map (·.filename) =
    (List.range sites.length).map fun I => opts.filename (BitVec.ofNat 32 I).toNat
  /-- The counter counts the calls. -/
  index : s.index = BitVec.ofNat 32 sites.length

variable {opts : Options} {L : LLVM}

theorem ReportsOf.step {sites : List CallBase} {s s' : PrintState} {CB : CallBase}
    (h : ReportsOf opts sites s) (hstep : printSite opts L M s CB = .ok s') :
    ReportsOf opts (sites ++ [CB]) s' := by
  obtain ⟨r, hreports, hindex, hfile, hE⟩ := printSite_ok hstep
  have hsite : r.throwSite = CB := (CurrentException.ofCallBase_eq_ok.mp hE).1
  constructor
  · rw [hreports, List.map_append, h.throwSites, List.map_singleton, hsite]
  · intro r' hr'
    rw [hreports] at hr'
    rcases List.mem_append.mp hr' with hr' | hr'
    · exact h.exception r' hr'
    · rw [List.mem_singleton.mp hr', hsite, hE, hsite]
  · rw [hreports, List.map_append, h.filenames, List.length_append, List.length_singleton,
      List.range_succ, List.map_append, List.map_singleton, List.map_singleton, hfile, h.index]
  · rw [hindex, h.index, List.length_append, List.length_singleton, BitVec.ofNat_add]
    rfl

/-- **The reports of a run that comes through** are those of the calls it meets. -/
theorem reportsOf_reportedSites {ChildsMap : ChildsMapType} {A : VCallCandidatesAnalyzer}
    {S : ICallSolver} {out : PrintState}
    (h : (reportedSites M).foldlM (printSite opts L M) ⟨0, ChildsMap, A, S, []⟩ = .ok out) :
    ReportsOf opts (reportedSites M) out := by
  refine List.foldlM_ok_induction (P := ReportsOf opts) h ⟨rfl, ?_, rfl, rfl⟩ ?_
  · intro r hr
    exact absurd hr List.not_mem_nil
  · intro done CB s s' _ hs hstep
    exact hs.step hstep

theorem foldlM_printSite_ok_iff (opts : Options) (L : LLVM) (M : Module) (sites : List CallBase)
    (s : PrintState) :
    (∃ s', sites.foldlM (printSite opts L M) s = .ok s') ↔
      ∀ CB ∈ sites, ∃ E, CurrentException.ofCallBase CB = .ok E := by
  constructor
  · intro ⟨s', hs'⟩ CB hCB
    obtain ⟨s₁, s₂, -, hstep⟩ := List.step_ok_of_foldlM_ok (fun _ => True)
      (fun _ _ _ _ _ _ => trivial) trivial hs' CB hCB
    obtain ⟨r, -, -, -, hE⟩ := printSite_ok hstep
    exact ⟨_, hE⟩
  · intro hok
    have hstep : ∀ CB ∈ sites, ∀ s, True →
        ∃ s', printSite opts L M s CB = .ok s' ∧ True := by
      intro CB hCB s _
      obtain ⟨E, hE⟩ := hok CB hCB
      -- the body stops for the constructor only
      cases hs : printSite opts L M s CB with
      | ok s' => exact ⟨s', rfl, trivial⟩
      | error e =>
        rw [printSite_eq_error, hE] at hs
        exact absurd hs nofun
    obtain ⟨s', hs', -⟩ := List.foldlM_eq_ok _ hstep trivial
    exact ⟨s', hs'⟩

/-! ### One report for each throw site -/

/-- The reports are in bijection with the throw sites. -/
structure OneReportPerThrowSite (M : Module) (reports : List Report) : Prop where
  /-- Every throw site is reported once, and nothing else is. -/
  sites : (reports.map (·.throwSite)).Perm (throwSites M)
  /-- Every report has its own file. -/
  files : (reports.map (·.filename)).Nodup
  /-- The exception value is taken from the call. -/
  exceptionValue : ∀ r ∈ reports, ∀ F, r.throwSite.calledOperand = .function F →
    r.exceptionValue =
      if F.name = "__cxa_throw".toList then r.throwSite.getArgOperand 1 else none

variable (M) in
/-- The calls of tracked functions are calls by the function's own type, and those of
`__cxa_throw` have a type info. -/
def CallsTyped : Prop :=
  ∀ CB, IsThrowSite M CB → ∀ F, CB.calledOperand = .function F →
    F.valueType = CB.functionType ∧ (F.name = "__cxa_throw".toList → 2 ≤ CB.args.length)

theorem Options.filename_injective (opts : Options) : Function.Injective opts.filename := by
  intro I J h
  unfold Options.filename at h
  have hdigits : Nat.toDigits 10 I = Nat.toDigits 10 J := by
    simpa using h
  calc I = Nat.ofDigitChars 10 (Nat.toDigits 10 I) 0 := Nat.ofDigitChars_ten_toDigits.symm
    _ = Nat.ofDigitChars 10 (Nat.toDigits 10 J) 0 := by rw [hdigits]
    _ = J := Nat.ofDigitChars_ten_toDigits

theorem nodup_filenames_iff (opts : Options) (n : ℕ) :
    ((List.range n).map fun I => opts.filename (BitVec.ofNat 32 I).toNat).Nodup ↔ n ≤ 2 ^ 32 := by
  rw [List.nodup_map_iff_inj_on List.nodup_range]
  simp only [List.mem_range, BitVec.toNat_ofNat, opts.filename_injective.eq_iff]
  constructor
  · intro hinj
    by_contra hn
    have hzero := hinj 0 (by omega) (2 ^ 32) (by omega) (by omega)
    omega
  · intro hn I hI J hJ h
    omega

theorem callsTyped_iff :
    CallsTyped M ↔
      ∀ CB ∈ throwSites M, ∃ E, CurrentException.ofCallBase CB = .ok E := by
  constructor
  · intro h CB hCB
    obtain ⟨-, -, F, hF, -⟩ := mem_throwSites.mp hCB
    obtain ⟨htype, hargs⟩ := h CB (mem_throwSites.mp hCB) F hF
    apply CurrentException.exists_ofCallBase_eq_ok.mpr
    exact ⟨F, CallBase.getCalledFunction_eq_some.mpr ⟨hF, htype⟩, hargs⟩
  · intro h CB hthrow F hF
    obtain ⟨G, hG, hargs⟩ :=
      CurrentException.exists_ofCallBase_eq_ok.mp (h CB (mem_throwSites.mpr hthrow))
    obtain ⟨hcallee, htype⟩ := CallBase.getCalledFunction_eq_some.mp hG
    obtain rfl : F = G := Value.function.inj (hF.symm.trans hcallee)
    exact ⟨htype, hargs⟩

/-- **When there is one report for each throw site**: exactly when no call passes a tracked
function, the calls of tracked functions are calls by the function's own type, with a type info
if they throw, and the counter of the files does not wrap around. -/
theorem oneReportPerThrowSite_iff (opts : Options) (L : LLVM) (M : Module)
    (ChildsMap : ChildsMapType) (A : VCallCandidatesAnalyzer) (S : ICallSolver) :
    (∃ out, doEHGraphDOTPrinting opts L M ChildsMap A S = .ok out ∧
        OneReportPerThrowSite M out.reports) ↔
      PassesNoTracked M ∧ CallsTyped M ∧ (throwSites M).length ≤ 2 ^ 32 := by
  rw [doEHGraphDOTPrinting_eq]
  constructor
  · intro ⟨out, hout, hone⟩
    have h := reportsOf_reportedSites hout
    have hperm : (reportedSites M).Perm (throwSites M) := h.throwSites ▸ hone.sites
    refine ⟨reportedSites_perm_iff.mp hperm, callsTyped_iff.mpr ?_, ?_⟩
    · intro CB hCB
      exact (foldlM_printSite_ok_iff opts L M _ _).mp ⟨out, hout⟩ CB (hperm.mem_iff.mpr hCB)
    · have hfiles := hone.files
      rw [h.filenames, nodup_filenames_iff, hperm.length_eq] at hfiles
      exact hfiles
  · intro ⟨hpass, htyped, hlength⟩
    have hperm : (reportedSites M).Perm (throwSites M) := reportedSites_perm_iff.mpr hpass
    obtain ⟨out, hout⟩ := (foldlM_printSite_ok_iff opts L M _ ⟨0, ChildsMap, A, S, []⟩).mpr
      fun CB hCB => callsTyped_iff.mp htyped CB (hperm.mem_iff.mp hCB)
    have h := reportsOf_reportedSites hout
    refine ⟨out, hout, h.throwSites ▸ hperm, ?_, ?_⟩
    · rw [h.filenames, nodup_filenames_iff, hperm.length_eq]
      exact hlength
    · intro r hr F hF
      obtain ⟨-, G, hG, hvalue⟩ := CurrentException.ofCallBase_eq_ok.mp (h.exception r hr)
      -- the callee is the function the exception is made from
      have hFG : F = G := by
        have hcallee := (CallBase.getCalledFunction_eq_some.mp hG).1
        exact Value.function.inj (hF.symm.trans hcallee)
      subst hFG
      split at hvalue
      · next hname => rw [if_pos hname]; exact hvalue.2
      · next hname => rw [if_neg hname]; exact hvalue

/-! #### A destructor that may throw -/

namespace Passing

/-- The function that throws. -/
def f : Function := .ofName 0 "_Z1fv"

/-- The runtime function that throws. -/
def cxaThrow : Function := .ofName 1 "__cxa_throw"

/-- A destructor that may throw. -/
def destructorA : Function := .ofName 2 "_ZN1AD1Ev"

/-- The type info of its class. -/
def typeInfoA : GlobalVariable :=
  ⟨3, "_ZTI1A", .external, true, false, .visibilityPublic, []⟩

/-- The call that throws an `A`, with its destructor. -/
def throwSite : CallBase :=
  .ofCallee 10 f ⟨0, none⟩ (.function cxaThrow)
    [.other 0, .globalVariable typeInfoA, .function destructorA]

/-- A call through a pointer, with the destructor as its argument. -/
def callback : CallBase := .ofCallee 11 f ⟨0, none⟩ (.other 1) [.function destructorA]

/-- A module with the throw only. -/
def throwModule : Module :=
  .ofData (.ofCalls [f, cxaThrow, destructorA] [typeInfoA] [throwSite]) (by decide)

/-- A module with the call through a pointer only. -/
def callbackModule : Module := .ofData (.ofCalls [f, destructorA] [] [callback]) (by decide)

end Passing

/-- The throw of an object whose destructor may throw is reported twice. -/
theorem destructor_reported_twice :
    ¬ ∃ out, doEHGraphDOTPrinting ⟨"out", 200, fun _ => true⟩ .documented Passing.throwModule ∅
        .fresh .fresh = .ok out ∧ OneReportPerThrowSite Passing.throwModule out.reports := by
  intro ⟨out, hout, hone⟩
  rw [doEHGraphDOTPrinting_eq] at hout
  have hsites : reportedSites Passing.throwModule = [Passing.throwSite, Passing.throwSite] := by
    decide
  have hperm := hone.sites
  rw [(reportsOf_reportedSites hout).throwSites, hsites] at hperm
  have hnodup := hperm.nodup_iff.mpr (nodup_throwSites Passing.throwModule)
  exact absurd hnodup (by decide)

/-! ### Calls without a called function -/

/-- A call of `__cxa_throw` that has no type info. -/
def ThrowsNoTypeInfo (CB : CallBase) : Prop :=
  ∃ F, CB.getCalledFunction = some F ∧ F.name = "__cxa_throw".toList ∧ CB.args.length < 2

/-- Before a call is met for the first time, the loops meet one of `__cxa_throw` that has no type
info. -/
def StoppedBefore (M : Module) (CB : CallBase) : Prop :=
  ∃ before after c, reportedSites M = before ++ CB :: after ∧ CB ∉ before ∧ c ∈ before ∧
    ThrowsNoTypeInfo c

/-- A run passes a call to `CurrentException`: it comes through the calls it meets before. -/
def Passed (opts : Options) (L : LLVM) (M : Module) (ChildsMap : ChildsMapType)
    (A : VCallCandidatesAnalyzer) (S : ICallSolver) (CB : CallBase) : Prop :=
  ∃ before after s, reportedSites M = before ++ CB :: after ∧
    before.foldlM (printSite opts L M) ⟨0, ChildsMap, A, S, []⟩ = .ok s

/-- The constructor stops for want of a called function, or of a type info. -/
theorem throwsNoTypeInfo_of_not_ok {CB : CallBase}
    (h : ¬ ∃ E, CurrentException.ofCallBase CB = .ok E) (hF : CB.getCalledFunction ≠ none) :
    ThrowsNoTypeInfo CB := by
  obtain ⟨F, hF⟩ := Option.ne_none_iff_exists'.mp hF
  by_contra hinfo
  apply h
  apply CurrentException.exists_ofCallBase_eq_ok.mpr
  refine ⟨F, hF, ?_⟩
  intro hname
  by_contra hargs
  exact hinfo ⟨F, hF, hname, by omega⟩

theorem ThrowsNoTypeInfo.not_ok {CB : CallBase} (h : ThrowsNoTypeInfo CB) :
    ¬ ∃ E, CurrentException.ofCallBase CB = .ok E := by
  rw [CurrentException.exists_ofCallBase_eq_ok]
  intro ⟨G, hG, hargs⟩
  obtain ⟨F, hF, hname, hshort⟩ := h
  obtain rfl : F = G := Option.some.inj (hF.symm.trans hG)
  have hlong := hargs hname
  omega

theorem doEHGraphDOTPrinting_eq_null (ChildsMap : ChildsMapType) (A : VCallCandidatesAnalyzer)
    (S : ICallSolver) :
    doEHGraphDOTPrinting opts L M ChildsMap A S = .error .calledFunctionNull ↔
      ∃ CB, Passed opts L M ChildsMap A S CB ∧ CB.getCalledFunction = none := by
  rw [doEHGraphDOTPrinting_eq, List.foldlM_eq_error_iff]
  constructor
  · intro ⟨before, CB, after, s, hsites, hbefore, hstop⟩
    rw [printSite_eq_error, CurrentException.ofCallBase_eq_null] at hstop
    exact ⟨CB, ⟨before, after, s, hsites, hbefore⟩, hstop⟩
  · intro ⟨CB, ⟨before, after, s, hsites, hbefore⟩, hnull⟩
    refine ⟨before, CB, after, s, hsites, hbefore, ?_⟩
    rw [printSite_eq_error, CurrentException.ofCallBase_eq_null]
    exact hnull

/-- A call that is met is passed, unless the run stops before it: at a call without a called
function, which is passed, or for want of a type info. -/
theorem passed_or_stopped {ChildsMap : ChildsMapType} {A : VCallCandidatesAnalyzer}
    {S : ICallSolver} (hnull : ∀ CB, Passed opts L M ChildsMap A S CB →
      CB.getCalledFunction ≠ none) {CB : CallBase} (hmet : CB ∈ reportedSites M) :
    Passed opts L M ChildsMap A S CB ∨ StoppedBefore M CB := by
  obtain ⟨before, after, hsites, hfirst⟩ := List.eq_append_cons_of_mem hmet
  cases hrun : before.foldlM (printSite opts L M) ⟨0, ChildsMap, A, S, []⟩ with
  | ok s => exact Or.inl ⟨before, after, s, hsites, hrun⟩
  | error e =>
    -- the first call that stops the run is passed itself, so it has a called function
    obtain ⟨before', c, after', s, rfl, hbefore, hstop⟩ := List.foldlM_eq_error_iff.mp hrun
    have hpassed : Passed opts L M ChildsMap A S c := by
      refine ⟨before', after' ++ CB :: after, s, ?_, hbefore⟩
      rw [hsites, List.append_assoc, List.cons_append]
    have hfail : ¬ ∃ E, CurrentException.ofCallBase c = .ok E := by
      intro ⟨E, hE⟩
      rw [printSite_eq_error, hE] at hstop
      exact absurd hstop nofun
    exact Or.inr ⟨_, after, c, hsites, hfirst, by simp,
      throwsNoTypeInfo_of_not_ok hfail (hnull c hpassed)⟩

theorem StoppedBefore.not_passed (opts : Options) (L : LLVM) {CB : CallBase}
    (h : StoppedBefore M CB) {ChildsMap : ChildsMapType} {A : VCallCandidatesAnalyzer}
    {S : ICallSolver} : ¬ Passed opts L M ChildsMap A S CB := by
  intro ⟨before', after', s, hsites', hbefore⟩
  obtain ⟨before, after, c, hsites, hfirst, hc, hinfo⟩ := h
  -- what stands before the first occurrence stands before every one
  have hsub : c ∈ before' := by
    rcases List.append_eq_append_iff.mp (hsites'.symm.trans hsites) with
      ⟨rest, rfl, hrest⟩ | ⟨rest, rfl, -⟩
    · cases rest with
      | nil => rwa [List.append_nil] at hc
      | cons d rest =>
        obtain ⟨rfl, -⟩ := List.cons.inj hrest
        exact absurd (List.mem_append_right _ List.mem_cons_self) hfirst
    · exact List.mem_append_left _ hc
  have hok := (foldlM_printSite_ok_iff opts L M before' _).mp ⟨s, hbefore⟩ c hsub
  exact hinfo.not_ok hok

/-- **When no call without a called function is passed**, and so no null function dereferenced:
exactly when every call with a tracked function among its operands calls a function by that
function's type, as far as the run gets. -/
theorem calledFunction_ne_null_iff (opts : Options) (L : LLVM) (M : Module)
    (ChildsMap : ChildsMapType) (A : VCallCandidatesAnalyzer) (S : ICallSolver) :
    ((∀ CB, Passed opts L M ChildsMap A S CB → CB.getCalledFunction ≠ none) ↔
      ∀ CB ∈ M.callSites, ¬ InGlobalInit CB → ∀ F, .function F ∈ CB.operands →
        shouldTrackFunction M F = true → CB.getCalledFunction = none → StoppedBefore M CB) ∧
    ((∀ CB, Passed opts L M ChildsMap A S CB → CB.getCalledFunction ≠ none) ↔
      doEHGraphDOTPrinting opts L M ChildsMap A S ≠ .error .calledFunctionNull) := by
  constructor
  · constructor
    · intro hnull CB hmem hout F hop htrack hnone
      have hmet := mem_reportedSites.mpr ⟨hmem, hout, F, hop, htrack⟩
      rcases passed_or_stopped hnull hmet with hpassed | hstop
      · exact absurd hnone (hnull CB hpassed)
      · exact hstop
    · intro h CB hpassed hnone
      have hmet : CB ∈ reportedSites M := by
        obtain ⟨before, after, s, hsites, -⟩ := hpassed
        rw [hsites]
        exact List.mem_append_right _ List.mem_cons_self
      obtain ⟨hmem, hout, F, hop, htrack⟩ := mem_reportedSites.mp hmet
      exact (h CB hmem hout F hop htrack hnone).not_passed opts L hpassed
  · rw [Ne, doEHGraphDOTPrinting_eq_null]
    simp only [not_exists, not_and, ne_eq]

/-- A callback handed to a call through a pointer makes the tool dereference a null function. -/
theorem callback_passed_without_called_function :
    ¬ ∀ CB, Passed ⟨"out", 200, fun _ => true⟩ .documented Passing.callbackModule ∅ .fresh .fresh
        CB → CB.getCalledFunction ≠ none := by
  intro h
  have hsites : reportedSites Passing.callbackModule = [Passing.callback] := by decide
  exact h Passing.callback ⟨[], [], _, hsites, rfl⟩ rfl

end

end Ehgp
