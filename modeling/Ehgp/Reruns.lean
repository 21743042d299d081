import Ehgp.Interleaving
import Ehgp.UseLists

/-!
# Running the analyses again

`EHGraphPrinterPass::run` calls `analyze()` and `solve()` on cached results each
time it runs.  `analyze()` clears the address points first, but not the subclass
relation nor the recorded callers, and `solve()` clears nothing.  So the answers
about the last state of a module are those of a fresh run exactly when all that
was recorded for the states before is recorded for the last state as well.

## Main definitions

* `Cached`, `runAnalyses` — the cached results, and what a run makes of them.
* `Change`, `History`, `Cached.after` — the results after a sequence of module states.
* `Remembered` — what a history has recorded.
* `ForgetsThePast` — the answers are those of a fresh run.
* `PastKept` — what the past has recorded is recorded for the last state.

## Main results

* `analyze_sameIds` — the past has no influence on whether `analyze` comes through.
* `remembers_after` — **what is left of a history.**
* `forgetsThePast_iff` — **when the past is forgotten.**
-/

namespace Ehgp

open VCallCandidatesAnalyzer

/-! ### The cached results -/

/-- The results of `VCallAnalysis` and `ICallSolverAnalysis` the analysis manager holds. -/
structure Cached where
  analyzer : VCallCandidatesAnalyzer
  solver : ICallSolver

/-- The results when they have just been made: their `run` only constructs them. -/
def Cached.fresh : Cached := ⟨.fresh, .fresh⟩

/-- `VCallAnalyzer.analyze()` and `ICallSolver.solve()`, the start of
`EHGraphPrinterPass::run`. -/
def runAnalyses (L : LLVM) (M : Module) (s : Cached) : Except Abort Cached :=
  match analyze L M s.analyzer with
  | .error e => .error e
  | .ok VCallAnalyzer => .ok ⟨VCallAnalyzer, s.solver.solve M⟩

/-- `EHGraphPrinterPass::run(M, AM)`. -/
def EHGraphPrinterPass.run (opts : Options) (L : LLVM) (M : Module) (ChildsMap : ChildsMapType)
    (s : Cached) : Except Abort PrintState :=
  match runAnalyses L M s with
  | .error e => .error e
  | .ok s => doEHGraphDOTPrinting opts L M ChildsMap s.analyzer s.solver

/-! ### Module states -/

/-- What the objects of a module have become when it is changed in place.  The maps hold
addresses, so a pointer in them reads as the changed object. -/
structure Change where
  function : Function → Function
  globalVariable : GlobalVariable → GlobalVariable
  callBase : CallBase → CallBase

namespace Change

/-- A pointer to a type info, or null. -/
def value (change : Change) : Option Value → Option Value
  | some (.globalVariable GV) => some (.globalVariable (change.globalVariable GV))
  | V => V

/-- A recorded caller. -/
def user (change : Change) : User → User
  | .callBase CB => .callBase (change.callBase CB)
  | U => U

/-- Nothing changes. -/
def unchanged : Change := ⟨id, id, id⟩

@[simp] theorem value_unchanged (V : Option Value) : unchanged.value V = V := by
  unfold value
  split <;> rfl

@[simp] theorem user_unchanged (U : User) : unchanged.user U = U := by
  cases U <;> rfl

theorem exists_value_eq (change : Change) (V : Value) : ∃ W, change.value (some V) = some W := by
  cases V <;> exact ⟨_, rfl⟩

end Change

/-- The cached results, read after a change of the module. -/
def Cached.reread (change : Change) (s : Cached) : Cached where
  analyzer :=
    { subclassesMap := s.analyzer.subclassesMap.rename change.value change.value
      callerMap := s.analyzer.callerMap.rename change.function change.user
      typeIdCompatibleMap :=
        s.analyzer.typeIdCompatibleMap.rename id (Prod.map change.globalVariable id) }
  solver := ⟨s.solver.callSitesMap.rename change.function change.user⟩

/-- The states of a module the pass has run on, the last one first, each with the change that led
to it. -/
abbrev History := List (Change × Module)

/-- The cached results after a history. -/
def Cached.after (L : LLVM) : History → Except Abort Cached
  | [] => .ok .fresh
  | (change, M) :: past =>
    match Cached.after L past with
    | .error e => .error e
    | .ok s => runAnalyses L M (s.reread change)

/-! ### The past does not reach the first pass

`analyze` clears the address points, and reads nothing else that was there before. -/

/-- The same address points are recorded, in the same order. -/
def SameIds (A B : VCallCandidatesAnalyzer) : Prop :=
  A.typeIdCompatibleMap = B.typeIdCompatibleMap

section

variable {L : LLVM} {M : Module} {A B : VCallCandidatesAnalyzer}

theorem collectType_sameIds {GV : GlobalVariable} {TI : Option GlobalVariable} {Node : TypeNode}
    (h : SameIds A B) :
    Except.Related SameIds (collectType M GV TI A Node) (collectType M GV TI B Node) := by
  unfold collectType
  cases Node.typeID with
  | other id => exact h
  | string t =>
    dsimp only
    by_cases hvirtual : t.endsWith ".virtual" = true
    · rw [if_pos hvirtual, if_pos hvirtual]
      exact h
    · rw [if_neg hvirtual, if_neg hvirtual]
      cases t.consumeFront "_ZTS" with
      | none => exact rfl
      | some u => exact congrArg (fun m => m.insertAt t (GV, Node.offset)) h

theorem collectGlobal_sameIds {GV : GlobalVariable} (h : SameIds A B) :
    Except.Related SameIds (collectGlobal M A GV) (collectGlobal M B GV) := by
  unfold collectGlobal
  by_cases hpublic : GV.vcallVisibility = .visibilityPublic
  · rw [if_pos hpublic, if_pos hpublic]
    exact h
  · rw [if_neg hpublic, if_neg hpublic]
    cases GV.name.consumeFront "_ZTV" with
    | none => exact h
    | some GVName =>
      apply List.foldlM_related
      · intro Node _ s t hst
        exact collectType_sameIds hst
      · exact h

/-- **A query looks at the address points only.** -/
theorem getVCallCandidates_sameIds {CB : CallBase} {C : List Function} (h : SameIds A B) :
    Except.Related (fun r r' => r.1 = r'.1 ∧ SameIds r.2 r'.2)
      (getVCallCandidates L M A CB C) (getVCallCandidates L M B CB C) := by
  obtain ⟨subclasses, callers, ids⟩ := A
  obtain ⟨subclasses', callers', ids'⟩ := B
  obtain rfl : ids = ids' := h
  unfold getVCallCandidates
  dsimp only
  by_cases hsize : ids.size = 0
  · rw [if_pos hsize, if_pos hsize]
    exact ⟨rfl, rfl⟩
  · rw [if_neg hsize, if_neg hsize]
    cases CB.calledOperand with
    | load id ptr =>
      dsimp only
      by_cases hwidth : M.indexTypeSizeInBits ptr ≠ 64
      · rw [if_pos hwidth, if_pos hwidth]
        exact rfl
      · rw [if_neg hwidth, if_neg hwidth]
        -- from here on only the address points are read
        generalize L.stripAndAccumulateInBoundsConstantOffsets M ptr = stripped
        generalize findTypeId (M.users stripped.1) = TypeId
        cases ((ids.subscript TypeId).get TypeId).foldlM (slotCandidate L M stripped.2) C with
        | error e => exact rfl
        | ok C' => exact ⟨rfl, rfl⟩
    | _ => exact ⟨rfl, rfl⟩

theorem scanCall_sameIds {CB : CallBase} (h : SameIds A B) :
    Except.Related SameIds (scanCall L M A CB) (scanCall L M B CB) := by
  have hquery : Except.Related (fun r r' => r.1 = r'.1 ∧ SameIds r.2 r'.2)
      (getVCallCandidates L M A CB []) (getVCallCandidates L M B CB []) :=
    getVCallCandidates_sameIds h
  unfold scanCall
  rcases hquery.cases with
    ⟨e, hq, hq'⟩ | ⟨⟨⟨b, C⟩, A'⟩, ⟨⟨b', C'⟩, B'⟩, hq, hq', hanswer, hids⟩
  · rw [hq, hq']
    exact rfl
  · obtain ⟨rfl, rfl⟩ := Prod.mk.inj hanswer
    rw [hq, hq']
    cases b with
    | true =>
      dsimp only
      rw [foldl_insert_callerMap, foldl_insert_callerMap]
      exact hids
    | false => exact hids

/-- **The past has no influence on whether `analyze` comes through**, nor on the address points
it leaves. -/
theorem analyze_sameIds (L : LLVM) (M : Module) (A B : VCallCandidatesAnalyzer) :
    Except.Related SameIds (analyze L M A) (analyze L M B) := by
  -- the first pass starts with no address point in either run
  have hcollect : Except.Related SameIds
      (M.globals.foldlM (collectGlobal M)
        { A with typeIdCompatibleMap := A.typeIdCompatibleMap.clear })
      (M.globals.foldlM (collectGlobal M)
        { B with typeIdCompatibleMap := B.typeIdCompatibleMap.clear }) := by
    apply List.foldlM_related
    · intro GV _ s t hst
      exact collectGlobal_sameIds hst
    · exact rfl
  unfold analyze
  dsimp only
  rcases hcollect.cases with ⟨e, hA, hB⟩ | ⟨A₁, B₁, hA, hB, hids⟩
  · rw [hA, hB]
    exact rfl
  · rw [hA, hB]
    apply List.foldlM_related
    · intro CB _ s t hst
      exact scanCall_sameIds hst
    · exact hids

end

/-! ### What a history leaves -/

/-- `analyze()` records the type info `d` as derived from `b`; either may be null. -/
def Derives (M : Module) (b d : Option Value) : Prop :=
  ∃ Base TypeInfo, RecordsSubclass M Base TypeInfo ∧ b = asValue Base ∧ d = asValue TypeInfo

/-- `analyze()` records `U` as a virtual caller of `F`. -/
def CallsVirtually (L : LLVM) (M : Module) (F : Function) (U : User) : Prop :=
  ∃ CB ∈ M.callSites, U = .callBase CB ∧ Candidate L M CB F

/-- `solve()` records `U` as a caller of `F`. -/
def CallsListed (M : Module) (F : Function) (U : User) : Prop :=
  ∃ CB ∈ M.callSites, CB.Lists F ∧ U = .callBase CB

/-- What a history has recorded, where a run on a state records `R`: the records for the last
state, and those for the states before as they read after the change. -/
def Remembered {κ α : Type*} (R : Module → κ → α → Prop) (f : Change → κ → κ)
    (g : Change → α → α) : History → κ → α → Prop
  | [], _, _ => False
  | (change, M) :: past, k, a =>
    R M k a ∨ ∃ k' a', Remembered R f g past k' a' ∧ f change k' = k ∧ g change a' = a

/-- The cached results hold what a history has recorded. -/
structure Remembers (L : LLVM) (history : History) (s : Cached) : Prop where
  subclasses : ∀ b d, d ∈ s.analyzer.subclassesMap.get b ↔
    Remembered Derives Change.value Change.value history b d
  callers : ∀ F U, U ∈ s.analyzer.callerMap.get F ↔
    Remembered (CallsVirtually L) Change.function Change.user history F U
  callSites : ∀ F U, U ∈ s.solver.callSitesMap.get F ↔
    Remembered CallsListed Change.function Change.user history F U
  callers_noEmpty : s.analyzer.callerMap.NoEmpty
  callSites_noEmpty : s.solver.callSitesMap.NoEmpty

section

variable {L : LLVM} {M : Module} {change : Change} {past : History} {s s' s₀ : Cached}

theorem analyze_noEmpty {A A' : VCallCandidatesAnalyzer} (h : analyze L M A = .ok A')
    (hA : A.callerMap.NoEmpty) : A'.callerMap.NoEmpty := by
  obtain ⟨A₁, h₁, h₂⟩ := Except.bind_eq_ok.mp h
  have hcallers : A₁.callerMap = A.callerMap := (collect_adds h₁).callers
  have hrun := List.foldlM_ok_induction (P := fun _ s => Knows M s ∧ s.callerMap.NoEmpty) h₂
    ⟨knows_of_collect rfl h₁, hcallers ▸ hA⟩ ?_
  · exact hrun.2
  · intro done CB t t' _ ht hstep
    obtain ⟨hknows, hne⟩ := ht
    refine ⟨(scanCall_records hknows hstep).1, ?_⟩
    obtain ⟨r, hq⟩ := exists_query_of_scanCall hstep
    rw [scanCall_eq hknows hq] at hstep
    cases hstep
    exact hne.foldl_insertAt (fun G : Function => G) (fun _ => User.callBase CB) r.1.2

theorem solveCall_noEmpty (CB : CallBase) {S : ICallSolver} (h : S.callSitesMap.NoEmpty) :
    (S.solveCall CB).callSitesMap.NoEmpty := by
  unfold ICallSolver.solveCall
  cases CB.callees with
  | none => exact h
  | some MD =>
    dsimp only
    induction MD generalizing S with
    | nil => exact h
    | cons Op MD ih =>
      rw [List.foldl_cons]
      apply ih
      cases Op.bind Value.asFunction with
      | none => exact h
      | some Callee => exact h.insertAt Callee _

theorem solve_noEmpty (M : Module) {S : ICallSolver} (h : S.callSitesMap.NoEmpty) :
    (S.solve M).callSitesMap.NoEmpty := by
  unfold ICallSolver.solve
  generalize M.callSites = calls
  induction calls generalizing S with
  | nil => exact h
  | cons CB calls ih => exact ih (solveCall_noEmpty CB h)

theorem runAnalyses_eq_ok (h : runAnalyses L M s = .ok s') :
    analyze L M s.analyzer = .ok s'.analyzer ∧ s'.solver = s.solver.solve M := by
  unfold runAnalyses at h
  cases hA : analyze L M s.analyzer with
  | error e =>
    rw [hA] at h
    cases h
  | ok A =>
    rw [hA] at h
    cases h
    exact ⟨rfl, rfl⟩

theorem after_cons_eq_ok : Cached.after L ((change, M) :: past) = .ok s' ↔
    ∃ s, Cached.after L past = .ok s ∧ runAnalyses L M (s.reread change) = .ok s' := by
  rw [Cached.after]
  cases Cached.after L past with
  | error e => exact iff_of_false (by simp) (by simp)
  | ok t => simp

theorem remembers_fresh (L : LLVM) : Remembers L [] .fresh where
  subclasses _ _ := iff_of_false List.not_mem_nil id
  callers _ _ := iff_of_false List.not_mem_nil id
  callSites _ _ := iff_of_false List.not_mem_nil id
  callers_noEmpty := SetMap.noEmpty_empty
  callSites_noEmpty := SetMap.noEmpty_empty

/-- **A run adds the records for its state to what is remembered.** -/
theorem Remembers.runAnalyses (h : Remembers L past s)
    (hrun : runAnalyses L M (s.reread change) = .ok s') :
    Remembers L ((change, M) :: past) s' := by
  obtain ⟨hA, hS⟩ := runAnalyses_eq_ok hrun
  have hscan := hA
  rw [analyze_eq_analyzeIn] at hscan
  constructor
  · intro b d
    have hadd := analyze_subclassesMap hscan b d
    simp only [Cached.reread, SetMap.mem_get_rename, h.subclasses] at hadd
    exact hadd
  · intro F U
    have hadd := analyze_callerMap hscan F U
    simp only [Cached.reread, SetMap.mem_get_rename, h.callers] at hadd
    exact hadd
  · intro F U
    have hadd := ICallSolver.mem_solve M (s.reread change).solver F U
    simp only [Cached.reread, SetMap.mem_get_rename, h.callSites] at hadd
    rw [hS]
    exact hadd
  · exact analyze_noEmpty hA (h.callers_noEmpty.rename _ _)
  · rw [hS]
    exact solve_noEmpty M (h.callSites_noEmpty.rename _ _)

/-- **What is left of a history.** -/
theorem remembers_after {history : History} (h : Cached.after L history = .ok s) :
    Remembers L history s := by
  induction history generalizing s with
  | nil =>
    cases h
    exact remembers_fresh L
  | cons state past ih =>
    obtain ⟨t, hpast, hrun⟩ := after_cons_eq_ok.mp h
    exact (ih hpast).runAnalyses hrun

/-! ### When the past is forgotten -/

variable (L M) in
/-- The analyses come through a state: no type id and no broken precondition stops them. -/
def ComesThrough : Prop :=
  TypeIdsAccepted M ∧ ((∃ t AP, IsAddressPoint M t AP) → ∀ CB ∈ M.callSites, SlotsFold L M CB)

variable (L M s s₀) in
/-- The cached results give the same answers about a module. -/
structure SameAnswers : Prop where
  derivedFrom : ∀ Base Derived,
    (s.analyzer.derivedFrom Base Derived).1 = (s₀.analyzer.derivedFrom Base Derived).1
  getVCallCandidates : ∀ CB Candidates, Except.Related (fun r r' => r.1 = r'.1)
    (getVCallCandidates L M s.analyzer CB Candidates)
    (getVCallCandidates L M s₀.analyzer CB Candidates)
  getCallerCandidates : ∀ F,
    (s.analyzer.getCallerCandidates F []).1.1 = (s₀.analyzer.getCallerCandidates F []).1.1 ∧
      ∀ U, U ∈ (s.analyzer.getCallerCandidates F []).1.2 ↔
        U ∈ (s₀.analyzer.getCallerCandidates F []).1.2
  getCallSites : ∀ F, (s.solver.getCallSites F []).1.1 = (s₀.solver.getCallSites F []).1.1 ∧
    ∀ U, U ∈ (s.solver.getCallSites F []).1.2 ↔ U ∈ (s₀.solver.getCallSites F []).1.2

variable (L M change past) in
/-- After the states `past` and a last one `M`, the answers about `M` are those of a fresh
analyzer and a fresh solver that have run on `M` alone. -/
def ForgetsThePast : Prop :=
  ∀ s, Cached.after L ((change, M) :: past) = .ok s →
    ∃ s₀, runAnalyses L M .fresh = .ok s₀ ∧ SameAnswers L M s s₀

variable (L M change past) in
/-- What the past has recorded is recorded for the last state as well: the pairs of type infos,
null apart, the virtual callers and the listed ones. -/
structure PastKept : Prop where
  subclasses : ∀ B D, Remembered Derives Change.value Change.value past (some B) (some D) →
    Derives M (change.value (some B)) (change.value (some D))
  callers : ∀ F U, Remembered (CallsVirtually L) Change.function Change.user past F U →
    CallsVirtually L M (change.function F) (change.user U)
  callSites : ∀ F U, Remembered CallsListed Change.function Change.user past F U →
    CallsListed M (change.function F) (change.user U)

/-- Whether the analyses come through does not depend on what the cached results hold. -/
theorem runAnalyses_eq_ok_iff (s : Cached) :
    (∃ s', runAnalyses L M s = .ok s') ↔ ComesThrough L M := by
  unfold ComesThrough
  rw [← analyze_eq_ok_iff L M M.callSites s.analyzer, ← analyze_eq_analyzeIn]
  unfold runAnalyses
  cases analyze L M s.analyzer with
  | error e => exact iff_of_false (by simp) (by simp)
  | ok A => exact iff_of_true ⟨_, rfl⟩ ⟨_, rfl⟩

theorem after_eq_ok_iff (history : History) :
    (∃ s, Cached.after L history = .ok s) ↔ ∀ state ∈ history, ComesThrough L state.2 := by
  induction history with
  | nil => exact iff_of_true ⟨_, rfl⟩ fun state h => absurd h List.not_mem_nil
  | cons state past ih =>
    rw [List.forall_mem_cons, ← ih]
    constructor
    · intro h
      obtain ⟨s', h⟩ := h
      obtain ⟨t, hpast, hrun⟩ := after_cons_eq_ok.mp h
      exact ⟨(runAnalyses_eq_ok_iff _).mp ⟨s', hrun⟩, t, hpast⟩
    · intro h
      obtain ⟨hthrough, t, hpast⟩ := h
      obtain ⟨s', hrun⟩ := (runAnalyses_eq_ok_iff (t.reread state.1)).mpr hthrough
      exact ⟨s', after_cons_eq_ok.mpr ⟨t, hpast, hrun⟩⟩

theorem remembered_singleton {κ α : Type*} {R : Module → κ → α → Prop} {f : Change → κ → κ}
    {g : Change → α → α} {k : κ} {a : α} : Remembered R f g [(change, M)] k a ↔ R M k a := by
  constructor
  · intro h
    rcases h with h | ⟨k', a', h, -⟩
    · exact h
    · exact h.elim
  · exact Or.inl

/-- **When a map that remembers has the sets of a fresh one**: exactly when the records of the
past are records for the last state. -/
theorem same_get_iff {κ α : Type*} [DecidableEq κ] {R : Module → κ → α → Prop}
    {f : Change → κ → κ} {g : Change → α → α} {m m₀ : SetMap κ α}
    (hm : ∀ k a, a ∈ m.get k ↔ Remembered R f g ((change, M) :: past) k a)
    (hm₀ : ∀ k a, a ∈ m₀.get k ↔ Remembered R f g [(change, M)] k a) :
    (∀ k a, a ∈ m.get k ↔ a ∈ m₀.get k) ↔
      ∀ k a, Remembered R f g past k a → R M (f change k) (g change a) := by
  simp only [hm, hm₀, remembered_singleton]
  constructor
  · intro h k a hpast
    exact (h _ _).mp (Or.inr ⟨k, a, hpast, rfl, rfl⟩)
  · intro h k a
    constructor
    · intro hrec
      rcases hrec with hlast | ⟨k', a', hpast, rfl, rfl⟩
      · exact hlast
      · exact h k' a' hpast
    · exact Or.inl

theorem same_derivedFrom_iff (h : Remembers L ((change, M) :: past) s)
    (h₀ : Remembers L [(change, M)] s₀) :
    (∀ Base Derived,
      (s.analyzer.derivedFrom Base Derived).1 = (s₀.analyzer.derivedFrom Base Derived).1) ↔
      ∀ B D, Remembered Derives Change.value Change.value past (some B) (some D) →
        Derives M (change.value (some B)) (change.value (some D)) := by
  simp only [derivedFrom_result, decide_eq_decide, h.subclasses, h₀.subclasses,
    remembered_singleton]
  constructor
  · intro hsame B D hpast
    obtain ⟨B', hB⟩ := change.exists_value_eq B
    obtain ⟨D', hD⟩ := change.exists_value_eq D
    rw [hB, hD]
    exact (hsame B' D').mp (Or.inr ⟨some B, some D, hpast, hB, hD⟩)
  · intro hkept Base Derived
    constructor
    · intro hrec
      rcases hrec with hlast | ⟨b, d, hpast, hb, hd⟩
      · exact hlast
      · -- a null pointer is asked for by nobody
        cases b with
        | none => cases hb
        | some B =>
          cases d with
          | none => cases hd
          | some D =>
            rw [← hb, ← hd]
            exact hkept B D hpast
    · exact Or.inl

/-- **When the answers are the same.** -/
theorem sameAnswers_iff (h : Remembers L ((change, M) :: past) s)
    (h₀ : Remembers L [(change, M)] s₀) (hids : SameIds s.analyzer s₀.analyzer) :
    SameAnswers L M s s₀ ↔ PastKept L M change past := by
  have hsub := same_derivedFrom_iff h h₀
  have hcallers := same_get_iff h.callers h₀.callers
  have hcallSites := same_get_iff h.callSites h₀.callSites
  constructor
  · intro hsame
    refine ⟨hsub.mp hsame.derivedFrom, hcallers.mp ?_, hcallSites.mp ?_⟩
    · intro F U
      have hF := (hsame.getCallerCandidates F).2 U
      simp only [getCallerCandidates_result, List.nil_append] at hF
      exact hF
    · intro F U
      have hF := (hsame.getCallSites F).2 U
      simp only [ICallSolver.getCallSites_result, List.nil_append] at hF
      exact hF
  · intro hkept
    have hget := hcallers.mpr hkept.callers
    have hget' := hcallSites.mpr hkept.callSites
    constructor
    · exact hsub.mpr hkept.subclasses
    · intro CB C
      -- the candidates do not depend on the past
      exact (getVCallCandidates_sameIds hids).mono fun r r' hr => hr.1
    · intro F
      simp only [getCallerCandidates_result, List.nil_append, decide_eq_decide,
        h.callers_noEmpty.mem_iff, h₀.callers_noEmpty.mem_iff, hget, implies_true, and_true]
    · intro F
      simp only [ICallSolver.getCallSites_result, List.nil_append, decide_eq_decide,
        h.callSites_noEmpty.mem_iff, h₀.callSites_noEmpty.mem_iff, hget', implies_true, and_true]

/-- The results after a history and those of a fresh run on its last state. -/
theorem exists_fresh_run (h : Cached.after L ((change, M) :: past) = .ok s) :
    ∃ s₀, runAnalyses L M .fresh = .ok s₀ ∧
      (SameAnswers L M s s₀ ↔ PastKept L M change past) := by
  have hthrough : ComesThrough L M :=
    (after_eq_ok_iff _).mp ⟨s, h⟩ (change, M) List.mem_cons_self
  obtain ⟨s₀, hs₀⟩ := (runAnalyses_eq_ok_iff .fresh).mpr hthrough
  have hfresh : Cached.after L [(change, M)] = .ok s₀ := hs₀
  refine ⟨s₀, hs₀, sameAnswers_iff (remembers_after h) (remembers_after hfresh) ?_⟩
  -- the two last runs start from different results
  obtain ⟨t, -, hrun⟩ := after_cons_eq_ok.mp h
  have hrelated := analyze_sameIds L M (t.reread change).analyzer Cached.fresh.analyzer
  rw [(runAnalyses_eq_ok hrun).1, (runAnalyses_eq_ok hs₀).1] at hrelated
  exact hrelated

theorem remembered_unchanged {κ α : Type*} {R : Module → κ → α → Prop} {f : Change → κ → κ}
    {g : Change → α → α} (hf : ∀ k, f .unchanged k = k) (hg : ∀ a, g .unchanged a = a) {n : ℕ}
    {k : κ} {a : α} (h : Remembered R f g (List.replicate n (.unchanged, M)) k a) : R M k a := by
  induction n generalizing k a with
  | zero => exact h.elim
  | succ n ih =>
    rcases h with hlast | ⟨k', a', hpast, hk, ha⟩
    · exact hlast
    · rw [← hk, ← ha, hf, hg]
      exact ih hpast

/-- **Running again on an unchanged module changes no answer**, however often. -/
theorem unchanged_forgetsThePast (L : LLVM) (M : Module) (n : ℕ) :
    ForgetsThePast L M .unchanged (List.replicate n (.unchanged, M)) := by
  intro s hs
  obtain ⟨s₀, hs₀, hiff⟩ := exists_fresh_run hs
  refine ⟨s₀, hs₀, hiff.mpr ⟨?_, ?_, ?_⟩⟩
  · intro B D hpast
    simp only [Change.value_unchanged]
    exact remembered_unchanged Change.value_unchanged Change.value_unchanged hpast
  · intro F U hpast
    rw [Change.user_unchanged]
    exact remembered_unchanged (fun _ => rfl) Change.user_unchanged hpast
  · intro F U hpast
    rw [Change.user_unchanged]
    exact remembered_unchanged (fun _ => rfl) Change.user_unchanged hpast

end

/-- **When the past is forgotten**: exactly when the analyses stop at one of the states, or all
that was recorded for the states before is recorded for the last state as well. -/
theorem forgetsThePast_iff (L : LLVM) (M : Module) (change : Change) (past : History) :
    ForgetsThePast L M change past ↔
      ((∀ state ∈ (change, M) :: past, ComesThrough L state.2) → PastKept L M change past) := by
  rw [← after_eq_ok_iff]
  constructor
  · intro hforgets hthrough
    obtain ⟨s, hs⟩ := hthrough
    obtain ⟨s₀, hs₀, hiff⟩ := exists_fresh_run hs
    obtain ⟨s₁, hs₁, hsame⟩ := hforgets s hs
    rw [hs₀] at hs₁
    cases hs₁
    exact hiff.mp hsame
  · intro hkept s hs
    obtain ⟨s₀, hs₀, hiff⟩ := exists_fresh_run hs
    exact ⟨s₀, hs₀, hiff.mpr (hkept ⟨s, hs⟩)⟩

/-! #### A call that is removed -/

namespace Sample

/-- The module when the indirect call in `g` has been removed. -/
def prunedModule : Module :=
  .ofData
    { data true with insts := fun BB => if BB = entry g then [] else (data true).insts BB }
    (by decide)

end Sample

/-- The call that has been removed is still answered as a caller of `B::f`. -/
theorem removed_call_remembered :
    ¬ ∀ (L : LLVM) (M : Module) (change : Change) (past : History),
      ForgetsThePast L M change past := by
  intro h
  -- both states come through
  have hthrough : ∀ state ∈ [(Change.unchanged, Sample.prunedModule),
      (Change.unchanged, Sample.virtualModule)], ComesThrough .documented state.2 := by
    intro state hstate
    apply (runAnalyses_eq_ok_iff .fresh).mp
    rcases List.mem_pair.mp hstate with rfl | rfl
    · exact ⟨_, rfl⟩
    · exact ⟨_, rfl⟩
  obtain ⟨s, hs⟩ := (after_eq_ok_iff _).mpr hthrough
  obtain ⟨s₀, hs₀, hsame⟩ := h _ _ _ _ s hs
  -- the call recorded for the first state is remembered
  have hstale : .callBase Sample.listedCall ∈ s.solver.callSitesMap.get Sample.f :=
    ((remembers_after hs).callSites _ _).mpr
      (Or.inr ⟨Sample.f, .callBase Sample.listedCall,
        Or.inl ⟨Sample.listedCall, by decide, ⟨_, rfl, by decide⟩, rfl⟩, rfl, rfl⟩)
  have hforgotten : ((Cached.fresh.solver.solve Sample.prunedModule).getCallSites
      Sample.f []).1.1 = false := by decide
  have hfound := (hsame.getCallSites Sample.f).1
  rw [(runAnalyses_eq_ok hs₀).2, hforgotten, ICallSolver.getCallSites_result,
    decide_eq_true (SetMap.mem_of_mem_get hstale)] at hfound
  cases hfound

end Ehgp
