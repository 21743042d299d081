import Ehgp.Completeness
import Ehgp.Reruns

/-!
# Asking the resolvers

Once both analyses have run, their results are asked in any order and as often as
the caller likes: the passes do, and so do the tests.  Asking for the candidates of
a call may insert an entry, and running an analysis again clears one map and adds to
the others; but what is answered depends on the module only.

## Main definitions

* `Request`, `Reply`, `serve` — the member functions of the resolvers, as requests.
* `serveAll` — a session: requests served one after another.
* `Serving` — the results as both analyses leave them.
* `Truthful` — an answer is the one the module gives.

## Main results

* `Serving.serve` — **a request is answered truthfully, and the results stay as they were.**
* `session_truthful` — **every request of a session is answered truthfully.**
* `session_inverse` — **the callers and the callees answered are inverse to each other.**
-/

namespace Ehgp

open VCallCandidatesAnalyzer

/-! ### Requests -/

/-- A call of a member function of the resolvers; the vectors passed in are empty. -/
inductive Request where
  | analyze
  | solve
  | derivedFrom (Base Derived : Value)
  | getVCallCandidates (CB : CallBase)
  | getCallerCandidates (VF : Function)
  | getCallSites (F : Function)
  deriving DecidableEq

/-- A call asked about is a call of the module. -/
def Request.Known (M : Module) (r : Request) : Prop :=
  ∀ CB, r = .getVCallCandidates CB → CB ∈ M.callSites

/-- What a member function answers, with the vector it has filled. -/
inductive Reply where
  | done
  | flag (answer : Bool)
  | functions (answer : Bool) (Candidates : List Function)
  | users (answer : Bool) (Callers : List User)

/-- A member function: its answer, and the results afterwards. -/
def serve (L : LLVM) (M : Module) (s : Cached) : Request → Except Abort (Reply × Cached)
  | .analyze =>
    match analyze L M s.analyzer with
    | .error e => .error e
    | .ok A => .ok (.flag true, { s with analyzer := A })
  | .solve => .ok (.done, { s with solver := s.solver.solve M })
  | .derivedFrom Base Derived =>
    match s.analyzer.derivedFrom Base Derived with
    | (b, A) => .ok (.flag b, { s with analyzer := A })
  | .getVCallCandidates CB =>
    match getVCallCandidates L M s.analyzer CB [] with
    | .error e => .error e
    | .ok ((b, Candidates), A) => .ok (.functions b Candidates, { s with analyzer := A })
  | .getCallerCandidates VF =>
    match s.analyzer.getCallerCandidates VF [] with
    | ((b, Callers), A) => .ok (.users b Callers, { s with analyzer := A })
  | .getCallSites F =>
    match s.solver.getCallSites F [] with
    | ((b, Users), S) => .ok (.users b Users, { s with solver := S })

/-- One request of a session, which keeps the requests with their answers. -/
def serveNext (L : LLVM) (M : Module) (s : List (Request × Reply) × Cached) (r : Request) :
    Except Abort (List (Request × Reply) × Cached) :=
  match serve L M s.2 r with
  | .error e => .error e
  | .ok (a, s') => .ok (s.1 ++ [(r, a)], s')

/-- A session: requests served one after another. -/
def serveAll (L : LLVM) (M : Module) (s : Cached) (rs : List Request) :
    Except Abort (List (Request × Reply) × Cached) :=
  rs.foldlM (serveNext L M) ([], s)

section

variable (L : LLVM) (M : Module)

/-- An answer is the one the module gives. -/
def Truthful : Request → Reply → Prop
  | .analyze, .flag b => b = true
  | .solve, .done => True
  | .derivedFrom Base Derived, .flag b => b = true ↔ Derives M (some Base) (some Derived)
  | .getVCallCandidates CB, .functions b Candidates =>
    (b = true ↔ ∃ F, Candidate L M CB F) ∧ ∀ F, F ∈ Candidates ↔ Candidate L M CB F
  | .getCallerCandidates VF, .users b Callers =>
    (b = true ↔ ∃ U, CallsVirtually L M VF U) ∧ ∀ U, U ∈ Callers ↔ CallsVirtually L M VF U
  | .getCallSites F, .users b Users =>
    (b = true ↔ ∃ U, CallsListed M F U) ∧ ∀ U, U ∈ Users ↔ CallsListed M F U
  | _, _ => False

/-- The results as both analyses leave them. -/
structure Serving (s : Cached) : Prop where
  knows : Knows M s.analyzer
  subclasses : ∀ b d, d ∈ s.analyzer.subclassesMap.get b ↔ Derives M b d
  callers : ∀ F U, U ∈ s.analyzer.callerMap.get F ↔ CallsVirtually L M F U
  callSites : ∀ F U, U ∈ s.solver.callSitesMap.get F ↔ CallsListed M F U
  callers_noEmpty : s.analyzer.callerMap.NoEmpty
  callSites_noEmpty : s.solver.callSitesMap.NoEmpty

end

section

variable {L : LLVM} {M : Module} {s : Cached}

/-- A run of `analyze` on results that hold no more than it records. -/
theorem Serving.of_analyze {A' : VCallCandidatesAnalyzer} (h : analyze L M s.analyzer = .ok A')
    (hsubclasses : ∀ b d, d ∈ s.analyzer.subclassesMap.get b → Derives M b d)
    (hcallers : ∀ F U, U ∈ s.analyzer.callerMap.get F → CallsVirtually L M F U)
    (hcallers_noEmpty : s.analyzer.callerMap.NoEmpty)
    (hcallSites : ∀ F U, U ∈ s.solver.callSitesMap.get F ↔ CallsListed M F U)
    (hcallSites_noEmpty : s.solver.callSitesMap.NoEmpty) :
    Serving L M { s with analyzer := A' } where
  knows := knows_of_analyzeIn (analyze_eq_analyzeIn L M s.analyzer ▸ h)
  subclasses b d := by
    have hadd := analyze_subclassesMap (analyze_eq_analyzeIn L M s.analyzer ▸ h) b d
    exact hadd.trans (or_iff_left_of_imp (hsubclasses b d))
  callers F U := by
    have hadd := analyze_callerMap (analyze_eq_analyzeIn L M s.analyzer ▸ h) F U
    exact hadd.trans (or_iff_left_of_imp (hcallers F U))
  callSites := hcallSites
  callers_noEmpty := analyze_noEmpty h hcallers_noEmpty
  callSites_noEmpty := hcallSites_noEmpty

/-- **Both analyses leave the results ready to be asked.** -/
theorem serving_of_runAnalyses (h : runAnalyses L M .fresh = .ok s) : Serving L M s := by
  obtain ⟨hA, hS⟩ := runAnalyses_eq_ok h
  have hserving : Serving L M { s with analyzer := s.analyzer } := by
    refine Serving.of_analyze (s := ⟨.fresh, s.solver⟩) hA ?_ ?_ SetMap.noEmpty_empty ?_ ?_
    · exact fun b d hd => absurd hd List.not_mem_nil
    · exact fun F U hU => absurd hU List.not_mem_nil
    · intro F U
      show U ∈ s.solver.callSitesMap.get F ↔ CallsListed M F U
      rw [hS]
      exact (ICallSolver.mem_solve M _ F U).trans (or_iff_left List.not_mem_nil)
    · show s.solver.callSitesMap.NoEmpty
      rw [hS]
      exact solve_noEmpty M SetMap.noEmpty_empty
  exact hserving

/-- A query that has an entry to read finds one exactly when there is something in it. -/
theorem Serving.mem_callerMap (h : Serving L M s) (F : Function) :
    F ∈ s.analyzer.callerMap ↔ ∃ U, CallsVirtually L M F U := by
  rw [h.callers_noEmpty.mem_iff]
  simp only [h.callers]

theorem Serving.mem_callSitesMap (h : Serving L M s) (F : Function) :
    F ∈ s.solver.callSitesMap ↔ ∃ U, CallsListed M F U := by
  rw [h.callSites_noEmpty.mem_iff]
  simp only [h.callSites]

/-- **A request is answered truthfully, and the results stay as they were**: as long as calls
asked about are calls of the module, no precondition stops it. -/
theorem Serving.serve (h : Serving L M s) (hthrough : ComesThrough L M) (r : Request)
    (hr : r.Known M) :
    ∃ a s', serve L M s r = .ok (a, s') ∧ Truthful L M r a ∧ Serving L M s' := by
  cases r with
  | analyze =>
    -- a further run records nothing new
    obtain ⟨A', hA'⟩ := (analyze_eq_ok_iff L M M.callSites s.analyzer).mpr hthrough
    rw [← analyze_eq_analyzeIn] at hA'
    refine ⟨.flag true, { s with analyzer := A' }, ?_, rfl, ?_⟩
    · simp only [Ehgp.serve, hA']
    · exact .of_analyze hA' (fun b d => (h.subclasses b d).mp) (fun F U => (h.callers F U).mp)
        h.callers_noEmpty h.callSites h.callSites_noEmpty
  | solve =>
    refine ⟨.done, { s with solver := s.solver.solve M }, rfl, trivial, ?_⟩
    refine { h with callSites := ?_, callSites_noEmpty := solve_noEmpty M h.callSites_noEmpty }
    intro F U
    have hadd := ICallSolver.mem_solve M s.solver F U
    exact hadd.trans (or_iff_left_of_imp (h.callSites F U).mp)
  | derivedFrom Base Derived =>
    refine ⟨.flag (s.analyzer.derivedFrom Base Derived).1,
      { s with analyzer := (s.analyzer.derivedFrom Base Derived).2 }, rfl, ?_, ?_⟩
    · show (s.analyzer.derivedFrom Base Derived).1 = true ↔ _
      rw [derivedFrom_result, decide_eq_true_eq, h.subclasses]
    · rw [derivedFrom_state]
      exact h
  | getVCallCandidates CB =>
    obtain ⟨⟨⟨b, C⟩, A'⟩, hq⟩ := (getVCallCandidates_eq_ok_iff h.knows).mpr fun hpoint =>
      hthrough.2 hpoint CB (hr CB rfl)
    obtain ⟨hknows, hcallers, hC, hb⟩ := getVCallCandidates_ok h.knows hq
    -- the query may insert an empty entry, and changes nothing else
    have hsubclasses := getVCallCandidates_subclassesMap hq
    refine ⟨.functions b C, { s with analyzer := A' }, ?_, ⟨?_, hC⟩, ?_⟩
    · simp only [Ehgp.serve, hq]
    · rw [hb, ne_eq, List.eq_nil_iff_forall_not_mem]
      simp only [hC, not_forall, not_not]
    · refine ⟨hknows, ?_, ?_, h.callSites, ?_, h.callSites_noEmpty⟩
      · intro b d
        rw [hsubclasses]
        exact h.subclasses b d
      · intro F U
        rw [hcallers]
        exact h.callers F U
      · rw [hcallers]
        exact h.callers_noEmpty
  | getCallerCandidates VF =>
    refine ⟨.users (s.analyzer.getCallerCandidates VF []).1.1
      (s.analyzer.getCallerCandidates VF []).1.2,
      { s with analyzer := (s.analyzer.getCallerCandidates VF []).2 }, rfl, ?_, ?_⟩
    · rw [getCallerCandidates_result]
      refine ⟨?_, ?_⟩
      · rw [decide_eq_true_eq, h.mem_callerMap]
      · exact h.callers VF
    · rw [getCallerCandidates_state]
      exact h
  | getCallSites F =>
    refine ⟨.users (s.solver.getCallSites F []).1.1 (s.solver.getCallSites F []).1.2,
      { s with solver := (s.solver.getCallSites F []).2 }, rfl, ?_, ?_⟩
    · rw [ICallSolver.getCallSites_result]
      refine ⟨?_, ?_⟩
      · rw [decide_eq_true_eq, h.mem_callSitesMap]
      · exact h.callSites F
    · rw [ICallSolver.getCallSites_state]
      exact h

/-- What has been answered in a session, and the results as they are. -/
structure Served (L : LLVM) (M : Module) (done : List Request)
    (t : List (Request × Reply) × Cached) : Prop where
  requests : t.1.map Prod.fst = done
  truthful : ∀ p ∈ t.1, Truthful L M p.1 p.2
  serving : Serving L M t.2

theorem Served.next {done : List Request} {t : List (Request × Reply) × Cached}
    (h : Served L M done t) (hthrough : ComesThrough L M) (r : Request)
    (hr : r.Known M) :
    ∃ t', serveNext L M t r = .ok t' ∧ Served L M (done ++ [r]) t' := by
  obtain ⟨a, s', hserve, htrue, hserving⟩ := h.serving.serve hthrough r hr
  refine ⟨(t.1 ++ [(r, a)], s'), ?_, ?_, ?_, hserving⟩
  · unfold serveNext
    rw [hserve]
  · rw [List.map_append, h.requests]
    rfl
  · intro p hp
    rcases List.mem_append.mp hp with hp | hp
    · exact h.truthful p hp
    · rw [List.mem_singleton.mp hp]
      exact htrue

theorem exists_served (h : runAnalyses L M .fresh = .ok s) {rs : List Request}
    (hrs : ∀ r ∈ rs, r.Known M) : ∃ t, serveAll L M s rs = .ok t ∧ Served L M rs t := by
  have hthrough : ComesThrough L M := (runAnalyses_eq_ok_iff .fresh).mp ⟨s, h⟩
  have hstart : Served L M [] ([], s) :=
    ⟨rfl, fun p hp => absurd hp List.not_mem_nil, serving_of_runAnalyses h⟩
  rcases List.foldlM_ok_or_stop (P := Served L M) (l := rs)
    (fun done r t hr ht => ht.next hthrough r hr) hstart with
    ⟨-, t, hrun, ht⟩ | ⟨before, r, after, t, rfl, -, hr, -⟩
  · exact ⟨t, hrun, ht⟩
  · exact absurd (hrs r (List.mem_append_right _ List.mem_cons_self)) hr

end

/-! #### A session on the sample -/

namespace Sample

/-- Who calls `B::f` virtually, what the call in `main` may run, the analyses once more, and who
calls `B::f` by then. -/
def requests : List Request :=
  [.getCallerCandidates f, .getVCallCandidates virtualCall, .analyze, .solve,
    .getCallerCandidates f]

theorem known_requests : ∀ r ∈ requests, r.Known virtualModule := by
  intro r hr CB hCB
  subst hCB
  have hcall : CB = virtualCall := by simpa [requests] using hr
  rw [hcall]
  decide

theorem exists_runAnalyses : ∃ s, runAnalyses .documented virtualModule .fresh = .ok s := ⟨_, rfl⟩

end Sample

/-- **Every request of a session is answered truthfully**, whatever was asked before and however
often the analyses were run again. -/
theorem session_truthful {L : LLVM} {M : Module} {s : Cached}
    (h : runAnalyses L M .fresh = .ok s) {rs : List Request}
    (hrs : ∀ r ∈ rs, r.Known M) :
    ∃ t, serveAll L M s rs = .ok t ∧ t.1.map Prod.fst = rs ∧ ∀ p ∈ t.1, Truthful L M p.1 p.2 := by
  obtain ⟨t, hrun, ht⟩ := exists_served h hrs
  exact ⟨t, hrun, ht.requests, ht.truthful⟩

/-- The session on the sample. -/
theorem session_truthful_sample :
    ∃ s t, runAnalyses .documented Sample.virtualModule .fresh = .ok s ∧
      serveAll .documented Sample.virtualModule s Sample.requests = .ok t ∧
      t.1.map Prod.fst = Sample.requests ∧
        ∀ p ∈ t.1, Truthful .documented Sample.virtualModule p.1 p.2 := by
  obtain ⟨s, hs⟩ := Sample.exists_runAnalyses
  obtain ⟨t, ht⟩ := session_truthful hs Sample.known_requests
  exact ⟨s, t, hs, ht⟩

/-- **The callers and the callees answered are inverse to each other**, at any two moments of a
session: a call is answered as a caller of a function exactly when the function is answered as one
of its candidates. -/
theorem session_inverse {L : LLVM} {M : Module} {s : Cached}
    (h : runAnalyses L M .fresh = .ok s) {rs : List Request}
    (hrs : ∀ r ∈ rs, r.Known M)
    {t : List (Request × Reply) × Cached} (ht : serveAll L M s rs = .ok t)
    {CB : CallBase} {F : Function} {b b' : Bool} {Candidates : List Function}
    {Callers : List User} (hCB : (.getVCallCandidates CB, .functions b Candidates) ∈ t.1)
    (hF : (.getCallerCandidates F, .users b' Callers) ∈ t.1) :
    F ∈ Candidates ↔ .callBase CB ∈ Callers := by
  obtain ⟨t', hrun, hserved⟩ := exists_served h hrs
  obtain rfl : t' = t := Except.ok.inj (hrun.symm.trans ht)
  have hcandidates := (hserved.truthful _ hCB).2 F
  have hcallers := (hserved.truthful _ hF).2 (.callBase CB)
  have hsite : CB ∈ M.callSites := by
    refine hrs (.getVCallCandidates CB) ?_ CB rfl
    rw [← hserved.requests]
    exact List.mem_map.mpr ⟨_, hCB, rfl⟩
  -- both answers are read off the module
  rw [hcandidates, hcallers]
  constructor
  · intro hcand
    exact ⟨CB, hsite, rfl, hcand⟩
  · intro hcall
    obtain ⟨CB', -, heq, hcand⟩ := hcall
    rw [User.callBase.inj heq]
    exact hcand

/-- The call in `main` is answered as a caller of `B::f`, and `B::f` as its candidate. -/
theorem session_inverse_sample :
    ∃ s t Candidates Callers, runAnalyses .documented Sample.virtualModule .fresh = .ok s ∧
      serveAll .documented Sample.virtualModule s Sample.requests = .ok t ∧
      (.getVCallCandidates Sample.virtualCall, .functions true Candidates) ∈ t.1 ∧
      (.getCallerCandidates Sample.f, .users true Callers) ∈ t.1 ∧
      (Sample.f ∈ Candidates ↔ .callBase Sample.virtualCall ∈ Callers) := by
  obtain ⟨s, t, hs, ht, hCB, hF⟩ : ∃ s t,
      runAnalyses .documented Sample.virtualModule .fresh = .ok s ∧
      serveAll .documented Sample.virtualModule s Sample.requests = .ok t ∧
      (.getVCallCandidates Sample.virtualCall, .functions true [Sample.f]) ∈ t.1 ∧
      (.getCallerCandidates Sample.f, .users true [.callBase Sample.virtualCall]) ∈ t.1 :=
    ⟨_, _, rfl, rfl, .tail _ (.head _), .head _⟩
  exact ⟨s, t, _, _, hs, ht, hCB, hF, session_inverse hs Sample.known_requests ht hCB hF⟩

end Ehgp
