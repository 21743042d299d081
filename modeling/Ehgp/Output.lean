import Ehgp.Execution
import Ehgp.Picture

/-!
# The log and the files

What a run of the tool leaves outside the process.  For each call it meets the tool
opens a file, which empties it, writes an entry to the error stream, and draws the
graph into the file unless it has too many nodes.  A call without a called function
stops the tool in the middle, with its file opened and its entry not begun.

## Main definitions

* `List.unlines` — lines, each ended by a line feed.
* `OutputState`, `outputSite`, `outputPasses` — the passes with what they write.
* `LogEntry` — the entry of a report in the log.
* `FileHolds` — what a file holds, by the last report that names it.
* `Outputs` — the log and the files after some calls.

## Main results

* `List.unlines_injective` — lines are read off the text.
* `outputSite_eq_ok`, `outputSite_eq_error` — what the body of the loop writes.
* `outputPasses_spec` — **what a run leaves behind, finished or stopped.**
* `shows_outputPasses` — the passes report what they write.
* `log_injective` — **the log determines its entries.**
* `pictures_agree` — **the pictures agree with the log.**
-/

namespace List

/-- Lines, each ended by a line feed. -/
def unlines (ls : List (List Char)) : List Char := ls.flatMap (· ++ ['\n'])

@[simp] theorem unlines_nil : unlines [] = [] := rfl

@[simp] theorem unlines_cons (l : List Char) (ls : List (List Char)) :
    unlines (l :: ls) = l ++ '\n' :: unlines ls := by
  simp [unlines]

/-- A text has one first line. -/
theorem append_newline_inj {x x' r r' : List Char} (hx : '\n' ∉ x) (hx' : '\n' ∉ x')
    (h : x ++ '\n' :: r = x' ++ '\n' :: r') : x = x' ∧ r = r' := by
  induction x generalizing x' with
  | nil =>
    cases x' with
    | nil => exact ⟨rfl, (cons.inj h).2⟩
    | cons c x' =>
      obtain ⟨rfl, -⟩ := cons.inj h
      exact absurd mem_cons_self hx'
  | cons c x ih =>
    cases x' with
    | nil =>
      obtain ⟨rfl, -⟩ := cons.inj h
      exact absurd mem_cons_self hx
    | cons c' x' =>
      obtain ⟨rfl, htail⟩ := cons.inj h
      obtain ⟨rfl, hr⟩ := ih (fun hc => hx (mem_cons_of_mem _ hc))
        (fun hc => hx' (mem_cons_of_mem _ hc)) htail
      exact ⟨rfl, hr⟩

/-- **Lines are read off the text.** -/
theorem unlines_injective {ls ls' : List (List Char)} (hls : ∀ l ∈ ls, '\n' ∉ l)
    (hls' : ∀ l ∈ ls', '\n' ∉ l) (h : unlines ls = unlines ls') : ls = ls' := by
  induction ls generalizing ls' with
  | nil =>
    cases ls' with
    | nil => rfl
    | cons l' ls' =>
      rw [unlines_nil, unlines_cons] at h
      exact absurd (append_eq_nil_iff.mp h.symm).2 (cons_ne_nil _ _)
  | cons l ls ih =>
    cases ls' with
    | nil =>
      rw [unlines_cons, unlines_nil] at h
      exact absurd (append_eq_nil_iff.mp h).2 (cons_ne_nil _ _)
    | cons l' ls' =>
      rw [unlines_cons, unlines_cons] at h
      obtain ⟨rfl, htail⟩ := append_newline_inj (hls l mem_cons_self) (hls' l' mem_cons_self) h
      rw [ih (fun x hx => hls x (mem_cons_of_mem _ hx))
        (fun x hx => hls' x (mem_cons_of_mem _ hx)) htail]

end List

namespace Ehgp

/-! ### The loop with what it writes -/

/-- The state of the loops: the counter, the static `ChildsMap`, the resolvers, the text on the
error stream, and the files the run has opened with what it has written into them. -/
structure OutputState where
  index : BitVec 32
  childsMap : ChildsMapType
  analyzer : VCallCandidatesAnalyzer
  solver : ICallSolver
  errs : StringRef
  files : StringRef → Option (List Drawing)

/-- `errs() << text`. -/
def OutputState.log (s : OutputState) (text : StringRef) : OutputState :=
  { s with errs := s.errs ++ text }

/-- `raw_fd_ostream File(Filename, EC, sys::fs::OF_Text)`: a file that opens is emptied. -/
def OutputState.openFile (opts : Options) (s : OutputState) (filename : StringRef) :
    OutputState :=
  { s with
    files := if opts.opens filename then Function.update s.files filename (some []) else s.files }

/-- A picture is written into an open file. -/
def OutputState.write (s : OutputState) (filename : StringRef) (d : Drawing) : OutputState :=
  { s with files := Function.update s.files filename ((s.files filename).map (· ++ [d])) }

/-- `yes` or `no`. -/
def yesNo : Bool → StringRef
  | true => "yes"
  | false => "no"

/-- The file of the next call, opened before anything is asked of the call. -/
def OutputState.opened (opts : Options) (s : OutputState) : OutputState :=
  ({ s with index := s.index + 1 } : OutputState).openFile opts (opts.filename s.index.toNat)

/-- The body of the inner loop, at a call it does not skip: what stops it, with the state it stops
in, or the state it ends in. -/
def outputSite (D : DrawInfo) (opts : Options) (L : LLVM) (M : Module) (s : OutputState)
    (CB : CallBase) : Except (Abort × OutputState) OutputState :=
  let filename := opts.filename s.index.toNat
  let s := s.opened opts
  match CurrentException.ofCallBase CB with
  | .error e => .error (e, s)
  | .ok E =>
    let GInfo := buildChildsMap M E s.childsMap s.analyzer s.solver
    let s := { s with
      childsMap := GInfo.childsMap, analyzer := GInfo.analyzer, solver := GInfo.solver }
    let s := s.log ("Writing '".toList ++ filename ++ "'...\n".toList)
    let s := s.log
      ("    Entry node: ".toList ++ getDemangledName L CB.function.name ++ "\n".toList)
    let s := s.log "    Exceptoin: ".toList
    match getExceptionName L M E with
    | .error e => .error (e, s)
    | .ok exceptionName =>
      let s := s.log (getDemangledName L exceptionName ++ "\n".toList)
      let s := s.log
        ("    Number of nodes: ".toList ++ Nat.toDigits 10 s.childsMap.size ++ "\n".toList)
      let s := s.log ("    Leaked: ".toList ++ yesNo GInfo.leaked ++ "\n".toList)
      let ShouldPrint := decide (s.childsMap.size ≤ opts.nodeThreshold)
      let s := s.log ("    Get printed: ".toList ++ yesNo ShouldPrint ++ "\n".toList)
      let s := s.log "\n".toList
      if !ShouldPrint then .ok s
      else if opts.opens filename then
        match drawGraph D L M E s.childsMap with
        | .error e => .error (e, s)
        | .ok (m, d) => .ok (({ s with childsMap := m } : OutputState).write filename d)
      else .ok (s.log "  error opening file for writing!\n".toList)

/-- The body of the inner loop, at a user. -/
def outputUser (D : DrawInfo) (opts : Options) (L : LLVM) (M : Module) (s : OutputState)
    (U : User) : Except (Abort × OutputState) OutputState :=
  match U with
  | .other _ => .ok s
  | .callBase CB => if InGlobalInit CB then .ok s else outputSite D opts L M s CB

/-- The body of the outer loop. -/
def outputFunction (D : DrawInfo) (opts : Options) (L : LLVM) (M : Module) (s : OutputState)
    (F : Function) : Except (Abort × OutputState) OutputState :=
  if !shouldTrackFunction M F then .ok s
  else (M.users (.function F)).foldlM (outputUser D opts L M) s

/-- Before the loops nothing is written. -/
def OutputState.start (A : VCallCandidatesAnalyzer) (S : ICallSolver) : OutputState :=
  ⟨0, ∅, A, S, [], fun _ => none⟩

/-- `runPasses(M)`, with what it writes. -/
def outputPasses (D : DrawInfo) (opts : Options) (L : LLVM) (M : Module) :
    Except (Abort × OutputState) OutputState :=
  match runAnalyses L M .fresh with
  | .error e => .error (e, .start .fresh .fresh)
  | .ok s => M.functions.foldlM (outputFunction D opts L M) (.start s.analyzer s.solver)

/-! ### The log -/

/-- An entry of the log. -/
@[ext] structure LogEntry where
  filename : StringRef
  entryNode : StringRef
  exceptionName : StringRef
  numberOfNodes : ℕ
  leaked : Bool
  getPrinted : Bool
  /-- The graph was to be drawn, and its file did not open. -/
  notOpened : Bool

/-- The lines of an entry. -/
def LogEntry.lines (e : LogEntry) : List StringRef :=
  ["Writing '".toList ++ e.filename ++ "'...".toList,
    "    Entry node: ".toList ++ e.entryNode,
    "    Exceptoin: ".toList ++ e.exceptionName,
    "    Number of nodes: ".toList ++ Nat.toDigits 10 e.numberOfNodes,
    "    Leaked: ".toList ++ yesNo e.leaked,
    "    Get printed: ".toList ++ yesNo e.getPrinted,
    []] ++
  if e.notOpened then ["  error opening file for writing!".toList] else []

/-- The entry of a report. -/
def Report.entry (opts : Options) (r : Report) : LogEntry where
  filename := r.filename
  entryNode := r.entryNode
  exceptionName := r.exceptionName
  numberOfNodes := r.numberOfNodes
  leaked := r.leaked
  getPrinted := r.getPrinted
  notOpened := r.getPrinted && !opts.opens r.filename

/-- The log of some reports. -/
def logOf (opts : Options) (rs : List Report) : StringRef :=
  (rs.flatMap fun r => (r.entry opts).lines).unlines

/-! ### What a run leaves -/

section

variable (D : DrawInfo) (opts : Options) (L : LLVM) (M : Module)

/-- What a file holds, by the last report that names it: nothing when there is none or the file
does not open, no picture when the graph is too large, and otherwise the picture of the
exception. -/
inductive FileHolds : Option Report → Option (List Drawing) → Prop
  | unnamed : FileHolds none none
  | notOpened {r : Report} (h : opts.opens r.filename = false) : FileHolds (some r) none
  | tooLarge {r : Report} (h : opts.opens r.filename = true) (hprint : r.getPrinted = false) :
    FileHolds (some r) (some [])
  | picture {r : Report} (h : opts.opens r.filename = true) (hprint : r.getPrinted = true)
      {d : Drawing} (hd : Pictured D L M r.exceptionValue r.throwSite d) :
    FileHolds (some r) (some [d])

/-- The last report that names a file. -/
def lastReport (rs : List Report) (name : StringRef) : Option Report :=
  (rs.filter fun r => decide (r.filename = name)).getLast?

/-- The log and the files after some calls. -/
structure Outputs (done : List CallBase) (s : OutputState) : Prop where
  /-- The counter has counted the calls. -/
  index : s.index = BitVec.ofNat 32 done.length
  /-- The log is that of the reports specified. -/
  errs : s.errs = logOf opts (done.mapIdx (specifiedReport L M opts))
  /-- Each file is as the last report that names it says. -/
  files : ∀ name, FileHolds D opts L M
    (lastReport (done.mapIdx (specifiedReport L M opts)) name) (s.files name)

/-- What a run leaves behind, by how it ends. -/
inductive LeftBehind : Except (Abort × OutputState) OutputState → Prop
  /-- It comes through, with every call reported. -/
  | finished {s : OutputState} (hcomes : ComesThrough L M)
      (hsites : ∀ CB ∈ reportedSites M, Reportable CB)
      (h : Outputs D opts L M (reportedSites M) s) : LeftBehind (.ok s)
  /-- An analysis stops it, before anything is written. -/
  | inAnalysis {e : Abort} {s : OutputState} (hcomes : ¬ ComesThrough L M) (herrs : s.errs = [])
      (hfiles : ∀ name, s.files name = none) : LeftBehind (.error (e, s))
  /-- The first call that cannot be reported stops it, with its file opened. -/
  | atCall {e : Abort} {s : OutputState} {before after : List CallBase} {CB : CallBase}
      (hcomes : ComesThrough L M) (hsites : reportedSites M = before ++ CB :: after)
      (hbefore : ∀ c ∈ before, Reportable c) (hCB : ¬ Reportable CB)
      (h : Outputs D opts L M before s) : LeftBehind (.error (e, s.opened opts))

end

section

variable {D : DrawInfo} {opts : Options} {L : LLVM} {M : Module} {A : VCallCandidatesAnalyzer}

/-! ### What the body of the loop writes -/

theorem FileHolds.eq_none {rs : List Report} {name : StringRef} {content : Option (List Drawing)}
    (h : FileHolds D opts L M (lastReport rs name) content) (hopen : opts.opens name = false) :
    content = none := by
  generalize hlast : lastReport rs name = last at h
  have hname : ∀ r, last = some r → r.filename = name := by
    intro r hr
    rw [hr] at hlast
    have hmem := List.mem_of_getLast? hlast
    simpa using (List.mem_filter.mp hmem).2
  cases h with
  | unnamed => rfl
  | notOpened _ => rfl
  | @tooLarge r h _ =>
    rw [hname r rfl, hopen] at h
    exact absurd h Bool.false_ne_true
  | @picture r h _ _ _ =>
    rw [hname r rfl, hopen] at h
    exact absurd h Bool.false_ne_true

/-- The report of a graph that was built. -/
def reportOf (opts : Options) (L : LLVM) (filename : StringRef) (CB : CallBase)
    (exceptionName : StringRef) (r : BuildState) : Report where
  filename := filename
  throwSite := CB
  exceptionValue := thrownBy CB
  entryNode := getDemangledName L CB.function.name
  exceptionName := getDemangledName L exceptionName
  numberOfNodes := r.childsMap.size
  leaked := r.leaked
  getPrinted := decide (r.childsMap.size ≤ opts.nodeThreshold)

theorem outputSite_eq_ok {s : OutputState} {CB : CallBase} {E : CurrentException}
    {name : StringRef} {r : BuildState} {d : Drawing}
    (hE : CurrentException.ofCallBase CB = .ok E) (hname : getExceptionName L M E = .ok name)
    (hbuild : buildChildsMap M E s.childsMap s.analyzer s.solver = r)
    (hdraw : drawGraph D L M E r.childsMap = .ok (r.childsMap, d)) :
    outputSite D opts L M s CB =
      let report := reportOf opts L (opts.filename s.index.toNat) CB name r
      .ok {
        index := s.index + 1
        childsMap := r.childsMap
        analyzer := r.analyzer
        solver := r.solver
        errs := s.errs ++ (report.entry opts).lines.unlines
        files :=
          if opts.opens report.filename then
            Function.update s.files report.filename (some (if report.getPrinted then [d] else []))
          else s.files } := by
  unfold outputSite OutputState.opened OutputState.openFile
  simp only [hE, hname, hbuild, OutputState.log]
  -- what is written depends on the size and on whether the file opens
  by_cases hprint : r.childsMap.size ≤ opts.nodeThreshold
  · by_cases hopen : opts.opens (opts.filename s.index.toNat) = true
    · simp [hprint, hopen, hdraw, reportOf, Report.entry, LogEntry.lines, OutputState.write]
    · simp [hprint, hopen, reportOf, Report.entry, LogEntry.lines]
  · simp [hprint, reportOf, Report.entry, LogEntry.lines]

theorem reportOf_asSpecified {CB : CallBase} {name : StringRef} {r : BuildState} (I : ℕ)
    (hname : getExceptionName L M ⟨thrownBy CB, CB⟩ = .ok name)
    (hspec : AsSpecified L M (thrownBy CB) CB r) :
    reportOf opts L (opts.filename (I % 2 ^ 32)) CB name r = specifiedReport L M opts I CB := by
  unfold specifiedReport reportOf
  rw [hname, hspec.size_eq, hspec.leaked_eq]

/-! ### Whole runs -/

theorem logOf_append (rs : List Report) (r : Report) :
    logOf opts (rs ++ [r]) = logOf opts rs ++ (r.entry opts).lines.unlines := by
  simp [logOf, List.unlines]

theorem lastReport_append (rs : List Report) (r : Report) (name : StringRef) :
    lastReport (rs ++ [r]) name =
      if r.filename = name then some r else lastReport rs name := by
  unfold lastReport
  by_cases h : r.filename = name
  · simp [h]
  · simp [h]

/-- **A report decides what its file holds**, and leaves the other files as they are. -/
theorem FileHolds.append {rs : List Report} {files : StringRef → Option (List Drawing)}
    (hfiles : ∀ name, FileHolds D opts L M (lastReport rs name) (files name)) {r : Report}
    {d : Drawing} (hd : Pictured D L M r.exceptionValue r.throwSite d) (name : StringRef) :
    FileHolds D opts L M (lastReport (rs ++ [r]) name)
      ((if opts.opens r.filename then
        Function.update files r.filename (some (if r.getPrinted then [d] else [])) else files)
        name) := by
  rw [lastReport_append]
  by_cases hfile : r.filename = name
  · subst hfile
    rw [if_pos rfl]
    -- the file of the new report is made anew, unless it does not open
    by_cases hopen : opts.opens r.filename = true
    · rw [if_pos hopen, Function.update_self]
      by_cases hprint : r.getPrinted = true
      · rw [if_pos hprint]
        exact .picture hopen hprint hd
      · rw [if_neg hprint]
        exact .tooLarge hopen (Bool.eq_false_of_not_eq_true hprint)
    · have hclosed : opts.opens r.filename = false := Bool.eq_false_of_not_eq_true hopen
      rw [if_neg hopen, (hfiles r.filename).eq_none hclosed]
      exact .notOpened hclosed
  · rw [if_neg hfile]
    -- any other file is left as it is
    have hother : (if opts.opens r.filename then
        Function.update files r.filename (some (if r.getPrinted then [d] else [])) else files)
        name = files name := by
      split
      · exact Function.update_of_ne (Ne.symm hfile) _ _
      · rfl
    rw [hother]
    exact hfiles name

variable (D opts L M A) in
/-- What a run has written after some calls, with the resolvers as the analyses left them. -/
structure Written (done : List CallBase) (s : OutputState) : Prop
    extends Outputs D opts L M done s where
  analyzer : s.analyzer = A
  solver : s.solver = ICallSolver.solve M .fresh

theorem written_start :
    Written D opts L M A [] (.start A (ICallSolver.solve M .fresh)) where
  index := rfl
  errs := rfl
  files _ := .unnamed
  analyzer := rfl
  solver := rfl

/-- **The body of the loop writes the entry and the file of its call**, and no other. -/
theorem Written.step (hA : VCallCandidatesAnalyzer.analyze L M .fresh = .ok A)
    {done : List CallBase} {s : OutputState} (h : Written D opts L M A done s) {CB : CallBase}
    (hCB : Reportable CB) :
    ∃ s', outputSite D opts L M s CB = .ok s' ∧ Written D opts L M A (done ++ [CB]) s' := by
  obtain ⟨E, hE⟩ := CurrentException.exists_ofCallBase_eq_ok.mpr hCB
  obtain rfl := CurrentException.eq_of_ofCallBase hE
  obtain ⟨name, hname⟩ := getExceptionName_ok hE L M
  obtain ⟨d, hdraw, hd⟩ := pictured_of_drawGraph (D := D) hA hE s.childsMap
  have hspec := buildChildsMap_asSpecified hA (thrownBy CB) CB s.childsMap
  obtain ⟨hA', hS'⟩ := buildChildsMap_resolvers M ⟨thrownBy CB, CB⟩ s.childsMap A
    (ICallSolver.solve M .fresh)
  have hsite : outputSite D opts L M s CB = _ :=
    outputSite_eq_ok hE hname (by rw [h.analyzer, h.solver]) hdraw
  rw [h.index, BitVec.toNat_ofNat, reportOf_asSpecified done.length hname hspec] at hsite
  -- the specification grows by the report of the call
  have hreports : (done ++ [CB]).mapIdx (specifiedReport L M opts) =
      done.mapIdx (specifiedReport L M opts) ++ [specifiedReport L M opts done.length CB] := by
    rw [List.mapIdx_append, List.mapIdx_singleton, Nat.zero_add]
  refine ⟨_, hsite, ?_⟩
  refine { index := ?_, errs := ?_, files := ?_, analyzer := hA', solver := hS' }
  · rw [List.length_append, List.length_singleton, BitVec.ofNat_add]
    rfl
  · rw [hreports, logOf_append, h.errs]
  · intro filename
    rw [hreports]
    exact FileHolds.append h.files hd filename

/-- A call that cannot be reported stops the body, with the file opened. -/
theorem outputSite_eq_error {s : OutputState} {CB : CallBase} (hCB : ¬ Reportable CB) :
    ∃ e, outputSite D opts L M s CB = .error (e, s.opened opts) := by
  unfold outputSite
  cases hE : CurrentException.ofCallBase CB with
  | error e => exact ⟨e, rfl⟩
  | ok E => exact absurd (CurrentException.exists_ofCallBase_eq_ok.mp ⟨E, hE⟩) hCB

theorem outputPasses_eq (hA : VCallCandidatesAnalyzer.analyze L M .fresh = .ok A) :
    outputPasses D opts L M = (reportedSites M).foldlM (outputSite D opts L M)
      (.start A (ICallSolver.solve M .fresh)) := by
  unfold outputPasses runAnalyses Cached.fresh
  rw [hA]
  exact foldlM_functions (fun _ _ => rfl) (fun _ _ => rfl) (fun _ _ => rfl) _

end

/-! ### The passes and their output -/

section

variable {D : DrawInfo} {opts : Options} {L : LLVM} {M : Module}

variable (opts) in
/-- The loop with what it writes is where the loop is, and its log is that of the reports made. -/
structure Shows (s : OutputState) (p : PrintState) : Prop where
  index : s.index = p.index
  childsMap : s.childsMap = p.childsMap
  analyzer : s.analyzer = p.analyzer
  solver : s.solver = p.solver
  errs : s.errs = logOf opts p.reports

/-- **The bodies of both loops do the same**, and stop for the same reason. -/
theorem Shows.step {s : OutputState} {p : PrintState} (h : Shows opts s p) (CB : CallBase) :
    Except.Related (Shows opts) ((outputSite D opts L M s CB).mapError Prod.fst)
      (printSite opts L M p CB) := by
  cases hE : CurrentException.ofCallBase CB with
  | error e =>
    unfold outputSite printSite
    rw [hE]
    exact rfl
  | ok E =>
    obtain ⟨name, hname⟩ := getExceptionName_ok hE L M
    obtain rfl := CurrentException.eq_of_ofCallBase hE
    obtain ⟨title, -, hdraw⟩ := drawGraph_eq (D := D) (L := L) (M := M) hE
      (buildChildsMap M ⟨thrownBy CB, CB⟩ s.childsMap s.analyzer s.solver).childsMap
    -- both bodies build the same graph, and drawing it changes nothing
    rw [outputSite_eq_ok hE hname rfl hdraw]
    unfold printSite
    simp only [hE, hname, ← h.index, ← h.childsMap, ← h.analyzer, ← h.solver]
    refine ⟨rfl, ?_, rfl, rfl, ?_⟩
    · dsimp only
      rw [writeGraph_eq, ite_self]
    · dsimp only
      rw [logOf_append, h.errs]
      rfl

end

/-- **What a run leaves behind**, by how it ends. -/
theorem leftBehind_outputPasses (D : DrawInfo) (opts : Options) (L : LLVM) (M : Module) :
    LeftBehind D opts L M (outputPasses D opts L M) := by
  have hcomes : ComesThrough L M ↔ ∃ A, VCallCandidatesAnalyzer.analyze L M .fresh = .ok A := by
    rw [ComesThrough, ← analyze_eq_ok_iff L M M.callSites .fresh, ← analyze_eq_analyzeIn]
  cases hA : VCallCandidatesAnalyzer.analyze L M .fresh with
  | error e =>
    have hstop : outputPasses D opts L M = .error (e, .start .fresh .fresh) := by
      unfold outputPasses runAnalyses Cached.fresh
      rw [hA]
    rw [hstop]
    refine .inAnalysis ?_ rfl fun _ => rfl
    rw [hcomes, hA]
    intro h
    obtain ⟨A, h⟩ := h
    cases h
  | ok A =>
    have hthrough : ComesThrough L M := hcomes.mpr ⟨A, hA⟩
    rw [outputPasses_eq hA]
    -- the loop comes through, or up to the first call that cannot be reported
    rcases List.foldlM_ok_or_stop (P := Written D opts L M A) (l := reportedSites M)
      (fun done CB s hCB h => h.step hA hCB) written_start with
      ⟨hsites, s, hrun, h⟩ | ⟨before, CB, after, s, hsites, hbefore, hCB, h, hrun⟩
    · rw [hrun]
      exact .finished hthrough hsites h.toOutputs
    · obtain ⟨e, he⟩ : ∃ e, outputSite D opts L M s CB = .error (e, s.opened opts) :=
        outputSite_eq_error hCB
      rw [hrun, he]
      exact .atCall hthrough hsites hbefore hCB h.toOutputs

/-- **The passes report what they write**: with their output and without they stop for the same
reason, or come through with the log of the reports. -/
theorem shows_outputPasses (D : DrawInfo) (opts : Options) (L : LLVM) (M : Module) :
    Except.Related (Shows opts) ((outputPasses D opts L M).mapError Prod.fst)
      (runPasses opts L M) := by
  unfold runPasses EHGraphPrinterPass.run
  cases hrun : runAnalyses L M .fresh with
  | error e =>
    unfold outputPasses
    rw [hrun]
    exact rfl
  | ok s =>
    have hloop : outputPasses D opts L M = (reportedSites M).foldlM (outputSite D opts L M)
        (.start s.analyzer s.solver) := by
      unfold outputPasses
      rw [hrun]
      exact foldlM_functions (fun _ _ => rfl) (fun _ _ => rfl) (fun _ _ => rfl) _
    rw [hloop, List.mapError_foldlM]
    dsimp only
    rw [doEHGraphDOTPrinting_eq]
    exact List.foldlM_related (fun CB _ s p h => h.step CB) ⟨rfl, rfl, rfl, rfl, rfl⟩

/-- **What a run leaves behind, finished or stopped**: the log and the files of the calls before it
ended.  With their output and without the passes end in the same way. -/
theorem outputPasses_spec (D : DrawInfo) (opts : Options) (L : LLVM) (M : Module) :
    LeftBehind D opts L M (outputPasses D opts L M) ∧
      Except.Related (Shows opts) ((outputPasses D opts L M).mapError Prod.fst)
        (runPasses opts L M) :=
  ⟨leftBehind_outputPasses D opts L M, shows_outputPasses D opts L M⟩

theorem outputs_of_outputPasses {D : DrawInfo} {opts : Options} {L : LLVM} {M : Module}
    {s : OutputState} (h : outputPasses D opts L M = .ok s) :
    Outputs D opts L M (reportedSites M) s := by
  have hleft := leftBehind_outputPasses D opts L M
  rw [h] at hleft
  cases hleft with
  | finished _ _ houtputs => exact houtputs

/-! ### Reading the log -/

theorem toDigits_injective : Function.Injective (Nat.toDigits 10) := by
  intro n m h
  calc n = Nat.ofDigitChars 10 (Nat.toDigits 10 n) 0 := Nat.ofDigitChars_ten_toDigits.symm
    _ = Nat.ofDigitChars 10 (Nat.toDigits 10 m) 0 := by rw [h]
    _ = m := Nat.ofDigitChars_ten_toDigits

theorem newline_not_mem_toDigits (n : ℕ) : '\n' ∉ Nat.toDigits 10 n := by
  intro h
  exact absurd (Nat.isDigit_of_mem_toDigits (by decide) (by decide) h) (by decide)

theorem yesNo_injective : Function.Injective yesNo := by
  intro a b h
  cases a <;> cases b <;> first | rfl | exact absurd h (by decide)

theorem LogEntry.lines_ne_nil (e : LogEntry) : e.lines ≠ [] := by
  unfold lines
  exact List.append_ne_nil_of_left_ne_nil (List.cons_ne_nil _ _) _

/-- The line that may end an entry starts none. -/
theorem LogEntry.notOpened_ne_flatMap_lines (es : List LogEntry) (ls : List StringRef) :
    "  error opening file for writing!".toList :: ls ≠ es.flatMap lines := by
  intro h
  cases es with
  | nil => exact absurd h (List.cons_ne_nil _ _)
  | cons e es =>
    simp only [List.flatMap_cons, lines, List.cons_append, List.cons.injEq] at h
    have hhead : some ' ' = some 'W' := congrArg List.head? h.1
    exact absurd hhead (by decide)

/-- **Entries are read off their lines**: an entry starts with its file, and no entry starts with
the line that may end one. -/
theorem LogEntry.eq_of_flatMap_lines {es es' : List LogEntry}
    (h : es.flatMap lines = es'.flatMap lines) : es = es' := by
  induction es generalizing es' with
  | nil =>
    cases es' with
    | nil => rfl
    | cons e' es' =>
      rw [List.flatMap_nil, List.flatMap_cons] at h
      exact absurd (List.append_eq_nil_iff.mp h.symm).1 e'.lines_ne_nil
  | cons e es ih =>
    cases es' with
    | nil =>
      rw [List.flatMap_nil, List.flatMap_cons] at h
      exact absurd (List.append_eq_nil_iff.mp h).1 e.lines_ne_nil
    | cons e' es' =>
      simp only [List.flatMap_cons, lines, List.cons_append, List.nil_append, List.append_assoc,
        List.cons.injEq, List.append_cancel_left_eq, List.append_cancel_right_eq, true_and,
        toDigits_injective.eq_iff, yesNo_injective.eq_iff] at h
      obtain ⟨hfile, hentry, hname, hnodes, hleaked, hprinted, hrest⟩ := h
      -- the line about a file that does not open is told apart from the start of an entry
      have hopened : e.notOpened = e'.notOpened ∧ es.flatMap lines = es'.flatMap lines := by
        cases hn : e.notOpened <;> cases hn' : e'.notOpened <;>
          simp only [hn, hn', Bool.false_eq_true, if_true, if_false, List.nil_append,
            List.cons_append] at hrest
        · exact ⟨rfl, hrest⟩
        · exact absurd hrest.symm (notOpened_ne_flatMap_lines _ _)
        · exact absurd hrest (notOpened_ne_flatMap_lines _ _)
        · exact ⟨rfl, (List.cons.inj hrest).2⟩
      obtain ⟨hopened, hrest⟩ := hopened
      obtain rfl := ih hrest
      rw [LogEntry.ext hfile hentry hname hnodes hleaked hprinted hopened]

/-- What is printed of the calls met stays on its line. -/
structure OneLine (opts : Options) (L : LLVM) (M : Module) : Prop where
  directory : '\n' ∉ opts.outputDirectory
  entryNode : ∀ CB ∈ reportedSites M, '\n' ∉ getDemangledName L CB.function.name
  exceptionName : ∀ CB ∈ reportedSites M, ∀ name,
    getExceptionName L M ⟨thrownBy CB, CB⟩ = .ok name → '\n' ∉ getDemangledName L name

/-- The entries of the log of a finished run. -/
noncomputable def entries (opts : Options) (L : LLVM) (M : Module) : List LogEntry :=
  ((reportedSites M).mapIdx (specifiedReport L M opts)).map (Report.entry opts)

/-- The lines of an entry have no line feed, when what they tell has none. -/
theorem LogEntry.newline_not_mem_lines {e : LogEntry} (hfile : '\n' ∉ e.filename)
    (hentry : '\n' ∉ e.entryNode) (hname : '\n' ∉ e.exceptionName) :
    ∀ l ∈ e.lines, '\n' ∉ l := by
  have hyesNo : ∀ b, '\n' ∉ yesNo b := by decide
  intro l hl
  rcases List.mem_append.mp hl with hl | hl
  · simp only [List.mem_cons, List.not_mem_nil, or_false] at hl
    rcases hl with rfl | rfl | rfl | rfl | rfl | rfl | rfl
    · exact List.not_mem_append (List.not_mem_append (by decide) hfile) (by decide)
    · exact List.not_mem_append (by decide) hentry
    · exact List.not_mem_append (by decide) hname
    · exact List.not_mem_append (by decide) (newline_not_mem_toDigits _)
    · exact List.not_mem_append (by decide) (hyesNo _)
    · exact List.not_mem_append (by decide) (hyesNo _)
    · exact List.not_mem_nil
  · split at hl
    · rw [List.mem_singleton.mp hl]
      decide
    · exact absurd hl List.not_mem_nil

theorem OneLine.newline_not_mem {opts : Options} {L : LLVM} {M : Module} (h : OneLine opts L M) :
    ∀ l ∈ (entries opts L M).flatMap LogEntry.lines, '\n' ∉ l := by
  intro l hl
  obtain ⟨e, he, hl⟩ := List.mem_flatMap.mp hl
  obtain ⟨r, hr, rfl⟩ := List.mem_map.mp he
  obtain ⟨I, hI, rfl⟩ := List.mem_mapIdx.mp hr
  have hsite : (reportedSites M)[I] ∈ reportedSites M := List.getElem_mem hI
  refine LogEntry.newline_not_mem_lines ?_ (h.entryNode _ hsite) ?_ l hl
  · refine List.not_mem_append (List.not_mem_append (List.not_mem_append h.directory ?_)
      (newline_not_mem_toDigits _)) ?_
    · decide
    · decide
  · unfold Report.entry specifiedReport
    dsimp only
    split
    · next name hname => exact h.exceptionName _ hsite name hname
    · exact List.not_mem_nil

theorem logOf_eq (opts : Options) (L : LLVM) (M : Module) :
    logOf opts ((reportedSites M).mapIdx (specifiedReport L M opts)) =
      ((entries opts L M).flatMap LogEntry.lines).unlines := by
  unfold logOf entries
  rw [List.flatMap_map]

/-! #### The log of a throw -/

namespace Pads

/-- Every function is internal, no user is a constant, and all colours are one. -/
def drawInfo : DrawInfo := ⟨fun _ => false, fun _ => true, fun _ _ => "#3d50c3", "#3d50c3"⟩

theorem exists_outputPasses :
    ∃ s, outputPasses drawInfo options .documented unguardedModule = .ok s := ⟨_, rfl⟩

theorem oneLine_unguardedModule : OneLine options .documented unguardedModule where
  directory := by decide
  entryNode := by decide
  exceptionName := by
    have hname : ∀ CB ∈ reportedSites unguardedModule, '\n' ∉ getDemangledName .documented
        ((getExceptionName .documented unguardedModule ⟨thrownBy CB, CB⟩).toOption.getD []) := by
      decide
    intro CB hCB name h
    have := hname CB hCB
    rwa [h] at this

end Pads

/-- **The log determines its entries**: where what is printed stays on its line, two runs with one
log, of any modules and under any options, have met as many exceptions, and have said the same of
them. -/
theorem log_injective {D D' : DrawInfo} {opts opts' : Options} {L L' : LLVM} {M M' : Module}
    {s s' : OutputState} (hs : outputPasses D opts L M = .ok s)
    (hs' : outputPasses D' opts' L' M' = .ok s') (h : OneLine opts L M)
    (h' : OneLine opts' L' M') (hlog : s.errs = s'.errs) :
    entries opts L M = entries opts' L' M' := by
  rw [(outputs_of_outputPasses hs).errs, (outputs_of_outputPasses hs').errs, logOf_eq,
    logOf_eq] at hlog
  exact LogEntry.eq_of_flatMap_lines
    (List.unlines_injective h.newline_not_mem h'.newline_not_mem hlog)

/-- The log of the throw of `f` under two thresholds its graph does not exceed. -/
theorem log_injective_throwing :
    entries Pads.options .documented Pads.unguardedModule =
      entries { Pads.options with nodeThreshold := 3 } .documented Pads.unguardedModule := by
  have hs : outputPasses Pads.drawInfo Pads.options .documented Pads.unguardedModule = .ok _ := rfl
  have hs' : outputPasses Pads.drawInfo { Pads.options with nodeThreshold := 3 } .documented
      Pads.unguardedModule = .ok _ := rfl
  have hline : OneLine Pads.options .documented Pads.unguardedModule := Pads.oneLine_unguardedModule
  exact log_injective hs hs' hline ⟨hline.directory, hline.entryNode, hline.exceptionName⟩ rfl

/-! ### The files -/

theorem lastReport_eq_some {rs : List Report} (hnodup : (rs.map (·.filename)).Nodup) {r : Report}
    (hr : r ∈ rs) : lastReport rs r.filename = some r := by
  induction rs using List.reverseRecOn with
  | nil => exact absurd hr List.not_mem_nil
  | append_singleton rs r' ih =>
    rw [List.map_append, List.map_singleton, List.nodup_append] at hnodup
    obtain ⟨hnodup, -, hdisjoint⟩ := hnodup
    rw [lastReport_append]
    rcases List.mem_append.mp hr with hr | hr
    · have hne : r'.filename ≠ r.filename := by
        intro heq
        exact hdisjoint _ (List.mem_map.mpr ⟨r, hr, rfl⟩) _ (List.mem_singleton.mpr rfl) heq.symm
      rw [if_neg hne]
      exact ih hnodup hr
    · rw [List.mem_singleton.mp hr, if_pos rfl]

/-- As long as the counter does not start again, the reports name different files. -/
theorem nodup_filenames {opts : Options} {L : LLVM} {M : Module}
    (hlen : (reportedSites M).length ≤ 2 ^ 32) :
    (((reportedSites M).mapIdx (specifiedReport L M opts)).map (·.filename)).Nodup := by
  have hnames : ((reportedSites M).mapIdx (specifiedReport L M opts)).map (·.filename) =
      (List.range (reportedSites M).length).map fun I =>
        opts.filename (BitVec.ofNat 32 I).toNat := by
    apply List.ext_getElem
    · simp
    · intro I hI hI'
      simp [specifiedReport]
  rw [hnames]
  exact (nodup_filenames_iff opts _).mpr hlen

theorem Pictured.agrees {D : DrawInfo} {opts : Options} {L : LLVM} {M : Module} {I : ℕ}
    {CB : CallBase} {d : Drawing} (h : Pictured D L M (thrownBy CB) CB d) :
    d.nodes.length = (specifiedReport L M opts I CB).numberOfNodes ∧
      (Node.leak ∈ d.drawn ↔ (specifiedReport L M opts I CB).leaked = true) := by
  constructor
  · have hnodes : {n | IsNode L M (thrownBy CB) CB n} = ↑d.drawn.toFinset := by
      ext n
      rw [List.coe_toFinset]
      exact (h.node n).symm
    unfold specifiedReport
    rw [hnodes, Set.ncard_coe_finset, List.toFinset_card_of_nodup h.nodup, Drawing.drawn,
      List.length_map]
  · rw [h.node, specifiedReport_leaked]
    constructor
    · intro hleak
      -- the leak node is no function, so it is there for a leak
      cases hleak with
      | leak hc hmain => exact ⟨_, hc, hmain⟩
    · intro hleak
      obtain ⟨c, hc, hmain⟩ := hleak
      exact .leak hc hmain

/-- **The pictures agree with the log**: as long as the counter does not start again, every report
whose graph is drawn has a file to itself, with one picture in it, of as many nodes as the report
says, and with the leak node exactly when the report says that the exception leaks. -/
theorem pictures_agree {D : DrawInfo} {opts : Options} {L : LLVM} {M : Module} {s : OutputState}
    (hs : outputPasses D opts L M = .ok s) (hlen : (reportedSites M).length ≤ 2 ^ 32) :
    ∀ r ∈ (reportedSites M).mapIdx (specifiedReport L M opts),
      opts.opens r.filename = true → r.getPrinted = true →
      ∃ d, s.files r.filename = some [d] ∧ Pictured D L M r.exceptionValue r.throwSite d ∧
        d.nodes.length = r.numberOfNodes ∧ (Node.leak ∈ d.drawn ↔ r.leaked = true) := by
  intro r hr hopen hprint
  have hfile := (outputs_of_outputPasses hs).files r.filename
  rw [lastReport_eq_some (nodup_filenames hlen) hr] at hfile
  obtain ⟨I, hI, rfl⟩ := List.mem_mapIdx.mp hr
  generalize s.files _ = content at hfile
  cases hfile with
  | notOpened h => rw [hopen] at h; exact absurd h nofun
  | tooLarge _ h => rw [hprint] at h; exact absurd h nofun
  | @picture _ _ _ d hd => exact ⟨d, rfl, hd, hd.agrees⟩

/-- The picture of the throw of `f`. -/
theorem pictures_agree_throwing :
    ∃ s, outputPasses Pads.drawInfo Pads.options .documented Pads.unguardedModule = .ok s ∧
      ∀ r ∈ (reportedSites Pads.unguardedModule).mapIdx
          (specifiedReport .documented Pads.unguardedModule Pads.options),
        Pads.options.opens r.filename = true → r.getPrinted = true →
        ∃ d, s.files r.filename = some [d] ∧
          Pictured Pads.drawInfo .documented Pads.unguardedModule r.exceptionValue r.throwSite d ∧
          d.nodes.length = r.numberOfNodes ∧ (Node.leak ∈ d.drawn ↔ r.leaked = true) := by
  obtain ⟨s, hs⟩ := Pads.exists_outputPasses
  exact ⟨s, hs, pictures_agree hs (by decide)⟩

end Ehgp
