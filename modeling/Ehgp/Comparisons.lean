import Ehgp.Composition

/-!
# Comparing two exceptions

How far an exception spreads is monotone: with more callers, and with less that
stops it, it spreads further, leaks more often and has a larger graph.  So an
exception of a derived class spreads no further than one of its base class thrown
in the same function: whatever stops the base class stops it.

## Main definitions

* `Hereditary` — the vtables name the bases of the bases they name.

## Main results

* `Spreads.mono`, `Leaks.mono`, `IsNode.mono` — more callers and fewer stops.
* `derived_noFurther` — **an exception of a derived class spreads no further.**
-/

namespace Ehgp

section

variable {L L' : LLVM} {M M' : Module} {X X' : Option Value} {T c : CallBase}

/-! ### More callers and fewer stops -/

/-- **With more callers, and less that stops it, an exception spreads further.** -/
theorem Spreads.mono (h : Spreads L M X T c)
    (hcallers : ∀ c F, IsCaller L M c F → IsCaller L' M' c F)
    (hstops : ∀ c, Stops M' X' c → Stops M X c) : Spreads L' M' X' T c := by
  induction h with
  | throwSite => exact .throwSite
  | caller _ hmain hcaller hpasses ih =>
    exact ih.caller hmain (hcallers _ _ hcaller) fun hstop => hpasses (hstops _ hstop)

theorem Leaks.mono (h : Leaks L M X T) (hcallers : ∀ c F, IsCaller L M c F → IsCaller L' M' c F)
    (hstops : ∀ c, Stops M' X' c → Stops M X c) : Leaks L' M' X' T := by
  obtain ⟨c, hc, hmain⟩ := h
  exact ⟨c, hc.mono hcallers hstops, hmain⟩

theorem IsNode.mono {n : Node} (h : IsNode L M X T n)
    (hcallers : ∀ c F, IsCaller L M c F → IsCaller L' M' c F)
    (hstops : ∀ c, Stops M' X' c → Stops M X c) : IsNode L' M' X' T n := by
  cases h with
  | left hc => exact .left (hc.mono hcallers hstops)
  | caller hc hmain hcaller =>
    exact .caller (hc.mono hcallers hstops) hmain (hcallers _ _ hcaller)
  | leak hc hmain => exact .leak (hc.mono hcallers hstops) hmain

theorem finite_isNode {A : VCallCandidatesAnalyzer}
    (hA : VCallCandidatesAnalyzer.analyze L M .fresh = .ok A) (X : Option Value) (T : CallBase) :
    {n | IsNode L M X T n}.Finite := by
  have hspec := buildChildsMap_asSpecified hA X T ∅
  refine Set.Finite.subset (List.finite_toSet
    (buildChildsMap M ⟨X, T⟩ ∅ A (ICallSolver.solve M .fresh)).childsMap.keys) ?_
  intro n hn
  exact (hspec.node n).mpr hn

/-! ### Derived classes -/

variable (M) in
/-- The vtables name the bases of the bases they name. -/
def Hereditary : Prop :=
  ∀ A B C : GlobalVariable, RecordsSubclass M (some A) (some B) →
    RecordsSubclass M (some B) (some C) → RecordsSubclass M (some A) (some C)

theorem stops_of_derived (hM : Hereditary M) {B D : GlobalVariable}
    (hderived : RecordsSubclass M (some B) (some D)) {c : CallBase}
    (h : Stops M (some (.globalVariable B)) c) : Stops M (some (.globalVariable D)) c := by
  obtain ⟨clause, hclause, hstops⟩ := h
  refine ⟨clause, hclause, ?_⟩
  cases clause with
  | filterClause _ => exact hstops
  | catchClause typeInfo =>
    rcases hstops with hnull | hsame | ⟨A, B', hbase, hA, hB'⟩
    · exact Or.inl hnull
    · exact Or.inr (Or.inr ⟨B, D, hderived, hsame, rfl⟩)
    · rw [← Value.globalVariable.inj hB'] at hbase
      exact Or.inr (Or.inr ⟨A, D, hM A B D hbase hderived, hA, rfl⟩)

end

/-- Whether the bases of the vtables are inherited can be read off the analyzer. -/
theorem hereditary_of_pairs {L : LLVM} {M : Module} {A : VCallCandidatesAnalyzer}
    (hA : VCallCandidatesAnalyzer.analyze L M .fresh = .ok A)
    (h : ∀ p ∈ A.subclassesMap.pairs, ∀ q ∈ A.subclassesMap.pairs, p.2 = q.1 →
      q.2 ∈ A.subclassesMap.get p.1) : Hereditary M := by
  intro B C D hBC hCD
  rw [recordsSubclass_iff_mem hA] at hBC hCD ⊢
  exact h (_, _) (SetMap.mem_pairs.mpr hBC) (_, _) (SetMap.mem_pairs.mpr hCD) rfl

/-! #### Two classes

`D` is derived from `B`; `f` throws both, and `main` calls `f` with a handler for `B`. -/

namespace Classes

/-- The type info of the base. -/
def typeInfoB : GlobalVariable := ⟨60, "_ZTI1B", .external, true, false, .visibilityPublic, []⟩

/-- The type info of the derived class. -/
def typeInfoD : GlobalVariable := ⟨61, "_ZTI1D", .external, true, false, .visibilityPublic, []⟩

/-- The vtable of the base, with an entry for itself only. -/
def vtableB : GlobalVariable :=
  ⟨62, "_ZTV1B", .linkOnceODR, true, false, .visibilityLinkageUnit, [⟨16, .string "_ZTS1B"⟩]⟩

/-- The vtable of the derived class, with an entry for both. -/
def vtableD : GlobalVariable :=
  ⟨63, "_ZTV1D", .linkOnceODR, true, false, .visibilityLinkageUnit,
    [⟨16, .string "_ZTS1B"⟩, ⟨16, .string "_ZTS1D"⟩]⟩

/-- The throw of a `B`. -/
def throwB : CallBase :=
  .ofCallee 70 Pads.f (Pads.plain 20) (.function Pads.cxaThrow)
    [.other 0, .globalVariable typeInfoB, .null]

/-- The throw of a `D`. -/
def throwD : CallBase :=
  .ofCallee 71 Pads.f (Pads.plain 20) (.function Pads.cxaThrow)
    [.other 1, .globalVariable typeInfoD, .null]

/-- The call of `f` in `main`, with the handler for `B`. -/
def guardedCall : CallBase := { Pads.callOfF with
  kind := .invoke (Pads.plain 24) (Pads.handler 25 typeInfoB) }

/-- A program with both throws and the guarded call. -/
def classesModule : Module :=
  .ofData (.ofCalls [Pads.f, Pads.main, Pads.cxaThrow] [typeInfoB, typeInfoD, vtableB, vtableD]
    [throwB, throwD, guardedCall]) (by decide)

theorem exists_analyze :
    ∃ A, VCallCandidatesAnalyzer.analyze .documented classesModule .fresh = .ok A ∧
      (∀ p ∈ A.subclassesMap.pairs, ∀ q ∈ A.subclassesMap.pairs, p.2 = q.1 →
        q.2 ∈ A.subclassesMap.get p.1) ∧
      some (.globalVariable typeInfoD) ∈
        A.subclassesMap.get (some (.globalVariable typeInfoB)) :=
  ⟨_, rfl, by decide, by decide⟩

theorem exists_runPasses :
    ∃ out, runPasses Pads.options .documented classesModule = .ok out := ⟨_, rfl⟩

end Classes

/-- **An exception of a derived class spreads no further**: where the vtables name the bases of the
bases they name, an exception of a class derived from another one leaks only if one of that class
thrown in the same function does, and its graph is no larger. -/
theorem derived_noFurther {opts : Options} {L : LLVM} {M : Module} {out : PrintState}
    (h : runPasses opts L M = .ok out) (hM : Hereditary M) {r r' : Report} (hr : r ∈ out.reports)
    (hr' : r' ∈ out.reports) (hF : r'.throwSite.function = r.throwSite.function)
    {B D : GlobalVariable} (hB : r.exceptionValue = some (.globalVariable B))
    (hD : r'.exceptionValue = some (.globalVariable D))
    (hderived : RecordsSubclass M (some B) (some D)) :
    (r'.leaked = true → r.leaked = true) ∧ r'.numberOfNodes ≤ r.numberOfNodes ∧
      (r.getPrinted = true → r'.getPrinted = true) := by
  obtain ⟨A, hA, -⟩ := runPasses_eq_ok.mp h
  obtain ⟨I, CB, -, rfl⟩ := exists_site_of_report h hr
  obtain ⟨I', CB', -, rfl⟩ := exists_site_of_report h hr'
  have hbase : thrownBy CB = some (.globalVariable B) := hB
  have hthrown : thrownBy CB' = some (.globalVariable D) := hD
  have hfunction : CB'.function = CB.function := hF
  -- what stops a `B` stops a `D`
  have hstops : ∀ c, Stops M (thrownBy CB) c → Stops M (thrownBy CB') c := by
    rw [hbase, hthrown]
    exact fun c => stops_of_derived hM hderived
  -- so the graph of the `D` is a part of that of the `B`
  have hnodes : {n | IsNode L M (thrownBy CB') CB' n}.ncard ≤
      {n | IsNode L M (thrownBy CB) CB n}.ncard := by
    refine Set.ncard_le_ncard ?_ (finite_isNode hA _ _)
    intro n hn
    exact (hn.mono (fun _ _ h => h) hstops).of_function hfunction
  refine ⟨?_, hnodes, ?_⟩
  · rw [specifiedReport_leaked, specifiedReport_leaked]
    intro hleaks
    exact (hleaks.mono (fun _ _ h => h) hstops).of_function hfunction
  · unfold specifiedReport
    simp only [decide_eq_true_eq]
    exact hnodes.trans

/-- The throws of `B` and of `D` in `f`. -/
theorem derived_noFurther_classes :
    ∃ out, runPasses Pads.options .documented Classes.classesModule = .ok out ∧
      ∃ r ∈ out.reports, ∃ r' ∈ out.reports, r.throwSite = Classes.throwB ∧
        r'.throwSite = Classes.throwD ∧ r'.numberOfNodes ≤ r.numberOfNodes := by
  obtain ⟨out, hout⟩ := Classes.exists_runPasses
  obtain ⟨A, hA, hpairs, hmem⟩ := Classes.exists_analyze
  obtain ⟨I, hr⟩ := exists_report_of_site hout (show Classes.throwB ∈ _ by decide)
  obtain ⟨I', hr'⟩ := exists_report_of_site hout (show Classes.throwD ∈ _ by decide)
  refine ⟨out, hout, _, hr, _, hr', rfl, rfl, ?_⟩
  exact (derived_noFurther hout (hereditary_of_pairs hA hpairs) hr hr' rfl rfl rfl
    ((recordsSubclass_iff_mem hA).mpr hmem)).2.1

end Ehgp
