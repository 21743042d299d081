import Ehgp.Specification
import Ehgp.Unwinding

/-!
# Verdicts and executions

What `Leaked` says of the program.  The module as the tool sees it is a program
whose calls and handlers are those of the specification, and its executions let
an exception out of main exactly when the tool says that it leaks.  The program
itself has fewer calls and more handlers, as long as the tool's view of it holds;
so an exception that gets out of it is reported.

## Main definitions

* `knownProgram` — the program as the tool sees it.
* `Covers` — the tool's view of a program holds.

## Main results

* `leaked_iff_escapes` — **what a verdict says.**
* `uncaught_reported` — **every exception that leaves main is reported to leak.**
-/

namespace Ehgp

open Unwinding

/-- The program as the tool sees it. -/
def knownProgram (L : LLVM) (M : Module) : Program CallBase Function (Option Value) where
  function := CallBase.function
  calls := IsCaller L M
  raises T X := Reportable T ∧ thrownBy T = X
  catches X c := Stops M X c

/-- The tool's view of a program holds: a function is called by calls the tool knows, what is
raised is raised at throw sites, and a landing pad the tool counts on catches. -/
structure Covers (L : LLVM) (M : Module) (P : Program CallBase Function Value) : Prop where
  function : ∀ c, P.function c = c.function
  calls : ∀ c F, P.calls c F → IsCaller L M c F
  raises : ∀ T X, P.raises T X → IsThrowSite M T ∧ ∀ V, thrownBy T = some V → V = X
  catches : ∀ T X, P.raises T X → ∀ c, Stops M (thrownBy T) c → P.catches X c

section

variable {L : LLVM} {M : Module} {opts : Options} {out : PrintState}

/-! ### What an exception meets -/

/-- **An exception spreads to the call sites it leaves**, at least up to the first one in main. -/
theorem spreads_of_meets {ε : Type*} {P : Program CallBase Function ε} {T c : CallBase} {e : ε}
    {X : Option Value} (hfunction : ∀ c, P.function c = c.function)
    (hcalls : ∀ c F, P.calls c F → IsCaller L M c F) (hcatches : ∀ c, Stops M X c → P.catches e c)
    (h : Meets P T e c) (hleaves : ¬ P.catches e c) : Spreads L M X T c ∨ Leaks L M X T := by
  induction h with
  | raised => exact Or.inl .throwSite
  | @caller c c' _ hleft hcall ih =>
    rcases ih hleft with hspreads | hleaks
    · by_cases hmain : c.function.IsMain
      · exact Or.inr ⟨c, hspreads, hmain⟩
      · rw [hfunction] at hcall
        exact Or.inl (hspreads.caller hmain (hcalls c' _ hcall) fun hstop =>
          hleaves (hcatches c' hstop))
    · exact Or.inr hleaks

theorem leaks_of_escapes {ε : Type*} {P : Program CallBase Function ε} {T : CallBase} {e : ε}
    {X : Option Value} {F : Function} (hfunction : ∀ c, P.function c = c.function)
    (hcalls : ∀ c F, P.calls c F → IsCaller L M c F) (hcatches : ∀ c, Stops M X c → P.catches e c)
    (hmain : F.IsMain) (h : Escapes P F T e) : Leaks L M X T := by
  obtain ⟨-, c, hmeets, hleaves, hF⟩ := escapes_iff.mp h
  rcases spreads_of_meets hfunction hcalls hcatches hmeets hleaves with hspreads | hleaks
  · rw [hfunction] at hF
    exact ⟨c, hspreads, hF ▸ hmain⟩
  · exact hleaks

/-- An exception meets the call sites it spreads to, and is caught at none of them,
unless its own landing pad stops it. -/
theorem Spreads.meets {X : Option Value} {T c : CallBase} (h : Spreads L M X T c)
    (hT : ¬ Stops M X T) : Meets (knownProgram L M) T X c ∧ ¬ Stops M X c := by
  induction h with
  | throwSite => exact ⟨.raised, hT⟩
  | caller _ _ hcaller hpasses ih => exact ⟨ih.1.caller ih.2 hcaller, hpasses⟩

theorem Leaks.escapes {X : Option Value} {T : CallBase} (h : Leaks L M X T)
    (hraises : Reportable T ∧ thrownBy T = X) (hT : ¬ Stops M X T) :
    ∃ F : Function, F.IsMain ∧ Escapes (knownProgram L M) F T X := by
  obtain ⟨c, hspreads, hmain⟩ := h
  obtain ⟨hmeets, hleaves⟩ := hspreads.meets hT
  exact ⟨c.function, hmain, escapes_iff.mpr ⟨hraises, c, hmeets, hleaves, rfl⟩⟩

/-! ### The reports of a run -/

theorem exists_site_of_report (h : runPasses opts L M = .ok out) {r : Report}
    (hr : r ∈ out.reports) : ∃ I, ∃ CB ∈ reportedSites M, r = specifiedReport L M opts I CB := by
  rw [runPasses_reports h] at hr
  obtain ⟨I, hI, rfl⟩ := List.mem_mapIdx.mp hr
  exact ⟨I, _, List.getElem_mem hI, rfl⟩

theorem exists_report_of_site (h : runPasses opts L M = .ok out) {CB : CallBase}
    (hCB : CB ∈ reportedSites M) : ∃ I, specifiedReport L M opts I CB ∈ out.reports := by
  rw [runPasses_reports h]
  obtain ⟨I, hI, rfl⟩ := List.getElem_of_mem hCB
  exact ⟨I, List.mem_mapIdx.mpr ⟨I, hI, rfl⟩⟩

theorem IsThrowSite.mem_reportedSites {CB : CallBase} (h : IsThrowSite M CB) :
    CB ∈ reportedSites M := by
  obtain ⟨hmem, hout, F, hcallee, htrack⟩ := h
  exact Ehgp.mem_reportedSites.mpr ⟨hmem, hout, F, hcallee ▸ CB.calledOperand_mem, htrack⟩

end

/-! #### A throw that nothing stops -/

namespace Pads

/-- The program in which `main` calls `f`, and `f` throws an `A`. -/
def throwingProgram : Program CallBase Function Value where
  function := CallBase.function
  calls c F := c = callOfF ∧ F = f
  raises T X := T = throwA ∧ X = .globalVariable typeInfoA
  catches X c := Stops unguardedModule (some X) c

theorem not_stops_of_call {M : Module} {X : Option Value} {c : CallBase} (h : c.kind = .call) :
    ¬ Stops M X c := by
  intro hstop
  obtain ⟨clause, hclause, hstops⟩ := hstop
  exact CallBase.forall_padClauses_of_call h (fun clause => ¬ clause.Stops M X) clause hclause
    hstops

theorem covers_throwingProgram : Covers .documented unguardedModule throwingProgram where
  function _ := rfl
  calls c F h := by
    obtain ⟨rfl, rfl⟩ := h
    exact ⟨by decide, Or.inl (by decide)⟩
  raises T X h := by
    obtain ⟨rfl, rfl⟩ := h
    refine ⟨mem_throwSites.mp (by decide), ?_⟩
    intro V hV
    exact (Option.some.inj hV).symm
  catches T X h c hstop := by
    obtain ⟨rfl, rfl⟩ := h
    exact hstop

theorem escapes_throwingProgram :
    Escapes throwingProgram main throwA (.globalVariable typeInfoA) := by
  have hmeets : Meets throwingProgram throwA (.globalVariable typeInfoA) callOfF :=
    .caller .raised (not_stops_of_call rfl) ⟨rfl, rfl⟩
  exact escapes_iff.mpr ⟨⟨rfl, rfl⟩, callOfF, hmeets, not_stops_of_call rfl, rfl⟩

/-- Options under which every file opens and every graph is small enough. -/
def options : Options := ⟨"out", 200, fun _ => true⟩

theorem exists_runPasses : ∃ out, runPasses options .documented unguardedModule = .ok out :=
  ⟨_, rfl⟩

end Pads

/-- **What a verdict says**: unless the landing pad of the throw site stops the exception itself,
a report says that an exception leaks exactly when some execution of the program the tool sees
lets it out of main. -/
theorem leaked_iff_escapes {opts : Options} {L : LLVM} {M : Module} {out : PrintState}
    (h : runPasses opts L M = .ok out) {r : Report} (hr : r ∈ out.reports)
    (hT : ¬ Stops M r.exceptionValue r.throwSite) :
    r.leaked = true ↔ ∃ F : Function, F.IsMain ∧
      Escapes (knownProgram L M) F r.throwSite r.exceptionValue := by
  obtain ⟨I, CB, hCB, rfl⟩ := exists_site_of_report h hr
  have hraises : Reportable CB := ((runPasses_comesThrough_iff opts L M).mp ⟨out, h⟩).2 CB hCB
  rw [specifiedReport_leaked]
  constructor
  · intro hleaks
    exact hleaks.escapes ⟨hraises, rfl⟩ hT
  · intro hescapes
    obtain ⟨F, hmain, hescapes⟩ := hescapes
    exact leaks_of_escapes (P := knownProgram L M) (fun _ => rfl) (fun _ _ h => h)
      (fun _ h => h) hmain hescapes

/-- The verdict on the throw of `f`, which is not caught. -/
theorem leaked_iff_escapes_throwing :
    ∃ out, runPasses Pads.options .documented Pads.unguardedModule = .ok out ∧
      ∃ r ∈ out.reports, r.throwSite = Pads.throwA ∧
        (r.leaked = true ↔ ∃ F : Function, F.IsMain ∧
          Escapes (knownProgram .documented Pads.unguardedModule) F r.throwSite
            r.exceptionValue) := by
  obtain ⟨out, hout⟩ := Pads.exists_runPasses
  have hsite : Pads.throwA ∈ reportedSites Pads.unguardedModule := by decide
  obtain ⟨I, hr⟩ := exists_report_of_site hout hsite
  refine ⟨out, hout, _, hr, rfl, ?_⟩
  exact leaked_iff_escapes hout hr (Pads.not_stops_of_call rfl)

/-- **Every exception that leaves main is reported to leak**, whatever the program does otherwise,
as long as the tool's view of it holds. -/
theorem uncaught_reported {opts : Options} {L : LLVM} {M : Module} {out : PrintState}
    {P : Program CallBase Function Value} {F : Function} {T : CallBase} {X : Value}
    (h : runPasses opts L M = .ok out) (hP : Covers L M P) (hmain : F.IsMain)
    (hescapes : Escapes P F T X) :
    ∃ r ∈ out.reports, r.throwSite = T ∧ r.exceptionValue = thrownBy T ∧ r.leaked = true := by
  have hraises : P.raises T X := (escapes_iff.mp hescapes).1
  have hleaks : Leaks L M (thrownBy T) T :=
    leaks_of_escapes hP.function hP.calls (hP.catches T X hraises) hmain hescapes
  obtain ⟨I, hI⟩ := exists_report_of_site h (hP.raises T X hraises).1.mem_reportedSites
  exact ⟨_, hI, rfl, rfl, specifiedReport_leaked.mpr hleaks⟩

/-- The throw of `f` leaves main, and is reported. -/
theorem uncaught_reported_throwing :
    ∃ out, runPasses Pads.options .documented Pads.unguardedModule = .ok out ∧
      ∃ r ∈ out.reports, r.throwSite = Pads.throwA ∧
        r.exceptionValue = thrownBy Pads.throwA ∧ r.leaked = true := by
  obtain ⟨out, hout⟩ := Pads.exists_runPasses
  exact ⟨out, hout, uncaught_reported hout Pads.covers_throwingProgram (F := Pads.main) rfl
    Pads.escapes_throwingProgram⟩

end Ehgp
