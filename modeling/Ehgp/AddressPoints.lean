import Ehgp.ExceptFold
import Ehgp.IndirectCallAnalysis

/-!
# The address points `analyze` collects

The first pass goes over the `!type` nodes of the vtables.  It is described by
the address points it adds, one type node after another, and by the type ids it
accepts.

## Main definitions

* `IsAddressPoint` — the address points of the vtables the tool trusts.
* `Adds` — what a piece of the first pass adds.
* `TypeIdsAccepted` — the type ids the first pass accepts.

## Main results

* `collect_adds` — **what the first pass collects.**
* `collect_eq_ok_iff`, `collect_error` — when it comes through, and what stops it.
-/

namespace Ehgp

open VCallCandidatesAnalyzer

/-! ### Address points -/

/-- An address point for the type id `t`: an entry of a vtable without public visibility. -/
structure IsAddressPoint (M : Module) (t : StringRef) (AP : AddressPoint) : Prop where
  mem : AP.1 ∈ M.globals
  visibility : AP.1.vcallVisibility ≠ .visibilityPublic
  vtable : "_ZTV".toList <+: AP.1.name
  entry : ⟨AP.2, .string t⟩ ∈ AP.1.types
  plain : ¬ ".virtual".toList <:+ t

/-- From `A` to `A'` the address points `P` have been added, and no caller. -/
structure Adds (P : StringRef → AddressPoint → Prop) (A A' : VCallCandidatesAnalyzer) : Prop where
  points : ∀ t AP, AP ∈ A'.typeIdCompatibleMap.get t ↔ P t AP ∨ AP ∈ A.typeIdCompatibleMap.get t
  ids : ∀ t, t ∈ A'.typeIdCompatibleMap ↔ (∃ AP, P t AP) ∨ t ∈ A.typeIdCompatibleMap
  callers : A'.callerMap = A.callerMap

namespace Adds

variable {P Q : StringRef → AddressPoint → Prop} {A A' A'' : VCallCandidatesAnalyzer}

theorem congr (h : Adds P A A') (hPQ : ∀ t AP, P t AP ↔ Q t AP) : Adds Q A A' where
  points t AP := by rw [h.points, hPQ]
  ids t := by rw [h.ids]; simp only [hPQ]
  callers := h.callers

theorem none (A : VCallCandidatesAnalyzer) (hP : ∀ t AP, ¬ P t AP) : Adds P A A where
  points t AP := by simp [hP]
  ids t := by simp [hP]
  callers := rfl

theorem trans (h : Adds P A A') (h' : Adds Q A' A'') :
    Adds (fun t AP => Q t AP ∨ P t AP) A A'' where
  points t AP := by rw [h'.points, h.points, or_assoc]
  ids t := by rw [h'.ids, h.ids, exists_or, or_assoc]
  callers := h'.callers.trans h.callers

/-- **A fold adds what its steps add.** -/
theorem foldlM {α : Type*} {f : VCallCandidatesAnalyzer → α → Except Abort VCallCandidatesAnalyzer}
    {Q : α → StringRef → AddressPoint → Prop} {l : List α}
    (hstep : ∀ a ∈ l, ∀ A A', f A a = .ok A' → Adds (Q a) A A') (h : l.foldlM f A = .ok A') :
    Adds (fun t AP => ∃ a ∈ l, Q a t AP) A A' := by
  refine List.foldlM_ok_induction (P := fun done s => Adds (fun t AP => ∃ a ∈ done, Q a t AP) A s)
    h (Adds.none A (by simp)) ?_
  intro done a s s' ha hdone hs
  refine (hdone.trans (hstep a ha s s' hs)).congr fun t AP => ?_
  simp only [List.mem_append, List.mem_singleton, or_and_right, exists_or, exists_eq_left]
  exact or_comm

end Adds

/-- A type node whose id the first pass records. -/
def TypeNode.Records (Node : TypeNode) (t : StringRef) : Prop :=
  Node.typeID = .string t ∧ ¬ ".virtual".toList <:+ t

/-- A type node adds its address point, when its id is a string without the member-pointer
suffix. -/
theorem collectType_adds {M : Module} {GV : GlobalVariable} {TI : Option GlobalVariable}
    {Node : TypeNode} {A A' : VCallCandidatesAnalyzer}
    (h : collectType M GV TI A Node = .ok A') :
    Adds (fun t AP => Node.Records t ∧ AP = (GV, Node.offset)) A A' := by
  unfold collectType at h
  split at h
  · next t ht =>
    split at h
    · -- a member-pointer id is skipped
      next hvirtual =>
      cases h
      refine Adds.none _ ?_
      rintro t' AP ⟨⟨ht', hplain⟩, -⟩
      rw [ht, Metadata.string.injEq] at ht'
      exact hplain (ht' ▸ StringRef.endsWith_iff.mp hvirtual)
    · next hplain =>
      -- any other string id is recorded, and only that one
      have hrec : ∀ t', Node.Records t' ↔ t' = t := by
        intro t'
        rw [TypeNode.Records, ht, Metadata.string.injEq, eq_comm (a := t)]
        refine ⟨And.left, ?_⟩
        rintro rfl
        exact ⟨rfl, fun hv => hplain (StringRef.endsWith_iff.mpr hv)⟩
      dsimp only at h
      split at h
      · cases h
      · cases h
        refine ⟨fun t' AP => ?_, fun t' => ?_, rfl⟩
        · simp only [insertAddressPoint, SetMap.mem_get_insertAt, hrec]
        · simp only [insertAddressPoint, SetMap.mem_insertAt, hrec, exists_and_left,
            exists_eq, and_true]
  · next ht =>
    cases h
    -- an id that is no string adds nothing
    refine Adds.none _ ?_
    rintro t' AP ⟨⟨ht', -⟩, -⟩
    rw [ht] at ht'
    cases ht'

/-- What stops the first pass at a type node. -/
theorem collectType_eq_ok_iff (M : Module) (GV : GlobalVariable) (TI : Option GlobalVariable)
    (Node : TypeNode) (A : VCallCandidatesAnalyzer) :
    (∃ A', collectType M GV TI A Node = .ok A') ↔
      ∀ t, Node.Records t → "_ZTS".toList <+: t := by
  unfold collectType TypeNode.Records
  cases hid : Node.typeID with
  | other id => simp
  | string t =>
    simp only [Metadata.string.injEq, and_imp, forall_eq']
    split
    · next hvirtual =>
      exact ⟨fun _ hplain => absurd (StringRef.endsWith_iff.mp hvirtual) hplain,
        fun _ => ⟨A, rfl⟩⟩
    · next hplain =>
      have hplain' : ¬ ".virtual".toList <:+ t := fun hv => hplain (StringRef.endsWith_iff.mpr hv)
      rw [forall_prop_of_true hplain', ← StringRef.consumeFront_isSome]
      cases t.consumeFront "_ZTS" <;> simp

theorem collectType_error {M : Module} {GV : GlobalVariable} {TI : Option GlobalVariable}
    {Node : TypeNode} {A : VCallCandidatesAnalyzer} {e : Abort}
    (h : collectType M GV TI A Node = .error e) : e = .unreachableTypeId := by
  unfold collectType at h
  split at h
  · split at h
    · cases h
    · dsimp only at h
      split at h
      · cases h
        rfl
      · cases h
  · cases h

/-- The vtables the first pass looks at. -/
def IsVTable (GV : GlobalVariable) : Prop :=
  GV.vcallVisibility ≠ .visibilityPublic ∧ "_ZTV".toList <+: GV.name

theorem collectGlobal_eq (M : Module) (A : VCallCandidatesAnalyzer) (GV : GlobalVariable) :
    (¬ IsVTable GV ∧ collectGlobal M A GV = .ok A) ∨
      (IsVTable GV ∧ ∃ TI, collectGlobal M A GV = GV.types.foldlM (collectType M GV TI) A) := by
  unfold collectGlobal IsVTable
  split
  · next h => exact Or.inl ⟨fun hv => hv.1 h, rfl⟩
  · next hvis =>
    have hiff := StringRef.consumeFront_isSome (s := GV.name) (p := "_ZTV")
    split
    · next h =>
      rw [h] at hiff
      exact Or.inl ⟨fun hv => absurd (hiff.mpr hv.2) (by simp), rfl⟩
    · next GVName h =>
      rw [h] at hiff
      exact Or.inr ⟨⟨hvis, hiff.mp rfl⟩, _, rfl⟩

/-- **What the first pass collects.** -/
theorem collect_adds {M : Module} {A A' : VCallCandidatesAnalyzer}
    (h : M.globals.foldlM (collectGlobal M) A = .ok A') : Adds (IsAddressPoint M) A A' := by
  -- one variable adds its own address points, if it is a vtable
  have hglobal : ∀ GV ∈ M.globals, ∀ A A', collectGlobal M A GV = .ok A' →
      Adds (fun t AP => IsVTable GV ∧ ∃ Node ∈ GV.types, Node.Records t ∧ AP = (GV, Node.offset))
        A A' := by
    intro GV _ A A' h
    rcases collectGlobal_eq M A GV with ⟨hno, heq⟩ | ⟨hyes, TI, heq⟩
    · rw [heq] at h
      cases h
      exact Adds.none _ fun t AP hP => hno hP.1
    · rw [heq] at h
      refine (Adds.foldlM (f := collectType M GV TI)
        (Q := fun Node t AP => Node.Records t ∧ AP = (GV, Node.offset))
        (fun Node _ A A' => collectType_adds) h).congr fun t AP => ?_
      exact (and_iff_right hyes).symm
  refine (Adds.foldlM hglobal h).congr fun t AP => ⟨?_, ?_⟩
  · rintro ⟨GV, hGV, ⟨hvis, hname⟩, Node, hNode, ⟨hid, hplain⟩, rfl⟩
    refine ⟨hGV, hvis, hname, ?_, hplain⟩
    rw [← hid]
    exact hNode
  · rintro ⟨hmem, hvis, hname, hentry, hplain⟩
    exact ⟨AP.1, hmem, ⟨hvis, hname⟩, _, hentry, ⟨rfl, hplain⟩, rfl⟩

/-- The type ids the first pass accepts. -/
def TypeIdsAccepted (M : Module) : Prop := ∀ t AP, IsAddressPoint M t AP → "_ZTS".toList <+: t

/-- **The first pass comes through exactly when it accepts every type id.** -/
theorem collect_eq_ok_iff (M : Module) (A : VCallCandidatesAnalyzer) :
    (∃ A', M.globals.foldlM (collectGlobal M) A = .ok A') ↔ TypeIdsAccepted M := by
  constructor
  · rintro ⟨A', h⟩ t ⟨GV, o⟩ ⟨hmem, hvis, hname, hentry, hplain⟩
    -- the run went through the variable of the address point, and through its type node
    obtain ⟨s, s', -, hs⟩ := List.step_ok_of_foldlM_ok (fun _ => True) (by simp) trivial h GV hmem
    rcases collectGlobal_eq M s GV with ⟨hno, -⟩ | ⟨-, TI, heq⟩
    · exact absurd ⟨hvis, hname⟩ hno
    · rw [heq] at hs
      obtain ⟨r, r', -, hr⟩ :=
        List.step_ok_of_foldlM_ok (fun _ => True) (by simp) trivial hs _ hentry
      exact (collectType_eq_ok_iff M GV TI _ r).mp ⟨r', hr⟩ t ⟨rfl, hplain⟩
  · intro hids
    have hstep : ∀ GV ∈ M.globals, ∀ s, True →
        ∃ s', collectGlobal M s GV = .ok s' ∧ True := by
      intro GV hGV s _
      rcases collectGlobal_eq M s GV with ⟨-, heq⟩ | ⟨hyes, TI, heq⟩
      · exact ⟨s, heq, trivial⟩
      · rw [heq]
        refine List.foldlM_eq_ok (fun _ => True) (fun Node hNode r _ => ?_) trivial
        obtain ⟨r', hr⟩ := (collectType_eq_ok_iff M GV TI Node r).mpr fun t ht =>
          hids t (GV, Node.offset) ⟨hGV, hyes.1, hyes.2, ht.1 ▸ hNode, ht.2⟩
        exact ⟨r', hr, trivial⟩
    obtain ⟨A', h, -⟩ := List.foldlM_eq_ok (fun _ => True) hstep (s := A) trivial
    exact ⟨A', h⟩

theorem collect_error {M : Module} {A : VCallCandidatesAnalyzer} {e : Abort}
    (h : M.globals.foldlM (collectGlobal M) A = .error e) : e = .unreachableTypeId := by
  obtain ⟨GV, -, s, -, hs⟩ := List.exists_step_of_foldlM_error (fun _ => True) (by simp) trivial h
  rcases collectGlobal_eq M s GV with ⟨-, heq⟩ | ⟨-, TI, heq⟩
  · rw [heq] at hs
    cases hs
  · rw [heq] at hs
    obtain ⟨Node, -, r, -, hr⟩ :=
      List.exists_step_of_foldlM_error (fun _ => True) (by simp) trivial hs
    exact collectType_error hr

end Ehgp
