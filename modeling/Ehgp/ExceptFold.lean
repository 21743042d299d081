import Mathlib.Data.List.Basic
import Mathlib.Data.List.Induction
import Mathlib.Tactic.Common

/-!
# Folds that may stop with an error

Rules for `List.foldlM` in `Except`: what holds when the fold comes through, when
it does come through, and what stopped it when it does not.

## Main results

* `List.foldlM_related_done`, `List.foldlM_related` — two folds step by step.
* `List.foldlM_ok_induction` — the induction rule for a fold that comes through.
* `List.foldlM_iff_exists` — a fold whose steps each add a case to a predicate.
* `List.foldlM_eq_ok` — a fold whose steps all come through comes through.
* `List.foldlM_ok_or_stop` — a fold comes through, or up to its first bad element.
* `List.foldlM_eq_error_iff` — a fold fails at its first step that does.
* `List.exists_step_of_foldlM_error` — a failed fold has a failed step.
* `List.step_ok_of_foldlM_ok` — the steps of a fold that comes through do.
* `List.foldlM_flatMap` — a fold over a concatenation is a fold of folds.
-/

namespace Except

universe u v

variable {ε : Type u} {α β : Type v}

theorem bind_eq_ok {x : Except ε α} {f : α → Except ε β} {b : β} :
    (x >>= f) = .ok b ↔ ∃ a, x = .ok a ∧ f a = .ok b := by
  cases x with
  | error e => exact ⟨nofun, fun ⟨_, h, _⟩ => absurd h nofun⟩
  | ok a => exact ⟨fun h => ⟨a, rfl, h⟩, fun ⟨_, h, h'⟩ => by cases h; exact h'⟩

theorem bind_eq_error {x : Except ε α} {f : α → Except ε β} {e : ε} :
    (x >>= f) = .error e ↔ x = .error e ∨ ∃ a, x = .ok a ∧ f a = .error e := by
  cases x with
  | error e' =>
    refine ⟨fun h => Or.inl ?_, ?_⟩
    · cases h
      rfl
    · rintro (h | ⟨_, h, _⟩)
      · cases h
        rfl
      · exact absurd h nofun
  | ok a =>
    refine ⟨fun h => Or.inr ⟨a, rfl, h⟩, ?_⟩
    rintro (h | ⟨_, h, h'⟩)
    · exact absurd h nofun
    · cases h
      exact h'

/-- Two computations stop with the same error, or come through with related results. -/
def Related {γ : Type*} (R : α → γ → Prop) : Except ε α → Except ε γ → Prop
  | .ok a, .ok c => R a c
  | .error e, .error e' => e = e'
  | _, _ => False

theorem Related.cases {γ : Type*} {R : α → γ → Prop} {x : Except ε α} {y : Except ε γ}
    (h : Related R x y) :
    (∃ e, x = .error e ∧ y = .error e) ∨ ∃ a c, x = .ok a ∧ y = .ok c ∧ R a c := by
  cases x with
  | error e =>
    cases y with
    | error e' => exact Or.inl ⟨e, rfl, congrArg _ (Eq.symm h)⟩
    | ok c => exact h.elim
  | ok a =>
    cases y with
    | error e' => exact h.elim
    | ok c => exact Or.inr ⟨a, c, rfl, rfl, h⟩

theorem Related.mono {γ : Type*} {R Q : α → γ → Prop} {x : Except ε α} {y : Except ε γ}
    (h : Related R x y) (hRQ : ∀ a c, R a c → Q a c) : Related Q x y := by
  rcases h.cases with ⟨e, rfl, rfl⟩ | ⟨a, c, rfl, rfl, hR⟩
  · exact rfl
  · exact hRQ a c hR

end Except

namespace List

variable {ε α β σ : Type*} {f : σ → α → Except ε σ}

/-- **Two folds whose steps keep a relation**, which may look at the part done, stop with the same
error or end in related states. -/
theorem foldlM_related_done {τ : Type*} {g : τ → α → Except ε τ} {R : List α → σ → τ → Prop}
    {l : List α}
    (hstep : ∀ done a rest s t, l = done ++ a :: rest → R done s t →
      Except.Related (R (done ++ [a])) (f s a) (g t a)) {s : σ} {t : τ} (h : R [] s t) :
    Except.Related (R l) (l.foldlM f s) (l.foldlM g t) := by
  suffices hgen : ∀ (rest done : List α) (s : σ) (t : τ), l = done ++ rest → R done s t →
      Except.Related (R l) (rest.foldlM f s) (rest.foldlM g t) from hgen l [] s t rfl h
  -- the induction is on the part to come, with the part done growing beside it
  intro rest
  induction rest with
  | nil =>
    intro done s t hl hR
    rw [hl, append_nil]
    exact hR
  | cons a rest ih =>
    intro done s t hl hR
    rw [foldlM_cons, foldlM_cons]
    rcases (hstep done a rest s t hl hR).cases with ⟨e, hs, ht⟩ | ⟨s', t', hs, ht, hR'⟩
    · rw [hs, ht]
      exact rfl
    · rw [hs, ht]
      exact ih (done ++ [a]) s' t' (by rw [hl, append_assoc, singleton_append]) hR'

/-- The rule for a relation on the states alone. -/
theorem foldlM_related {τ : Type*} {g : τ → α → Except ε τ} {R : σ → τ → Prop} {l : List α}
    (hstep : ∀ a ∈ l, ∀ s t, R s t → Except.Related R (f s a) (g t a)) {s : σ} {t : τ}
    (h : R s t) : Except.Related R (l.foldlM f s) (l.foldlM g t) := by
  refine foldlM_related_done (R := fun _ => R) ?_ h
  intro done a rest s t hl hR
  exact hstep a (by simp [hl]) s t hR

/-- A fold with its errors renamed is the fold of the steps with their errors renamed. -/
theorem mapError_foldlM {ε' : Type*} (g : ε → ε') (l : List α) (s : σ) :
    (l.foldlM f s).mapError g = l.foldlM (fun s a => (f s a).mapError g) s := by
  induction l generalizing s with
  | nil => rfl
  | cons a l ih =>
    rw [foldlM_cons, foldlM_cons]
    cases f s a with
    | error e => rfl
    | ok s' => exact ih s'

theorem foldlM_flatMap (g : β → List α) (l : List β) (s : σ) :
    (l.flatMap g).foldlM f s = l.foldlM (fun s b => (g b).foldlM f s) s := by
  induction l generalizing s with
  | nil => rfl
  | cons b l ih =>
    rw [flatMap_cons, foldlM_append, foldlM_cons]
    congr 1
    funext s'
    exact ih s'

/-- **The induction rule for a fold that comes through**, on the part done. -/
theorem foldlM_ok_induction {P : List α → σ → Prop} {l : List α} {s s' : σ}
    (h : l.foldlM f s = .ok s') (hs : P [] s)
    (hstep : ∀ done a s s', a ∈ l → P done s → f s a = .ok s' → P (done ++ [a]) s') :
    P l s' := by
  suffices hgen : ∀ (rest done : List α) (s : σ), (∀ a ∈ rest, a ∈ l) → P done s →
      rest.foldlM f s = .ok s' → P (done ++ rest) s' from hgen l [] s (fun _ => id) hs h
  intro rest
  induction rest with
  | nil =>
    intro done s _ hP h
    rw [append_nil]
    cases h
    exact hP
  | cons a rest ih =>
    intro done s hl hP h
    rw [foldlM_cons, Except.bind_eq_ok] at h
    obtain ⟨s₁, ha, h⟩ := h
    have hP₁ := hstep done a s s₁ (hl a mem_cons_self) hP ha
    have := ih (done ++ [a]) s₁ (fun b hb => hl b (mem_cons_of_mem _ hb)) hP₁ h
    rwa [append_assoc, singleton_append] at this

/-- **A fold whose steps each add a case to a predicate** adds all of them. -/
theorem foldlM_iff_exists {P : σ → Prop} {Q : α → Prop} {l : List α} {s s' : σ}
    (h : l.foldlM f s = .ok s')
    (hstep : ∀ a ∈ l, ∀ s s', f s a = .ok s' → (P s' ↔ Q a ∨ P s)) :
    P s' ↔ (∃ a ∈ l, Q a) ∨ P s := by
  induction l generalizing s with
  | nil =>
    cases h
    exact (or_iff_right (by simp)).symm
  | cons a l ih =>
    rw [foldlM_cons, Except.bind_eq_ok] at h
    obtain ⟨s₁, ha, h⟩ := h
    rw [ih h fun b hb => hstep b (mem_cons_of_mem _ hb), hstep a mem_cons_self s s₁ ha]
    simp only [mem_cons, exists_eq_or_imp]
    exact or_left_comm.trans or_assoc.symm

/-- **A fold whose steps all come through comes through.** -/
theorem foldlM_eq_ok (I : σ → Prop) {l : List α}
    (hstep : ∀ a ∈ l, ∀ s, I s → ∃ s', f s a = .ok s' ∧ I s') {s : σ} (hs : I s) :
    ∃ s', l.foldlM f s = .ok s' ∧ I s' := by
  induction l generalizing s with
  | nil => exact ⟨s, rfl, hs⟩
  | cons a l ih =>
    obtain ⟨s₁, ha, hs₁⟩ := hstep a mem_cons_self s hs
    obtain ⟨s', h, hs'⟩ := ih (fun b hb => hstep b (mem_cons_of_mem _ hb)) hs₁
    exact ⟨s', by rw [foldlM_cons, ha]; exact h, hs'⟩

/-- **A fold whose steps come through at good elements comes through, or up to its first bad
one.** -/
theorem foldlM_ok_or_stop {P : List α → σ → Prop} {good : α → Prop} {l : List α}
    (hstep : ∀ done a s, good a → P done s → ∃ s', f s a = .ok s' ∧ P (done ++ [a]) s')
    {s : σ} (hs : P [] s) :
    ((∀ a ∈ l, good a) ∧ ∃ s', l.foldlM f s = .ok s' ∧ P l s') ∨
    ∃ before a after s', l = before ++ a :: after ∧ (∀ b ∈ before, good b) ∧ ¬ good a ∧
      P before s' ∧ l.foldlM f s = f s' a >>= after.foldlM f := by
  -- from the right, so that the part done is what the induction hypothesis is about
  induction l using List.reverseRecOn with
  | nil => exact Or.inl ⟨fun a ha => absurd ha not_mem_nil, s, rfl, hs⟩
  | append_singleton l a ih =>
    rcases ih with ⟨hgood, s', h, hP⟩ | ⟨before, b, after, s', rfl, hbefore, hb, hP, h⟩
    · have hfold : (l ++ [a]).foldlM f s = f s' a := by
        rw [foldlM_append, h]
        exact bind_pure (f s' a)
      by_cases ha : good a
      · obtain ⟨s'', hs'', hP'⟩ := hstep l a s' ha hP
        refine Or.inl ⟨?_, s'', hfold.trans hs'', hP'⟩
        simpa [or_imp, forall_and] using ⟨hgood, ha⟩
      · exact Or.inr ⟨l, a, [], s', rfl, hgood, ha, hP, hfold.trans (bind_pure _).symm⟩
    · -- the fold has stopped before: what comes after does not matter
      refine Or.inr ⟨before, b, after ++ [a], s', by simp, hbefore, hb, hP, ?_⟩
      rw [foldlM_append, h, bind_assoc]
      congr 1
      funext s''
      exact (foldlM_append ..).symm

/-- **A fold fails at the first step that does**, from the state the steps before it lead to. -/
theorem foldlM_eq_error_iff {l : List α} {s : σ} {e : ε} :
    l.foldlM f s = .error e ↔
      ∃ before a after s', l = before ++ a :: after ∧ before.foldlM f s = .ok s' ∧
        f s' a = .error e := by
  induction l generalizing s with
  | nil =>
    refine iff_of_false nofun ?_
    intro ⟨before, a, after, _, h, _⟩
    exact absurd h (by simp)
  | cons a l ih =>
    rw [foldlM_cons, Except.bind_eq_error]
    constructor
    · intro h
      rcases h with h | ⟨s₁, ha, h⟩
      · exact ⟨[], a, l, s, rfl, rfl, h⟩
      · obtain ⟨before, b, after, s', rfl, hbefore, hb⟩ := ih.mp h
        exact ⟨a :: before, b, after, s', rfl, by rw [foldlM_cons, ha]; exact hbefore, hb⟩
    · intro ⟨before, b, after, s', hl, hbefore, hb⟩
      -- either the first step fails, or it is the first step before the failing one
      cases before with
      | nil =>
        obtain ⟨rfl, rfl⟩ := cons.inj hl
        cases hbefore
        exact Or.inl hb
      | cons c before =>
        obtain ⟨rfl, rfl⟩ := cons.inj hl
        rw [foldlM_cons, Except.bind_eq_ok] at hbefore
        obtain ⟨s₁, ha, hbefore⟩ := hbefore
        exact Or.inr ⟨s₁, ha, ih.mpr ⟨before, b, after, s', rfl, hbefore, hb⟩⟩

/-- **A failed fold has a failed step**, from a state that keeps the invariant. -/
theorem exists_step_of_foldlM_error (I : σ → Prop) {l : List α}
    (hstep : ∀ a ∈ l, ∀ s s', I s → f s a = .ok s' → I s') {s : σ} (hs : I s) {e : ε}
    (h : l.foldlM f s = .error e) : ∃ a ∈ l, ∃ s, I s ∧ f s a = .error e := by
  obtain ⟨before, a, after, s', rfl, hbefore, ha⟩ := foldlM_eq_error_iff.mp h
  have hI : I s' := by
    refine foldlM_ok_induction (P := fun _ s => I s) hbefore hs ?_
    intro done b s₁ s₂ hb hI₁ h₁
    exact hstep b (mem_append_left _ hb) s₁ s₂ hI₁ h₁
  exact ⟨a, mem_append_right _ mem_cons_self, s', hI, ha⟩

/-- **The steps of a fold that comes through come through.** -/
theorem step_ok_of_foldlM_ok (I : σ → Prop) {l : List α}
    (hstep : ∀ a ∈ l, ∀ s s', I s → f s a = .ok s' → I s') {s s' : σ} (hs : I s)
    (h : l.foldlM f s = .ok s') : ∀ a ∈ l, ∃ s s', I s ∧ f s a = .ok s' := by
  induction l generalizing s with
  | nil => exact fun a ha => absurd ha not_mem_nil
  | cons a l ih =>
    rw [foldlM_cons, Except.bind_eq_ok] at h
    obtain ⟨s₁, ha, h⟩ := h
    intro b hb
    rcases mem_cons.mp hb with rfl | hb
    · exact ⟨s, s₁, hs, ha⟩
    · exact ih (fun c hc => hstep c (mem_cons_of_mem _ hc))
        (hstep a mem_cons_self s s₁ hs ha) h b hb

end List
