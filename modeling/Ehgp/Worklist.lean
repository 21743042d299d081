import Mathlib.Algebra.BigOperators.Group.Finset.Basic
import Mathlib.Algebra.Order.BigOperators.Group.Finset
import Mathlib.Data.Finset.Card
import Mathlib.Data.List.Perm.Basic
import Mathlib.Logic.Relation
import Mathlib.Tactic.Common

/-!
# Worklist traversals in any order

A worklist traversal pops a node, skips it when it has been visited before, and
otherwise visits it: the node's effect is applied to an accumulator and its
successors are pushed, with duplicates and without asking whether they are
known.  The step relation below leaves both orders open — which node is popped,
and in which order the successors are pushed — so that what is proved of its
runs holds of every driver.

## Main definitions

* `Worklist.Traversal` — the successors of a node and its effect.
* `Worklist.Step` — one iteration, popping any node.
* `Worklist.Inv` — the loop invariant.
* `Worklist.potential` — the measure each iteration decreases.
* `whileSome f n s` — a `while` loop with at most `n` iterations.

## Main results

* `Worklist.mem_visited_iff` — **a finished traversal has visited exactly the
  reachable nodes**, whatever the order.
* `Worklist.acc_induction` — the induction rule for the accumulator.
* `Worklist.Step.potential_lt` — an iteration decreases the potential.
* `whileSome_eq_none` — a loop with a decreasing measure ends within its bound.
-/

namespace Worklist

variable {α σ : Type*}

/-- What a traversal does at a node: the nodes it pushes, and the effects the
visit may have on the accumulator. -/
structure Traversal (α σ : Type*) where
  /-- The nodes a visit pushes. -/
  next : α → List α
  /-- The visit's effect on the accumulator. -/
  visit : α → σ → σ → Prop

/-- The state of a traversal. -/
structure State (α σ : Type*) where
  /-- The nodes waiting, with duplicates. -/
  toVisit : List α
  /-- The nodes visited, the last one first. -/
  visited : List α
  /-- The accumulator. -/
  acc : σ

/-- The state a traversal starts in. -/
def init (start : α) (acc : σ) : State α σ := ⟨[start], [], acc⟩

/-- One iteration: any waiting node is popped. -/
inductive Step (t : Traversal α σ) : State α σ → State α σ → Prop
  /-- A node visited before is dropped. -/
  | skip {s : State α σ} {x : α} {rest : List α} (hpop : s.toVisit.Perm (x :: rest))
      (hx : x ∈ s.visited) : Step t s { s with toVisit := rest }
  /-- A fresh node is visited and its successors are pushed, in any order. -/
  | visit {s : State α σ} {x : α} {rest pushed : List α} {acc : σ}
      (hpop : s.toVisit.Perm (x :: rest)) (hx : x ∉ s.visited)
      (hpush : pushed.Perm (t.next x)) (hacc : t.visit x s.acc acc) :
      Step t s ⟨pushed ++ rest, x :: s.visited, acc⟩

/-- Any number of iterations. -/
abbrev Steps (t : Traversal α σ) : State α σ → State α σ → Prop :=
  Relation.ReflTransGen (Step t)

/-- Reachability along the successors. -/
abbrev Reach (t : Traversal α σ) : α → α → Prop :=
  Relation.ReflTransGen fun x y => y ∈ t.next x

/-! ### The loop invariant -/

/-- The invariant of a traversal from `start`. -/
structure Inv (t : Traversal α σ) (start : α) (s : State α σ) : Prop where
  /-- Every node met so far is reachable. -/
  sound : ∀ x, x ∈ s.toVisit ∨ x ∈ s.visited → Reach t start x
  /-- The start is waiting or visited. -/
  started : start ∈ s.toVisit ∨ start ∈ s.visited
  /-- The successors of a visited node are waiting or visited. -/
  closed : ∀ x ∈ s.visited, ∀ y ∈ t.next x, y ∈ s.toVisit ∨ y ∈ s.visited
  /-- No node is visited twice. -/
  nodup : s.visited.Nodup

theorem inv_init (t : Traversal α σ) (start : α) (acc : σ) : Inv t start (init start acc) where
  sound := by
    rintro x (hx | hx)
    · rw [List.mem_singleton.mp hx]
    · exact absurd hx List.not_mem_nil
  started := Or.inl (List.mem_singleton.mpr rfl)
  closed := fun _ hx => absurd hx List.not_mem_nil
  nodup := List.nodup_nil

/-- A popped node stays known: it is the popped one, or still waiting. -/
private theorem mem_pop {l rest : List α} {x y : α} (hpop : l.Perm (x :: rest)) :
    y ∈ l ↔ y = x ∨ y ∈ rest := by
  rw [hpop.mem_iff, List.mem_cons]

/-- **One iteration keeps the invariant.** -/
theorem Step.inv {t : Traversal α σ} {start : α} {s s' : State α σ} (h : Step t s s')
    (hi : Inv t start s) : Inv t start s' := by
  cases h with
  | @skip x rest hpop hx =>
    -- the node that leaves the worklist is among the visited ones
    have hkeep : ∀ y, y ∈ s.toVisit ∨ y ∈ s.visited → y ∈ rest ∨ y ∈ s.visited := by
      rintro y (hy | hy)
      · rcases (mem_pop hpop).mp hy with rfl | hy
        · exact Or.inr hx
        · exact Or.inl hy
      · exact Or.inr hy
    exact
      { sound := fun y hy => hi.sound y (hy.imp_left fun h => (mem_pop hpop).mpr (Or.inr h))
        started := hkeep _ hi.started
        closed := fun y hy z hz => hkeep _ (hi.closed y hy z hz)
        nodup := hi.nodup }
  | @visit x rest pushed acc hpop hx hpush hacc =>
    have hxr : Reach t start x := hi.sound x (Or.inl ((mem_pop hpop).mpr (Or.inl rfl)))
    have hkeep : ∀ y, y ∈ s.toVisit ∨ y ∈ s.visited →
        y ∈ pushed ++ rest ∨ y ∈ x :: s.visited := by
      rintro y (hy | hy)
      · rcases (mem_pop hpop).mp hy with rfl | hy
        · exact Or.inr List.mem_cons_self
        · exact Or.inl (List.mem_append_right _ hy)
      · exact Or.inr (List.mem_cons_of_mem _ hy)
    refine ⟨?_, hkeep _ hi.started, ?_, List.nodup_cons.mpr ⟨hx, hi.nodup⟩⟩
    · rintro y (hy | hy)
      · rcases List.mem_append.mp hy with hy | hy
        · exact hxr.tail (hpush.mem_iff.mp hy)
        · exact hi.sound y (Or.inl ((mem_pop hpop).mpr (Or.inr hy)))
      · rcases List.mem_cons.mp hy with rfl | hy
        · exact hxr
        · exact hi.sound y (Or.inr hy)
    · intro y hy z hz
      rcases List.mem_cons.mp hy with rfl | hy
      · exact Or.inl (List.mem_append_left _ (hpush.mem_iff.mpr hz))
      · exact hkeep _ (hi.closed y hy z hz)

/-- Every run keeps the invariant. -/
theorem Steps.inv {t : Traversal α σ} {start : α} {s s' : State α σ} (h : Steps t s s')
    (hi : Inv t start s) : Inv t start s' := by
  induction h with
  | refl => exact hi
  | tail _ hstep ih => exact hstep.inv ih

/-- **A finished traversal has visited exactly the reachable nodes.** -/
theorem mem_visited_iff {t : Traversal α σ} {start : α} {s : State α σ} (hi : Inv t start s)
    (hdone : s.toVisit = []) {x : α} : x ∈ s.visited ↔ Reach t start x := by
  refine ⟨fun hx => hi.sound x (Or.inr hx), fun hx => ?_⟩
  have hknown : ∀ {y}, y ∈ s.toVisit ∨ y ∈ s.visited → y ∈ s.visited := by
    rintro y (hy | hy)
    · rw [hdone] at hy
      exact absurd hy List.not_mem_nil
    · exact hy
  induction hx with
  | refl => exact hknown hi.started
  | tail _ hyz ih => exact hknown (hi.closed _ ih _ hyz)

/-- **The induction rule for the accumulator**: what holds of no visits and is
kept by each visit of a fresh node holds of the visits made so far. -/
theorem acc_induction {t : Traversal α σ} {P : List α → σ → Prop} {s s' : State α σ}
    (h : Steps t s s') (hs : P s.visited s.acc)
    (hvisit : ∀ vs x acc acc', P vs acc → x ∉ vs → t.visit x acc acc' → P (x :: vs) acc') :
    P s'.visited s'.acc := by
  induction h with
  | refl => exact hs
  | tail _ hstep ih =>
    cases hstep with
    | skip hpop hx => exact ih
    | visit hpop hx hpush hacc => exact hvisit _ _ _ _ ih hx hacc

theorem Step.toVisit_subset {t : Traversal α σ} {univ : Finset α} {s s' : State α σ}
    (h : Step t s s') (hclosed : ∀ x ∈ univ, ∀ y ∈ t.next x, y ∈ univ)
    (hu : ∀ x ∈ s.toVisit, x ∈ univ) : ∀ x ∈ s'.toVisit, x ∈ univ := by
  cases h with
  | skip hpop hx => exact fun y hy => hu y ((mem_pop hpop).mpr (Or.inr hy))
  | @visit x rest pushed acc hpop hx hpush hacc =>
    intro y hy
    rcases List.mem_append.mp hy with hy | hy
    · exact hclosed x (hu x ((mem_pop hpop).mpr (Or.inl rfl))) y (hpush.mem_iff.mp hy)
    · exact hu y ((mem_pop hpop).mpr (Or.inr hy))

/-! ### Termination

Each iteration takes one node off the worklist, and a visit puts on it the
successors of a node that is never visited again.  So the number of waiting
nodes, plus the successors of the nodes still unvisited, drops each time. -/

variable [DecidableEq α]

/-- The iterations a state may still cost, in a universe of nodes. -/
def potential (t : Traversal α σ) (univ : Finset α) (s : State α σ) : ℕ :=
  s.toVisit.length + ∑ x ∈ univ \ s.visited.toFinset, (t.next x).length

/-- Visiting a node spends its successors. -/
private theorem sum_unvisited_cons (t : Traversal α σ) {univ : Finset α} {vs : List α} {x : α}
    (hu : x ∈ univ) (hx : x ∉ vs) :
    ∑ y ∈ univ \ (x :: vs).toFinset, (t.next y).length + (t.next x).length =
      ∑ y ∈ univ \ vs.toFinset, (t.next y).length := by
  have herase : univ \ (x :: vs).toFinset = (univ \ vs.toFinset).erase x := by
    ext y
    simp only [Finset.mem_sdiff, List.mem_toFinset, List.mem_cons, Finset.mem_erase, not_or]
    tauto
  rw [herase]
  exact Finset.sum_erase_add _ _ (by simp [hu, hx])

/-- **An iteration decreases the potential.** -/
theorem Step.potential_lt {t : Traversal α σ} {univ : Finset α} {s s' : State α σ}
    (h : Step t s s') (hu : ∀ x ∈ s.toVisit, x ∈ univ) :
    potential t univ s' < potential t univ s := by
  cases h with
  | @skip x rest hpop hx =>
    have hlen := hpop.length_eq
    rw [List.length_cons] at hlen
    simp only [potential]
    omega
  | @visit x rest pushed acc hpop hx hpush hacc =>
    have hlen := hpop.length_eq
    rw [List.length_cons] at hlen
    have hsum := sum_unvisited_cons t (hu x ((mem_pop hpop).mpr (Or.inl rfl))) hx
    have hpushed := hpush.length_eq
    simp only [potential, List.length_append]
    omega

theorem potential_init (t : Traversal α σ) (univ : Finset α) (start : α) (acc : σ) :
    potential t univ (init start acc) = 1 + ∑ x ∈ univ, (t.next x).length := by
  simp [potential, init]

end Worklist

/-! ### A bounded `while` loop -/

/-- A loop that runs `f` until it answers `none`, for at most `n` iterations. -/
def whileSome {σ : Type*} (f : σ → Option σ) : ℕ → σ → σ
  | 0, s => s
  | n + 1, s => match f s with
    | none => s
    | some s' => whileSome f n s'

section

variable {σ : Type*} {f : σ → Option σ}

/-- The state a loop ends in is reached by iterations. -/
theorem whileSome_steps (n : ℕ) (s : σ) :
    Relation.ReflTransGen (fun s s' => f s = some s') s (whileSome f n s) := by
  induction n generalizing s with
  | zero => exact .refl
  | succ n ih =>
    unfold whileSome
    split
    · exact .refl
    · next s' h => exact Relation.ReflTransGen.head h (ih s')

/-- **A loop with a decreasing measure ends within its bound.** -/
theorem whileSome_eq_none (μ : σ → ℕ) (I : σ → Prop)
    (hstep : ∀ s s', I s → f s = some s' → I s' ∧ μ s' < μ s) {n : ℕ} {s : σ} (hI : I s)
    (hn : μ s ≤ n) : f (whileSome f n s) = none := by
  induction n generalizing s with
  | zero =>
    cases hf : f s with
    | none => exact hf
    | some s' =>
      -- out of fuel, a further step would need more of it
      have := (hstep s s' hI hf).2
      omega
  | succ n ih =>
    unfold whileSome
    split
    · next h => exact h
    · next s' h =>
      obtain ⟨hI', hlt⟩ := hstep s s' hI h
      exact ih hI' (by omega)

end
