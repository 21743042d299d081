import Ehgp.Printing
import Ehgp.VirtualCallers
import Mathlib.Data.List.Infix
import Mathlib.Data.List.TakeWhile

/-!
# Node labels

A node is labelled with its demangled name, cut at the first parenthesis to drop
the parameter list.  The list starts at the parenthesis that the last one
closes, which is the first one exactly when the qualified name has none itself.

## Main definitions

* `getNodeLabel` — the label of a node.
* `Balanced`, `DemanglesTo` — what the demangler answers for a mangled function.
* `KeepsNames` — the labels of two functions keep their names, and tell them apart.

## Main results

* `DemanglesTo.unique` — the qualified name is determined by the demangled text.
* `getNodeLabel_eq` — **what a label keeps.**
* `keepsNames_iff` — **when the labels keep the names.**
-/

namespace Ehgp

/-! ### The label of a node -/

/-- `Node->getName()`; `LeakNode` is created under its name. -/
def Node.name : Node → StringRef
  | .fn F => F.name
  | .leak => "LEAK".toList

/-- `Label.substr(0, Label.find('('))`: `npos` keeps everything. -/
def cutAtParen (Label : StringRef) : StringRef :=
  match Label.find '(' with
  | some Index => Label.take Index
  | none => Label

/-- `getEntryNode()`, the function of the throw site. -/
def CurrentException.entryNode (E : CurrentException) : Node := .fn E.throwSite.function

/-- `getNodeLabel(Node, Info)`, for the `EHGraphDOTInfo` of an exception. -/
def getNodeLabel (L : LLVM) (M : Module) (E : CurrentException) (N : Node) :
    Except Abort StringRef :=
  let Label := cutAtParen (getDemangledName L N.name)
  if E.entryNode = N then
    match getExceptionName L M E with
    | .error e => .error e
    | .ok name => .ok (Label ++ " THROWS: ".toList ++ getDemangledName L name)
  else .ok Label

/-- What follows the name in a label: for the entry node, what it throws. -/
def throwsSuffix (L : LLVM) (M : Module) (E : CurrentException) (N : Node) : StringRef :=
  if E.entryNode = N then
    match getExceptionName L M E with
    | .error _ => []
    | .ok name => " THROWS: ".toList ++ getDemangledName L name
  else []

/-- The cut keeps what is in front of the first parenthesis. -/
theorem cutAtParen_eq (s : StringRef) : cutAtParen s = s.takeWhile (· != '(') := by
  unfold cutAtParen StringRef.find
  induction s with
  | nil => rfl
  | cons c s ih =>
    rw [List.findIdx?_cons, List.takeWhile_cons, ← ih]
    by_cases hc : c = '('
    · simp [hc]
    · simp only [beq_iff_eq, hc, if_false, bne_iff_ne, ne_eq, not_false_eq_true, if_true]
      cases s.findIdx? (· == '(') with
      | none => rfl
      | some i => rfl

theorem cutAtParen_append (Q rest : StringRef) :
    cutAtParen (Q ++ '(' :: rest) = Q.takeWhile (· != '(') := by
  rw [cutAtParen_eq, List.takeWhile_append]
  split
  · next hall =>
    rw [List.takeWhile_cons_of_neg (by simp), List.append_nil]
    exact ((List.takeWhile_prefix _).eq_of_length hall).symm
  · rfl

/-- **When a text is kept in front of a parenthesis**: exactly when it has none itself. -/
theorem takeWhile_eq_self {Q : StringRef} : Q.takeWhile (· != '(') = Q ↔ '(' ∉ Q := by
  rw [List.takeWhile_eq_self_iff]
  constructor
  · intro h hmem
    exact absurd (h _ hmem) (by simp)
  · intro h c hc
    rw [bne_iff_ne]
    rintro rfl
    exact h hc

section

variable {L : LLVM} {M : Module} {E : CurrentException} {CB : CallBase}

/-- **What a label keeps**: the demangled name up to its first parenthesis. -/
theorem getNodeLabel_eq (hE : CurrentException.ofCallBase CB = .ok E) (N : Node) :
    getNodeLabel L M E N =
      .ok (cutAtParen (getDemangledName L N.name) ++ throwsSuffix L M E N) := by
  unfold getNodeLabel throwsSuffix
  by_cases hentry : E.entryNode = N
  · obtain ⟨name, hname⟩ := getExceptionName_ok hE L M
    rw [if_pos hentry, if_pos hentry, hname]
    dsimp only
    rw [List.append_assoc]
  · rw [if_neg hentry, if_neg hentry, List.append_nil]

theorem throwsSuffix_of_ne {N : Node} (hN : E.entryNode ≠ N) : throwsSuffix L M E N = [] :=
  if_neg hN

theorem throwsSuffix_ne_nil (hE : CurrentException.ofCallBase CB = .ok E) {N : Node}
    (hN : E.entryNode = N) : throwsSuffix L M E N ≠ [] := by
  obtain ⟨name, hname⟩ := getExceptionName_ok hE L M
  unfold throwsSuffix
  rw [if_pos hN, hname]
  intro h
  exact absurd (List.append_eq_nil_iff.mp h).1 (by decide)

end

/-! ### Demangled names -/

/-- Every closing parenthesis closes one opened before, and all are closed. -/
structure Balanced (s : StringRef) : Prop where
  closed : s.count '(' = s.count ')'
  opened : ∀ p ∈ s.inits, p.count ')' ≤ p.count '('

instance (s : StringRef) : Decidable (Balanced s) :=
  decidable_of_iff (s.count '(' = s.count ')' ∧ ∀ p ∈ s.inits, p.count ')' ≤ p.count '(')
    ⟨fun h => ⟨h.1, h.2⟩, fun h => ⟨h.closed, h.opened⟩⟩

/-- A function is mangled, and demangled to a qualified name `Q` and a parenthesised parameter
list, with qualifiers behind it where it has some. -/
structure DemanglesTo (L : LLVM) (F : Function) (Q : StringRef) : Prop where
  balanced : Balanced Q
  demangled : ∃ params quals : StringRef, Balanced params ∧ ')' ∉ quals ∧
    L.itaniumDemangle F.name = some (Q ++ '(' :: (params ++ ')' :: quals))

/-- The last closing parenthesis of a text. -/
theorem eq_of_last_paren {X X' q q' : StringRef} (h : X ++ ')' :: q = X' ++ ')' :: q')
    (hq : ')' ∉ q) (hq' : ')' ∉ q') : X = X' := by
  rcases List.append_eq_append_iff.mp h with ⟨as, rfl, has⟩ | ⟨as, rfl, has⟩
  · cases as with
    | nil => exact (List.append_nil X).symm
    | cons c as =>
      obtain ⟨-, rfl⟩ := List.cons.inj has
      exact absurd (List.mem_append_right _ List.mem_cons_self) hq
  · cases as with
    | nil => exact List.append_nil X'
    | cons c as =>
      obtain ⟨-, rfl⟩ := List.cons.inj has
      exact absurd (List.mem_append_right _ List.mem_cons_self) hq'

/-- A balanced text has no balanced tail behind a parenthesis that is open. -/
theorem Balanced.not_append {as P : StringRef} (h : Balanced (as ++ '(' :: P))
    (hP : Balanced P) : False := by
  have hclosed := h.closed
  have hopened := h.opened as ((List.mem_inits _ _).mpr (List.prefix_append _ _))
  have hP' := hP.closed
  rw [List.count_append, List.count_append, List.count_cons_self,
    List.count_cons_of_ne (by decide)] at hclosed
  omega

/-- **The qualified name is determined by the demangled text**: the parameter list starts at the
parenthesis the last one closes. -/
theorem DemanglesTo.unique {L : LLVM} {F : Function} {Q Q' : StringRef} (h : DemanglesTo L F Q)
    (h' : DemanglesTo L F Q') : Q = Q' := by
  obtain ⟨P, q, hP, hq, htext⟩ := h.demangled
  obtain ⟨P', q', hP', hq', htext'⟩ := h'.demangled
  rw [htext, Option.some.injEq, ← List.cons_append, ← List.cons_append, ← List.append_assoc,
    ← List.append_assoc] at htext'
  have hopen : Q ++ '(' :: P = Q' ++ '(' :: P' := eq_of_last_paren htext' hq hq'
  -- were one name longer, the parenthesis of the other would stand inside balanced text
  rcases List.append_eq_append_iff.mp hopen with ⟨as, rfl, has⟩ | ⟨as, rfl, has⟩
  · cases as with
    | nil => exact (List.append_nil Q).symm
    | cons c as =>
      obtain ⟨-, rfl⟩ := List.cons.inj has
      exact (hP.not_append hP').elim
  · cases as with
    | nil => exact List.append_nil Q'
    | cons c as =>
      obtain ⟨-, rfl⟩ := List.cons.inj has
      exact (hP'.not_append hP).elim

section

variable {L : LLVM} {M : Module} {E : CurrentException} {CB : CallBase} {F G : Function}
  {Q Q' : StringRef}

theorem DemanglesTo.getNodeLabel_eq (h : DemanglesTo L F Q)
    (hE : CurrentException.ofCallBase CB = .ok E) :
    getNodeLabel L M E (.fn F) =
      .ok (Q.takeWhile (· != '(') ++ throwsSuffix L M E (.fn F)) := by
  obtain ⟨P, q, -, -, htext⟩ := h.demangled
  have hname : getDemangledName L F.name = Q ++ '(' :: (P ++ ')' :: q) := by
    unfold getDemangledName
    rw [htext]
  rw [Ehgp.getNodeLabel_eq hE, Node.name, hname, cutAtParen_append]

/-- **When a label keeps the name of a function.** -/
theorem DemanglesTo.keepsName_iff (h : DemanglesTo L F Q)
    (hE : CurrentException.ofCallBase CB = .ok E) :
    getNodeLabel L M E (.fn F) = .ok (Q ++ throwsSuffix L M E (.fn F)) ↔ '(' ∉ Q := by
  rw [h.getNodeLabel_eq hE, Except.ok.injEq, List.append_left_inj, takeWhile_eq_self]

variable (L M E F G Q Q') in
/-- The labels of two functions are their qualified names, followed by what is thrown exactly at
the entry node, and functions with different qualified names have different labels. -/
structure KeepsNames : Prop where
  first : getNodeLabel L M E (.fn F) = .ok (Q ++ throwsSuffix L M E (.fn F))
  second : getNodeLabel L M E (.fn G) = .ok (Q' ++ throwsSuffix L M E (.fn G))
  distinct : Q ≠ Q' → getNodeLabel L M E (.fn F) ≠ getNodeLabel L M E (.fn G)

variable (L M E F Q Q') in
/-- The entry node `F` has a label that reads like the qualified name `Q'`. -/
def EntryReadsLike : Prop :=
  E.entryNode = .fn F ∧ Q' = Q ++ throwsSuffix L M E (.fn F)

instance : Decidable (EntryReadsLike L M E F Q Q') := inferInstanceAs (Decidable (_ ∧ _))

theorem KeepsNames.symm (h : KeepsNames L M E F G Q Q') : KeepsNames L M E G F Q' Q :=
  ⟨h.second, h.first, fun hne heq => h.distinct hne.symm heq.symm⟩

theorem KeepsNames.not_entryReadsLike (h : KeepsNames L M E F G Q Q')
    (hE : CurrentException.ofCallBase CB = .ok E) (hF : DemanglesTo L F Q)
    (hG : DemanglesTo L G Q') : ¬ EntryReadsLike L M E F Q Q' := by
  intro hlike
  obtain ⟨hentry, rfl⟩ := hlike
  have hne : Q ≠ Q ++ throwsSuffix L M E (.fn F) := by
    intro heq
    exact throwsSuffix_ne_nil hE hentry (List.self_eq_append_right.mp heq)
  by_cases hG' : E.entryNode = .fn G
  · -- there is one entry node, and it has one name
    obtain rfl : F = G := Node.fn.inj (hentry.symm.trans hG')
    exact hne (hF.unique hG)
  · apply h.distinct hne
    rw [h.first, h.second, throwsSuffix_of_ne hG', List.append_nil]

end

/-! #### Functions of an anonymous namespace

`thrower` throws, and is called by `B::k` and by two functions of an anonymous namespace. -/

namespace Hidden

/-- The function that throws. -/
def thrower : Function := .ofName 0 "_Z7throwerv"

/-- A member of `B`, which calls it. -/
def k : Function := .ofName 1 "_ZN1B1kEv"

/-- A caller in an anonymous namespace. -/
def f : Function := .ofName 2 "_ZN12_GLOBAL__N_11fEv"

/-- Another caller there. -/
def g : Function := .ofName 3 "_ZN12_GLOBAL__N_11gEv"

/-- The runtime function that throws. -/
def cxaThrow : Function := .ofName 4 "__cxa_throw"

/-- The throw. -/
def throwSite : CallBase :=
  .ofCallee 10 thrower (Sample.entry thrower) (.function cxaThrow)
    [.other 0, .globalVariable Sample.typeInfoA, .null]

/-- A call of `thrower` in a function. -/
def callIn (id : ℕ) (F : Function) : CallBase :=
  .ofCallee id F (Sample.entry F) (.function thrower) []

/-- All three callers lead to the throw. -/
def hiddenModule : Module :=
  .ofData
    (.ofCalls [thrower, k, f, g, cxaThrow] [Sample.typeInfoA]
      [throwSite, callIn 11 k, callIn 12 f, callIn 13 g])
    (by decide)

/-- The exception thrown. -/
def exceptionA : CurrentException := ⟨some (.globalVariable Sample.typeInfoA), throwSite⟩

/-- The demangler, on the names of the module. -/
def llvm : LLVM :=
  { LLVM.documented with
    itaniumDemangle := fun Name => List.lookup Name
      [("_Z7throwerv".toList, "thrower()".toList), ("_ZN1B1kEv".toList, "B::k()".toList),
        ("_ZN12_GLOBAL__N_11fEv".toList, "(anonymous namespace)::f()".toList),
        ("_ZN12_GLOBAL__N_11gEv".toList, "(anonymous namespace)::g()".toList),
        ("_ZTI1A".toList, "typeinfo for A".toList)] }

theorem ofCallBase_throwSite : CurrentException.ofCallBase throwSite = .ok exceptionA := rfl

theorem demanglesTo_thrower : DemanglesTo llvm thrower "thrower" :=
  ⟨by decide, [], [], by decide, by decide, rfl⟩
theorem demanglesTo_k : DemanglesTo llvm k "B::k" :=
  ⟨by decide, [], [], by decide, by decide, rfl⟩
theorem demanglesTo_f : DemanglesTo llvm f "(anonymous namespace)::f" :=
  ⟨by decide, [], [], by decide, by decide, rfl⟩
theorem demanglesTo_g : DemanglesTo llvm g "(anonymous namespace)::g" :=
  ⟨by decide, [], [], by decide, by decide, rfl⟩

end Hidden

/-- **When the labels keep the names**: exactly when the qualified names have no parenthesis, and
neither is the other one followed by what is thrown. -/
theorem keepsNames_iff {L : LLVM} {M : Module} {E : CurrentException} {CB : CallBase}
    {F G : Function} {Q Q' : StringRef} (hE : CurrentException.ofCallBase CB = .ok E)
    (hF : DemanglesTo L F Q) (hG : DemanglesTo L G Q') :
    KeepsNames L M E F G Q Q' ↔ '(' ∉ Q ∧ '(' ∉ Q' ∧
      ¬ EntryReadsLike L M E F Q Q' ∧ ¬ EntryReadsLike L M E G Q' Q := by
  constructor
  · intro h
    exact ⟨(hF.keepsName_iff hE).mp h.first, (hG.keepsName_iff hE).mp h.second,
      h.not_entryReadsLike hE hF hG, h.symm.not_entryReadsLike hE hG hF⟩
  · intro h
    obtain ⟨hQ, hQ', hFG, hGF⟩ := h
    have hfirst := (hF.keepsName_iff (M := M) hE).mpr hQ
    have hsecond := (hG.keepsName_iff (M := M) hE).mpr hQ'
    refine ⟨hfirst, hsecond, ?_⟩
    intro hne heq
    rw [hfirst, hsecond, Except.ok.injEq] at heq
    -- only the label of the entry node has a suffix
    by_cases hF' : E.entryNode = .fn F
    · by_cases hG' : E.entryNode = .fn G
      · obtain rfl : F = G := Node.fn.inj (hF'.symm.trans hG')
        exact hne (hF.unique hG)
      · rw [throwsSuffix_of_ne hG', List.append_nil] at heq
        exact hFG ⟨hF', heq.symm⟩
    · by_cases hG' : E.entryNode = .fn G
      · rw [throwsSuffix_of_ne hF', List.append_nil] at heq
        exact hGF ⟨hG', heq⟩
      · rw [throwsSuffix_of_ne hF', throwsSuffix_of_ne hG', List.append_nil,
          List.append_nil] at heq
        exact hne heq

/-- The function that throws and its caller in `B` keep their names. -/
theorem keepsNames_plain :
    KeepsNames Hidden.llvm Hidden.hiddenModule Hidden.exceptionA Hidden.thrower Hidden.k
      "thrower" "B::k" :=
  (keepsNames_iff Hidden.ofCallBase_throwSite Hidden.demanglesTo_thrower
    Hidden.demanglesTo_k).mpr (by decide)

/-- Functions of an anonymous namespace all have the empty label. -/
theorem anonymous_names_lost :
    ¬ ∀ (L : LLVM) (M : Module) (E : CurrentException) (CB : CallBase) (F G : Function)
      (Q Q' : StringRef), CurrentException.ofCallBase CB = .ok E → DemanglesTo L F Q →
        DemanglesTo L G Q' → KeepsNames L M E F G Q Q' := by
  intro h
  have hkeeps := h _ Hidden.hiddenModule _ _ _ _ _ _ Hidden.ofCallBase_throwSite
    Hidden.demanglesTo_f Hidden.demanglesTo_g
  have hempty : ∀ F ∈ [Hidden.f, Hidden.g],
      getNodeLabel Hidden.llvm Hidden.hiddenModule Hidden.exceptionA (.fn F) = .ok [] := by
    intro F hF
    rcases List.mem_pair.mp hF with rfl | rfl
    · rfl
    · rfl
  refine hkeeps.distinct (by decide) ?_
  rw [hempty _ (by simp), hempty _ (by simp)]

end Ehgp
