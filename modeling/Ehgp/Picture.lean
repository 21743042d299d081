import Ehgp.Labels
import Ehgp.Specification

/-!
# The picture of an exception

What `WriteGraph` puts into a file: the title of the graph, and for each key of the
map a node, with its label and its colour, and an edge for each of its children.
The map is walked with the inserting subscript; what ends up in the picture is the
specified graph all the same, each node and each edge of it once.  The walk is that of
LLVM's `GraphWriter`: what is assumed of it is said where it is modelled.

## Main definitions

* `DrawInfo` — what the traits ask LLVM for.
* `getGraphName`, `isNodeHidden`, `getNodeAttributes` — the traits.
* `Drawing`, `drawGraph` — the picture of a graph.
* `Pictured` — a picture is the one specified for an exception.

## Main results

* `drawGraph_eq` — the walk draws the map and leaves it as it is.
* `pictured_of_drawGraph` — **the picture shows the specified graph.**
-/

namespace Ehgp

/-! ### The traits -/

/-- What the traits ask LLVM for, beyond what the analyses read. -/
structure DrawInfo where
  /-- `isa<ConstantAggregate>`, of a user that is no call. -/
  isConstantAggregate : ℕ → Bool
  /-- `hasInternalLinkage()`. -/
  hasInternalLinkage : Function → Bool
  /-- `getHeatColor(freq, maxFreq)`. -/
  getHeatColor : ℕ → ℕ → StringRef
  /-- `getHeatColor(percent)`, at zero. -/
  coldest : StringRef

/-- `Node->users()`; nothing uses `LeakNode`. -/
def Node.users (M : Module) : Node → List User
  | .fn F => M.users (.function F)
  | .leak => []

/-- `Node->hasInternalLinkage()`; `LeakNode` is created with external linkage. -/
def Node.hasInternalLinkage (D : DrawInfo) : Node → Bool
  | .fn F => D.hasInternalLinkage F
  | .leak => false

/-- `getGraphName(CGInfo)`. -/
def getGraphName (L : LLVM) (M : Module) (E : CurrentException) : Except Abort StringRef :=
  match getExceptionName L M E with
  | .error e => .error e
  | .ok name => .ok (name ++ " propagation graph: ".toList ++ E.entryNode.name)

/-- `isNodeHidden(Node, Info)`. -/
def isNodeHidden (_ : Node) : Bool := false

/-- `VMethod`: some user is a constant aggregate, as the vtables are. -/
def isVMethod (D : DrawInfo) (M : Module) (N : Node) : Bool :=
  (N.users M).any fun U =>
    match U with
    | .callBase _ => false
    | .other id => D.isConstantAggregate id

/-- `ColorValue`, the heat of a node. -/
def colorValue (D : DrawInfo) (M : Module) (E : CurrentException) (N : Node) : ℕ :=
  if N = E.entryNode then 99
  else if isVMethod D M N then 33
  else if !N.hasInternalLinkage D then 66
  else 0

/-- `getNodeAttributes(Node, Info)`. -/
def getNodeAttributes (D : DrawInfo) (M : Module) (E : CurrentException) (N : Node) :
    StringRef :=
  let NodeColor := D.getHeatColor (colorValue D M E N) 100
  let EdgeColor := D.coldest
  "color=\"".toList ++ EdgeColor ++ "ff\", style=filled, fillcolor=\"".toList ++ NodeColor ++
    "80\"".toList

/-! ### The walk of the graph writer -/

/-- A node as drawn, with the edges that leave it. -/
structure DrawnNode where
  node : Node
  label : StringRef
  attributes : StringRef
  edges : List Node

/-- What `WriteGraph` writes. -/
structure Drawing where
  name : StringRef
  nodes : List DrawnNode

/-- The nodes drawn. -/
def Drawing.drawn (d : Drawing) : List Node := d.nodes.map (·.node)

/-- `writeNode(Node)`: `child_begin` and `child_end` subscript the map.  Of LLVM's `GraphWriter` it
is assumed that it writes the label and the attributes of the node, and an edge to each child that
is not hidden, once each and in the order of the set. -/
def drawNode (D : DrawInfo) (L : LLVM) (M : Module) (E : CurrentException)
    (s : ChildsMapType × List DrawnNode) (N : Node) :
    Except Abort (ChildsMapType × List DrawnNode) :=
  if isNodeHidden N then .ok s
  else
    match getNodeLabel L M E N with
    | .error e => .error e
    | .ok label =>
      let m := (s.1.subscript N).subscript N
      .ok (m, s.2 ++ [{
        node := N
        label := label
        attributes := getNodeAttributes D M E N
        edges := (m.get N).filter fun n => !isNodeHidden n }])

/-- `WriteGraph(File, &GInfo)`: the title, and the keys in the order of the map.  Of LLVM's
`GraphWriter` it is assumed that it goes once over what `nodes_begin` and `nodes_end` enclose, and
writes every node there that is not hidden. -/
def drawGraph (D : DrawInfo) (L : LLVM) (M : Module) (E : CurrentException)
    (m : ChildsMapType) : Except Abort (ChildsMapType × Drawing) :=
  match getGraphName L M E with
  | .error e => .error e
  | .ok name =>
    match m.keys.foldlM (drawNode D L M E) (m, []) with
    | .error e => .error e
    | .ok (m, nodes) => .ok (m, ⟨name, nodes⟩)

section

variable {D : DrawInfo} {L : LLVM} {M : Module} {E : CurrentException} {CB : CallBase}

/-! ### What the walk draws -/

/-- A node of the map as it is drawn. -/
def DrawnNode.of (D : DrawInfo) (L : LLVM) (M : Module) (E : CurrentException)
    (m : ChildsMapType) (N : Node) : DrawnNode where
  node := N
  label := cutAtParen (getDemangledName L N.name) ++ throwsSuffix L M E N
  attributes := getNodeAttributes D M E N
  edges := m.get N

/-- The walk over some keys draws them, and subscripts nothing new. -/
theorem foldlM_drawNode (hE : CurrentException.ofCallBase CB = .ok E) {m : ChildsMapType}
    {l : List Node} (hl : ∀ N ∈ l, N ∈ m) (ns : List DrawnNode) :
    l.foldlM (drawNode D L M E) (m, ns) = .ok (m, ns ++ l.map (DrawnNode.of D L M E m)) := by
  induction l generalizing ns with
  | nil =>
    rw [List.map_nil, List.append_nil]
    rfl
  | cons N l ih =>
    -- the key is there, so reading it inserts nothing
    have hkey : m.subscript N = m := SetMap.subscript_of_mem (hl N List.mem_cons_self)
    have hstep : drawNode D L M E (m, ns) N =
        .ok (m, ns ++ [DrawnNode.of D L M E m N]) := by
      unfold drawNode isNodeHidden
      rw [getNodeLabel_eq hE]
      simp [hkey, DrawnNode.of]
    rw [List.foldlM_cons, hstep]
    show l.foldlM (drawNode D L M E) (m, ns ++ [DrawnNode.of D L M E m N]) = _
    rw [ih (fun N' hN' => hl N' (List.mem_cons_of_mem _ hN')), List.map_cons, List.append_assoc,
      List.singleton_append]

/-- **The walk draws the map and leaves it as it is.** -/
theorem drawGraph_eq (hE : CurrentException.ofCallBase CB = .ok E) (m : ChildsMapType) :
    ∃ name, getGraphName L M E = .ok name ∧
      drawGraph D L M E m = .ok (m, ⟨name, m.keys.map (DrawnNode.of D L M E m)⟩) := by
  obtain ⟨exceptionName, hname⟩ := getExceptionName_ok hE L M
  have hgraph : getGraphName L M E =
      .ok (exceptionName ++ " propagation graph: ".toList ++ E.entryNode.name) := by
    unfold getGraphName
    rw [hname]
  refine ⟨_, hgraph, ?_⟩
  unfold drawGraph
  rw [hgraph, foldlM_drawNode hE fun N hN => hN]
  rfl

/-! ### The sets of the graph -/

theorem nodupSets_buildChildsMap (M : Module) (E : CurrentException)
    (ChildsMap : ChildsMapType) (A : VCallCandidatesAnalyzer) (S : ICallSolver) :
    (buildChildsMap M E ChildsMap A S).childsMap.NodupSets := by
  obtain ⟨s, hrun, -, heq⟩ := buildChildsMap_run (M := M) (E := E) (A := A) (S := S) ChildsMap
  have hrecord : s.work.acc.childsMap.NodupSets := by
    refine Worklist.acc_induction (P := fun _ g => g.childsMap.NodupSets)
      (AnyOrder.steps hrun).1 SetMap.nodupSets_empty ?_
    rintro vs c g g' hg - ⟨us, -, rfl⟩
    unfold Graph.record
    dsimp only
    split
    · exact (hg.subscript _).insertAt _ _
    · exact (hg.subscript _).foldl_insertAt (fun _ => _) (fun CB : CallBase => .fn CB.function) _
  intro n
  rw [heq, insertLeafs, get_foldl_subscript]
  exact hrecord n

variable (D L M) in
/-- A picture is the one specified for an exception. -/
structure Pictured (X : Option Value) (T : CallBase) (d : Drawing) : Prop where
  /-- The title names the exception and the function of the throw site. -/
  title : getGraphName L M ⟨X, T⟩ = .ok d.name
  /-- Each node is drawn once, -/
  nodup : d.drawn.Nodup
  node : ∀ n, n ∈ d.drawn ↔ IsNode L M X T n
  /-- and so is each edge. -/
  edgesNodup : ∀ N ∈ d.nodes, N.edges.Nodup
  edge : ∀ N ∈ d.nodes, ∀ n, n ∈ N.edges ↔ IsEdge L M X T N.node n
  /-- The labels are the demangled names up to a parenthesis; the entry node says what it
  throws. -/
  label : ∀ N ∈ d.nodes, N.label =
    cutAtParen (getDemangledName L N.node.name) ++ throwsSuffix L M ⟨X, T⟩ N.node
  attributes : ∀ N ∈ d.nodes, N.attributes = getNodeAttributes D M ⟨X, T⟩ N.node

/-- **The picture shows the specified graph**, each node and each edge of it once. -/
theorem pictured_of_drawGraph {A : VCallCandidatesAnalyzer}
    (hA : VCallCandidatesAnalyzer.analyze L M .fresh = .ok A) {X : Option Value} {T : CallBase}
    (hE : CurrentException.ofCallBase CB = .ok ⟨X, T⟩) (ChildsMap : ChildsMapType) :
    ∃ d, drawGraph D L M ⟨X, T⟩
        (buildChildsMap M ⟨X, T⟩ ChildsMap A (ICallSolver.solve M .fresh)).childsMap =
      .ok ((buildChildsMap M ⟨X, T⟩ ChildsMap A (ICallSolver.solve M .fresh)).childsMap, d) ∧
      Pictured D L M X T d := by
  have hspec := buildChildsMap_asSpecified hA X T ChildsMap
  have hsets := nodupSets_buildChildsMap M ⟨X, T⟩ ChildsMap A (ICallSolver.solve M .fresh)
  generalize (buildChildsMap M ⟨X, T⟩ ChildsMap A (ICallSolver.solve M .fresh)) = r
    at hspec hsets ⊢
  obtain ⟨name, hname, hdraw⟩ := drawGraph_eq (D := D) (L := L) (M := M) hE r.childsMap
  -- the nodes drawn are the keys of the map, each once
  have hdrawn : (r.childsMap.keys.map (DrawnNode.of D L M ⟨X, T⟩ r.childsMap)).map (·.node) =
      r.childsMap.keys := by
    rw [List.map_map]
    exact List.map_id _
  refine ⟨_, hdraw, ?_⟩
  refine { title := hname, nodup := ?_, node := ?_, edgesNodup := ?_, edge := ?_, label := ?_,
           attributes := ?_ }
  · unfold Drawing.drawn
    rw [hdrawn]
    exact r.childsMap.keys_nodup
  · intro n
    unfold Drawing.drawn
    rw [hdrawn]
    exact hspec.node n
  · intro N hN
    obtain ⟨n, -, rfl⟩ := List.mem_map.mp hN
    exact hsets n
  · intro N hN n'
    obtain ⟨n, -, rfl⟩ := List.mem_map.mp hN
    exact hspec.edge n n'
  · intro N hN
    obtain ⟨n, -, rfl⟩ := List.mem_map.mp hN
    rfl
  · intro N hN
    obtain ⟨n, -, rfl⟩ := List.mem_map.mp hN
    rfl

end

end Ehgp
