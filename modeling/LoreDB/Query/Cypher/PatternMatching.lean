import LoreDB.Query.Cypher.ExpressionEvaluator
import Mathlib.Data.Multiset.DershowitzManna

/-! Matching a pattern against what a query sees of the graph. Labels of nodes are not looked at. -/
namespace LoreDB.Query.Cypher
open LoreDB.Storage

/-- Values of one type compare directly, numbers of different types up to a tolerance, and anything
else as text. -/
def sameValue : PropertyValue → PropertyValue → Bool
  | .string actual, .string expected => actual == expected
  | .integer actual, .integer expected => actual == expected
  | .float actual, .float expected =>
    (Float.Model.ofBits actual).beq (Float.Model.ofBits expected)
  | .boolean actual, .boolean expected => actual == expected
  | actual, expected =>
    match toDouble actual, toDouble expected with
    -- the bits are those of 1e-9
    | some actual, some expected => (actual - expected).abs.lt (Float.Model.ofBits 0x3E112E0BE826D695)
    | _, _ => propertyValueToString actual == propertyValueToString expected

def matchesPropertyConstraints (constraints : PropertyMap) (properties : List Property) : Bool :=
  constraints.entries.all fun expected =>
    properties.any fun prop => prop.key == expected.1 && sameValue (fromStorage prop.value) expected.2

def matchesNodePattern (pattern : Node) (nodeId : NodeId) (view : View) : Bool :=
  (view.node nodeId).any fun found => matchesPropertyConstraints pattern.properties found.2

/-- The type of an edge is looked for among its properties. -/
def matchesEdgePattern (pattern : Edge) (properties : List Property) : Bool :=
  (pattern.types.isEmpty ||
    match properties.find? fun prop => prop.key == ascii "type" with
    | some prop =>
      match prop.value with
      | .string text => pattern.types.contains text
      | _ => pattern.types.contains (ascii "unknown")
    | none => false) &&
  matchesPropertyConstraints pattern.properties properties

/-- The ids 1 to the number of nodes, as far as they are seen and match. No 64-bit counter passes
the largest count. -/
def findNodesByPattern (node : Node) (view : View) : Outcome (List NodeId) :=
  if view.nodeCount.toNat + 1 = 2 ^ 64 then .endless
  else
    let ids := (List.range view.nodeCount.toNat).map fun i => UInt64.ofNat (i + 1)
    .value (ids.filter fun nodeId => matchesNodePattern node nodeId view)

/-- With target 0 every target will do. -/
def findEdgesByPattern (edge : Edge) (fromNode toNode : NodeId) (view : View) : List EdgeId :=
  let outgoing := view.outgoingEdges fromNode
  let incoming := if edge.directed then [] else view.incomingEdges fromNode
  (outgoing ++ incoming).filter fun edgeId =>
    (view.edge edgeId).any fun found =>
      matchesEdgePattern edge found.2 &&
        (toNode == 0 || found.1.toNode == toNode || !edge.directed && found.1.fromNode == toNode)

def matchNode (node : Node) (view : View) : Outcome ResultSet :=
  (findNodesByPattern node view).map fun ids =>
    ids.map fun nodeId => ResultRow.bindNamed node.variableName (.node nodeId) {}

/-- The row with an edge and its target, unless the target's name is taken by something else. -/
def expandRow (edgePattern : Edge) (toNodePattern : Node) (row : ResultRow) (edgeId : EdgeId)
    (view : View) : Option ResultRow :=
  match view.edge edgeId with
  | none => none
  | some (edge,_) =>
    if matchesNodePattern toNodePattern edge.toNode view then
      let row := row.bindNamed edgePattern.variableName (.edge edgeId)
      match toNodePattern.variableName with
      | none => some row
      | some name =>
        match row.bindings name with
        | none => some (row.bind name (.node edge.toNode))
        | some bound => if bound = .node edge.toNode then some row else none
    else none

def expandResults (previous : ResultSet) (fromName : Bytes) (edgePattern : Edge)
    (toNodePattern : Node) (view : View) : ResultSet :=
  previous.flatMap fun row =>
    match row.bindings fromName with
    | some (.node fromId) =>
      (findEdgesByPattern edgePattern fromId 0 view).filterMap fun edgeId =>
        expandRow edgePattern toNodePattern row edgeId view
    | _ => []

/-- Follows the edges of a pattern from the rows of the nodes before them. -/
def expandPath : List Edge → List Node → ResultSet → View → Outcome ResultSet
  | edge::edges, fromNode::toNode::nodes, rows, view =>
    match fromNode.variableName with
    | none =>
      .error ⟨.invalidArgument,"Path expansion requires intermediate nodes to be named."⟩
    | some name =>
      let rows := expandResults rows name edge toNode view
      if rows.isEmpty then .value rows else expandPath edges (toNode::nodes) rows view
  | _, _, rows, _ => .value rows

/-- A bound on the hops as it is compared with a length, cast to an unsigned 64-bit number. -/
def hopBound (hops : Int32) : Nat := hops.toInt64.toUInt64.toNat

/-- Without an upper bound the search is cut off. -/
def mostHops (edge : Edge) : Nat := hopBound (if edge.maxHops = -1 then 10 else edge.maxHops)

def neighborPaths (edge : Edge) (path : List NodeId) (view : View) : List (List NodeId) :=
  (findEdgesByPattern edge (path.getLastD 0) 0 view).filterMap fun edgeId =>
    match view.edge edgeId with
    | some (edge,_) => if edge.toNode ∈ path then none else some (path ++ [edge.toNode])
    | none => none

theorem neighbor_longer (edge : Edge) (path longer : List NodeId) (view : View)
    (member : longer ∈ neighborPaths edge path view) : longer.length = path.length + 1 := by
  obtain ⟨edgeId,_,found⟩ := List.mem_filterMap.mp member
  split at found
  · split at found
    · cases found
    · cases Option.some.inj found
      simp
  · cases found

def hopsLeft (most : Nat) (path : List NodeId) : Nat := most + 2 - path.length

/-- A path in the queue gives way to longer ones, and none grows beyond the bound. -/
theorem queue_shrinks (most : Nat) (path : List NodeId) (queue further : List (List NodeId))
    (shorter : ∀ longer ∈ further, hopsLeft most longer < hopsLeft most path) :
    Multiset.IsDershowitzMannaLT (((queue ++ further).map (hopsLeft most) : List Nat) : Multiset Nat)
      (((path::queue).map (hopsLeft most) : List Nat) : Multiset Nat) := by
  refine ⟨(queue.map (hopsLeft most) : List Nat),(further.map (hopsLeft most) : List Nat),
    {hopsLeft most path},by simp,by simp,?_,?_⟩
  · rw [Multiset.add_comm]
    rfl
  · intro left member
    obtain ⟨longer,inside,rfl⟩ := List.mem_map.mp (Multiset.mem_coe.mp member)
    exact ⟨_,Multiset.mem_singleton_self _,shorter longer inside⟩

theorem neighbors_shrink (edge : Edge) (path : List NodeId) (view : View) (most : Nat)
    (room : path.length - 1 < most) (longer : List NodeId)
    (member : longer ∈ neighborPaths edge path view) : hopsLeft most longer < hopsLeft most path := by
  have length := neighbor_longer edge path longer view member
  unfold hopsLeft
  omega

/-- The loop over the queue of paths, which all begin in `start`. Paths lead through no node twice. -/
def searchPaths (fromNode toNode : Node) (edge : Edge) (start : NodeId) (view : View) :
    List (List NodeId) → ResultSet
  | [] => []
  | path::queue =>
    let hops := path.length - 1
    let last := path.getLastD 0
    let row := (ResultRow.bindNamed fromNode.variableName (.node start) {}).bindNamed
      toNode.variableName (.node last)
    let found := if hopBound edge.minHops ≤ hops ∧ matchesNodePattern toNode last view then [row] else []
    if mostHops edge < hops then searchPaths fromNode toNode edge start view queue
    else if _ : hops < mostHops edge then
      found ++ searchPaths fromNode toNode edge start view (queue ++ neighborPaths edge path view)
    else found ++ searchPaths fromNode toNode edge start view queue
termination_by queue => ((queue.map (hopsLeft (mostHops edge)) : List Nat) : Multiset Nat)
decreasing_by
  · simpa using queue_shrinks (mostHops edge) path queue [] (by simp)
  · exact queue_shrinks _ path queue _ (neighbors_shrink edge path view _ (by assumption))
  · simpa using queue_shrinks (mostHops edge) path queue [] (by simp)

def matchVariableLengthPath (fromNode : Node) (edge : Edge) (toNode : Node) (view : View) :
    Outcome ResultSet :=
  (findNodesByPattern fromNode view).map fun starts =>
    starts.flatMap fun start => searchPaths fromNode toNode edge start view [[start]]

def matchPattern (pattern : Pattern) (view : View) : Outcome ResultSet :=
  match pattern.nodes with
  | [] => .value []
  | [node] => matchNode node view
  | fromNode::toNode::_ =>
    let expanded := (matchNode fromNode view).bind fun rows =>
      expandPath pattern.edges pattern.nodes rows view
    match pattern.edges with
    | [edge] =>
      if edge.minHops ≠ 1 ∨ edge.maxHops ≠ 1 then matchVariableLengthPath fromNode edge toNode view
      else expanded
    | _ => expanded

/-- Of several patterns only the first one is matched. -/
def executeMatch (matching : MatchClause) (view : View) : Outcome ResultSet :=
  match matching.patterns with
  | [] => .value []
  | pattern::_ => matchPattern pattern view

end LoreDB.Query.Cypher
