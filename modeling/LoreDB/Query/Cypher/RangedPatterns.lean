import LoreDB.Query.Cypher.FixedPatterns
import LoreDB.Query.Cypher.GraphViews

/-! Patterns of several edges. Each edge stands for one hop there, whatever range is written on it, so a
range is honoured only as far as the graph joins the ends of the single edge by a walk of its own. -/
namespace LoreDB.Query.Cypher
open LoreDB.Storage LoreDB.Library LoreDB.Library.History GraphHistory GraphRefinement

/-- A walk along edges that satisfy a pattern, of a length in its range; some ranges have no upper end. -/
def Reaches (view : View) (edge : Edge) (fromNode toNode : NodeId) : Prop :=
  ∃ steps : List (EdgeId × NodeId), Trail.Leads (Step view edge) fromNode steps ∧
    (⟨fromNode,steps⟩ : Trail NodeId EdgeId).last = toNode ∧ edge.minHops.toInt ≤ steps.length ∧
    (edge.maxHops = -1 ∨ (steps.length : ℤ) ≤ edge.maxHops.toInt)

/-- Two or more directed edges between nodes with names of their own. -/
structure NamedPath (pattern : Pattern) : Prop where
  several : 2 ≤ pattern.edges.length
  shape : pattern.edges.length + 1 = pattern.nodes.length
  directed : ∀ edge ∈ pattern.edges, edge.directed = true
  named : ∀ node ∈ pattern.nodes, node.variableName ≠ none
  distinct : (pattern.nodes.map Node.variableName).Nodup

def BoundTo (row : ResultRow) (node : Node) (nodeId : NodeId) : Prop :=
  ∃ name, node.variableName = some name ∧ row.bindings name = some (.node nodeId)

/-- Wherever a row binds both ends of an edge, a walk in the range of the edge joins them. -/
def HopsHonoured (view : View) (pattern : Pattern) : Prop :=
  ∀ rows, matchPattern pattern view = .value rows → ∀ row ∈ rows, ∀ (i : ℕ) edge fromNode toNode u v,
    pattern.edges[i]? = some edge → pattern.nodes[i]? = some fromNode →
    pattern.nodes[i + 1]? = some toNode → BoundTo row fromNode u → BoundTo row toNode v →
    Reaches view edge u v

/-- No node has the name of an edge that comes before it. -/
def Unclashed (nodes : List Node) (edges : List Edge) : Prop :=
  ∀ (i j : ℕ) edge node, j ≤ i → edges[j]? = some edge → nodes[i + 1]? = some node →
    edge.variableName ≠ node.variableName

/-- The name of a node is that of no edge. -/
def Clear (edges : List Edge) (node : Node) : Prop :=
  ∀ edge ∈ edges, edge.variableName ≠ node.variableName

instance (edges : List Edge) (node : Node) : Decidable (Clear edges node) :=
  inferInstanceAs (Decidable (∀ edge ∈ edges, edge.variableName ≠ node.variableName))

/-- Wherever single edges make a path that satisfies the pattern, the ends of each are joined by a walk in
its range as well. -/
def SingleEdgesReach (view : View) (pattern : Pattern) : Prop :=
  Unclashed pattern.nodes pattern.edges → ∀ trail, Satisfies view pattern.nodes pattern.edges trail →
    ∀ (i : ℕ) edge fromNode toNode u v,
      pattern.edges[i]? = some edge → pattern.nodes[i]? = some fromNode →
      pattern.nodes[i + 1]? = some toNode → Clear pattern.edges fromNode → Clear pattern.edges toNode →
      trail.nodes[i]? = some u → trail.nodes[i + 1]? = some v → Reaches view edge u v

theorem unclashed_snoc (nodes : List Node) (edges : List Edge) (node : Node) (edge : Edge)
    (shape : edges.length + 1 = nodes.length) : Unclashed (nodes ++ [node]) (edges ++ [edge]) ↔
      Unclashed nodes edges ∧ Clear (edges ++ [edge]) node := by
  constructor
  · intro unclashed
    refine ⟨fun i j other later le here there => ?_,fun other among => ?_⟩
    · have inside : j < edges.length := (List.getElem?_eq_some_iff.mp here).1
      have inside' : i + 1 < nodes.length := (List.getElem?_eq_some_iff.mp there).1
      exact unclashed i j other later le ((List.getElem?_append_left inside).trans here)
        ((List.getElem?_append_left inside').trans there)
    · obtain ⟨j,inside,same⟩ := List.mem_iff_getElem.mp among
      rw [List.length_append,List.length_singleton] at inside
      refine unclashed edges.length j other node (by omega) ?_ ?_
      · rw [← same]
        exact List.getElem?_eq_getElem _
      · rw [shape]
        exact List.getElem?_concat_length
  · rintro ⟨unclashed,clear⟩ i j other later le here there
    rcases Nat.lt_or_ge i edges.length with inside | beyond
    · rw [List.getElem?_append_left (by omega)] at here there
      exact unclashed i j other later le here there
    · have last : i + 1 = nodes.length := by
        have bound : i + 1 < (nodes ++ [node]).length := (List.getElem?_eq_some_iff.mp there).1
        rw [List.length_append,List.length_singleton] at bound
        omega
      rw [last,List.getElem?_concat_length] at there
      obtain rfl := Option.some.inj there
      exact clear other (List.mem_of_getElem? here)

/-! One row. -/

theorem bindNamed_bindings (row : ResultRow) (own : Option Bytes) (binding : VariableBinding) (name : Bytes) :
    (row.bindNamed own binding).bindings name = if own = some name then some binding
      else row.bindings name := by
  cases own with
  | none => rfl
  | some own =>
    by_cases same : own = name
    · subst same
      rw [if_pos rfl]
      exact Function.update_self ..
    · rw [if_neg (by simpa using same)]
      exact Function.update_of_ne (Ne.symm same) ..

/-- How far a row tells the trail that it comes from. -/
structure RowAt (nodes : List Node) (edges : List Edge) (trail : Trail NodeId EdgeId) (row : ResultRow) :
    Prop where
  known : ∀ one ∈ nodes.zip trail.nodes, Clear edges one.1 → BoundTo row one.1 one.2
  crossed : ∀ edge ∈ edges, ∀ name, edge.variableName = some name →
    ∃ edgeId, row.bindings name = some (.edge edgeId)
  only : ∀ name, row.bindings name ≠ none → (∃ node ∈ nodes, node.variableName = some name) ∨
    ∃ edge ∈ edges, edge.variableName = some name
  ends : ∀ node, nodes.getLast? = some node → BoundTo row node trail.last

theorem rowAt_single (node : Node) (nodeId : NodeId) (named : node.variableName ≠ none) :
    RowAt [node] [] ⟨nodeId,[]⟩ (ResultRow.bindNamed node.variableName (.node nodeId) {}) := by
  obtain ⟨name,here⟩ := Option.ne_none_iff_exists'.mp named
  have bound : BoundTo (ResultRow.bindNamed node.variableName (.node nodeId) {}) node nodeId :=
    ⟨name,here,by rw [bindNamed_bindings,if_pos here]⟩
  refine ⟨?_,by simp,?_,?_⟩
  · intro one among _
    obtain rfl := List.mem_singleton.mp among
    exact bound
  · intro other some
    rw [bindNamed_bindings] at some
    split at some
    · rename_i same
      exact .inl ⟨node,List.mem_singleton_self _,same⟩
    · exact absurd rfl some
  · intro other last
    obtain rfl := Option.some.inj last
    exact bound

section Step

variable {view : View} {nodes : List Node} {edges : List Edge} {trail : Trail NodeId EdgeId}
  {row : ResultRow} {node : Node} {name : Bytes}

/-- A node that has no name in common with the edges before it gets its binding. -/
theorem expandRow_at (edge : Edge) (rowAt : RowAt nodes edges trail row) (here : node.variableName = some name)
    (fresh : ∀ other ∈ nodes, other.variableName ≠ some name) (edgeId : EdgeId) (row' : ResultRow) :
    expandRow edge node row edgeId view = some row' ↔ ∃ found, view.edge edgeId = some found ∧
      matchesNodePattern node found.1.toNode view = true ∧ Clear (edges ++ [edge]) node ∧
      row' = (row.bindNamed edge.variableName (.edge edgeId)).bind name (.node found.1.toNode) := by
  have crossed (other : Edge) (among : other ∈ edges ++ [edge]) (same : other.variableName = some name) :
      ∃ id, (row.bindNamed edge.variableName (.edge edgeId)).bindings name = some (.edge id) := by
    rw [bindNamed_bindings]
    by_cases own : edge.variableName = some name
    · exact ⟨edgeId,if_pos own⟩
    · rw [if_neg own]
      rcases List.mem_append.mp among with earlier | last
      · exact rowAt.crossed other earlier name same
      · exact absurd (List.mem_singleton.mp last ▸ same) own
  have clear_iff : Clear (edges ++ [edge]) node ↔
      (row.bindNamed edge.variableName (.edge edgeId)).bindings name = none := by
    constructor
    · intro clear
      rw [bindNamed_bindings,if_neg (here ▸ clear edge (by simp))]
      by_contra some
      rcases rowAt.only name some with ⟨other,among,same⟩ | ⟨other,among,same⟩
      · exact fresh other among same
      · exact clear other (by simp [among]) (same.trans here.symm)
    · intro unbound other among same
      obtain ⟨id,bound⟩ := crossed other among (same.trans here)
      rw [unbound] at bound
      cases bound
  unfold expandRow
  cases view.edge edgeId with
  | none => simp
  | some found =>
    obtain ⟨record,properties⟩ := found
    simp only [Option.some.injEq,exists_eq_left',here]
    cases reached : matchesNodePattern node record.toNode view with
    | false => simp
    | true =>
      simp only [if_true,true_and]
      cases bound : (row.bindNamed edge.variableName (.edge edgeId)).bindings name with
      | none => simp [clear_iff.mpr bound,eq_comm]
      | some binding =>
        have clashed : ¬Clear (edges ++ [edge]) node := fun clear => by
          rw [clear_iff.mp clear] at bound
          cases bound
        have other : binding ≠ .node record.toNode := by
          rintro rfl
          simp only [Clear,not_forall,not_not] at clashed
          obtain ⟨other,among,same⟩ := clashed
          obtain ⟨id,edge_bound⟩ := crossed other among (same.trans here)
          rw [bound] at edge_bound
          cases edge_bound
        simp [clashed,other]

theorem rowAt_snoc (edge : Edge) (rowAt : RowAt nodes edges trail row) (fits : nodes.length = trail.nodes.length)
    (here : node.variableName = some name) (fresh : ∀ other ∈ nodes, other.variableName ≠ some name)
    (clear : Clear (edges ++ [edge]) node) (edgeId : EdgeId) (toNode : NodeId) :
    RowAt (nodes ++ [node]) (edges ++ [edge]) (trail.snoc (edgeId,toNode))
      ((row.bindNamed edge.variableName (.edge edgeId)).bind name (.node toNode)) := by
  have bindings (other : Bytes) : ((row.bindNamed edge.variableName (.edge edgeId)).bind name
      (.node toNode)).bindings other = if some name = some other then some (.node toNode)
        else if edge.variableName = some other then some (.edge edgeId) else row.bindings other := by
    rw [← bindNamed_bindings,← bindNamed_bindings]
    rfl
  have bound : BoundTo ((row.bindNamed edge.variableName (.edge edgeId)).bind name (.node toNode)) node
      toNode := ⟨name,here,by rw [bindings,if_pos rfl]⟩
  refine ⟨?_,?_,?_,?_⟩
  · intro one among clear'
    rw [Trail.snoc_nodes,List.zip_append fits] at among
    rcases List.mem_append.mp among with earlier | last
    · obtain ⟨own,same,known⟩ := rowAt.known one earlier fun other among => clear' other (by simp [among])
      refine ⟨own,same,?_⟩
      rw [bindings,if_neg,if_neg,known]
      · rw [← same]
        exact clear' edge (by simp)
      · rw [← same]
        exact (fresh one.1 (List.of_mem_zip earlier).1).symm
    · obtain rfl := List.mem_singleton.mp last
      exact bound
  · intro other among own same
    rw [bindings,if_neg fun equal => clear other among (by rw [same,here,equal])]
    by_cases last : edge.variableName = some own
    · exact ⟨edgeId,if_pos last⟩
    · rw [if_neg last]
      rcases List.mem_append.mp among with earlier | final
      · exact rowAt.crossed other earlier own same
      · exact absurd (List.mem_singleton.mp final ▸ same) last
  · intro other some
    rw [bindings] at some
    split at some
    · rename_i same
      exact .inl ⟨node,by simp,here.trans same⟩
    · split at some
      · rename_i same
        exact .inr ⟨edge,by simp,same⟩
      · refine (rowAt.only other some).imp ?_ ?_
        · rintro ⟨one,among,same⟩
          exact ⟨one,List.mem_append_left _ among,same⟩
        · rintro ⟨one,among,same⟩
          exact ⟨one,List.mem_append_left _ among,same⟩
  · intro other last
    rw [List.getLast?_concat] at last
    obtain rfl := Option.some.inj last
    rwa [Trail.snoc_last]

end Step

/-! The rows. Those of a pattern are the rows of the trails that satisfy it by single edges. -/

structure Marked (view : View) (nodes : List Node) (edges : List Edge) (rows : ResultSet) : Prop where
  sound : ∀ row ∈ rows, Unclashed nodes edges ∧ ∃ trail, Satisfies view nodes edges trail ∧
    RowAt nodes edges trail row
  complete : Unclashed nodes edges → ∀ trail, Satisfies view nodes edges trail →
    ∃ row ∈ rows, RowAt nodes edges trail row

section Rows

variable {view : View}

theorem marked_single (node : Node) (named : node.variableName ≠ none) (ids : List NodeId)
    (found : findNodesByPattern node view = .value ids) :
    Marked view [node] [] (ids.map fun nodeId => ResultRow.bindNamed node.variableName (.node nodeId) {}) where
  sound row among := by
    obtain ⟨nodeId,member,rfl⟩ := List.mem_map.mp among
    refine ⟨by simp [Unclashed],⟨nodeId,[]⟩,((first_matched node ids found).exact _).mp ?_,
      rowAt_single node nodeId named⟩
    exact List.mem_map_of_mem member
  complete _ trail satisfies := by
    obtain ⟨nodeId,member,rfl⟩ := List.mem_map.mp (((first_matched node ids found).exact trail).mpr satisfies)
    exact ⟨_,List.mem_map_of_mem member,rowAt_single node nodeId named⟩

theorem expand_marked (nodes : List Node) (edges : List Edge) (fromNode node : Node) (edge : Edge)
    (rows : ResultSet) (name : Bytes) (shape : edges.length + 1 = nodes.length)
    (directed : edge.directed = true) (distinct : ((nodes ++ [node]).map Node.variableName).Nodup)
    (named : node.variableName ≠ none) (final : nodes.getLast? = some fromNode)
    (here : fromNode.variableName = some name) (marked : Marked view nodes edges rows) :
    Marked view (nodes ++ [node]) (edges ++ [edge]) (expandResults rows name edge node view) := by
  obtain ⟨own,there⟩ := Option.ne_none_iff_exists'.mp named
  have fresh (other : Node) (among : other ∈ nodes) : other.variableName ≠ some own := by
    intro same
    rw [List.map_append] at distinct
    exact List.disjoint_of_nodup_append distinct (List.mem_map_of_mem among)
      (by simp [there,same])
  have joins (trail : Trail NodeId EdgeId) (satisfies : Satisfies view nodes edges trail)
      (step : EdgeId × NodeId) : Joins ((nodes ++ [node]).zip (trail.snoc step).nodes) := by
    rw [Trail.snoc_nodes,List.zip_append (satisfies.fitting shape).nodesFit]
    refine (joins_snoc node step.2).mpr ⟨satisfies.joins,fun one among some same => ?_⟩
    exact absurd (same.trans there) (fresh one.1 (List.of_mem_zip among).1)
  have bound {row : ResultRow} {trail : Trail NodeId EdgeId} (rowAt : RowAt nodes edges trail row) :
      row.bindings name = some (.node trail.last) := by
    obtain ⟨other,same,bound⟩ := rowAt.ends fromNode final
    obtain rfl := Option.some.inj (here.symm.trans same)
    exact bound
  refine ⟨?_,?_⟩
  · intro row' among
    obtain ⟨row,member,grown⟩ := List.mem_flatMap.mp among
    obtain ⟨unclashed,trail,satisfies,rowAt⟩ := marked.sound row member
    rw [bound rowAt] at grown
    obtain ⟨edgeId,leaves,grown⟩ := List.mem_filterMap.mp grown
    obtain ⟨found,read,reached,clear,rfl⟩ := (expandRow_at edge rowAt there fresh edgeId row').mp grown
    obtain ⟨listed,other,read',edgeMatches⟩ := (mem_findEdges edge _ edgeId directed).mp leaves
    obtain rfl := Option.some.inj (read.symm.trans read')
    refine ⟨(unclashed_snoc nodes edges node edge shape).mpr ⟨unclashed,clear⟩,_,
      (satisfies_snoc nodes edges node edge shape _).mpr ⟨trail,(edgeId,found.1.toNode),rfl,satisfies,
        ⟨⟨listed,found,read,rfl,edgeMatches⟩,reached⟩,joins trail satisfies _⟩,
      rowAt_snoc edge rowAt (satisfies.fitting shape).nodesFit there fresh clear edgeId _⟩
  · intro whole trail satisfied
    obtain ⟨unclashed,clear⟩ := (unclashed_snoc nodes edges node edge shape).mp whole
    obtain ⟨before,⟨edgeId,toNode⟩,rfl,satisfies,⟨⟨listed,found,read,rfl,edgeMatches⟩,reached⟩,-⟩ :=
      (satisfies_snoc nodes edges node edge shape _).mp satisfied
    obtain ⟨row,member,rowAt⟩ := marked.complete unclashed before satisfies
    refine ⟨_,List.mem_flatMap.mpr ⟨row,member,?_⟩,
      rowAt_snoc edge rowAt (satisfies.fitting shape).nodesFit there fresh clear edgeId found.1.toNode⟩
    rw [bound rowAt]
    refine List.mem_filterMap.mpr ⟨edgeId,(mem_findEdges edge _ edgeId directed).mpr
      ⟨listed,found,read,edgeMatches⟩,?_⟩
    exact (expandRow_at edge rowAt there fresh edgeId _).mpr ⟨found,read,reached,clear,rfl⟩

/-- On the edges that are left. -/
theorem expandPath_marked (moreEdges : List Edge) (fromNode : Node) (moreNodes before : List Node)
    (edges : List Edge) (rows : ResultSet) (shape : edges.length = before.length)
    (shape' : moreEdges.length = moreNodes.length) (directed : ∀ edge ∈ moreEdges, edge.directed = true)
    (named : ∀ node ∈ fromNode :: moreNodes, node.variableName ≠ none)
    (distinct : ((before ++ fromNode :: moreNodes).map Node.variableName).Nodup)
    (marked : Marked view (before ++ [fromNode]) edges rows) :
    ∃ rows', expandPath moreEdges (fromNode :: moreNodes) rows view = .value rows' ∧
      Marked view (before ++ fromNode :: moreNodes) (edges ++ moreEdges) rows' := by
  induction moreEdges generalizing fromNode moreNodes before edges rows with
  | nil =>
    obtain rfl := List.length_eq_zero_iff.mp shape'.symm
    exact ⟨rows,rfl,by rwa [List.append_nil]⟩
  | cons edge moreEdges ih =>
    obtain ⟨toNode,moreNodes,rfl⟩ := List.exists_cons_of_ne_nil (l := moreNodes) (by rintro rfl; simp at shape')
    obtain ⟨name,here⟩ := Option.ne_none_iff_exists'.mp (named fromNode (.head _))
    have split : before ++ fromNode :: toNode :: moreNodes = (before ++ [fromNode]) ++ toNode :: moreNodes := by
      simp
    have splitEdges : edges ++ edge :: moreEdges = (edges ++ [edge]) ++ moreEdges := by simp
    have short : (((before ++ [fromNode]) ++ [toNode]).map Node.variableName).Nodup := by
      refine distinct.sublist (List.Sublist.map _ ?_)
      rw [split]
      exact List.Sublist.append_left (by simp) _
    have marked' := expand_marked (before ++ [fromNode]) edges fromNode toNode edge rows name (by simp [shape])
      (directed edge (.head _)) short (named toNode (by simp)) (by simp) here marked
    have later : moreEdges.length = moreNodes.length := by simpa using shape'
    have named' (node : Node) (among : node ∈ toNode :: moreNodes) : node.variableName ≠ none :=
      named node (.tail _ among)
    rw [expandPath_cons edge moreEdges fromNode toNode moreNodes rows name here later
      fun node among => named' node (List.dropLast_subset _ among),split,splitEdges]
    exact ih toNode moreNodes (before ++ [fromNode]) (edges ++ [edge]) _ (by simp [shape]) later
      (fun edge among => directed edge (.tail _ among)) named' (split ▸ distinct) marked'

theorem matchPattern_several (pattern : Pattern) (path : NamedPath pattern) (first : Node)
    (others : List Node) (nodes : pattern.nodes = first :: others) :
    matchPattern pattern view =
      (matchNode first view).bind fun rows => expandPath pattern.edges (first :: others) rows view := by
  have several := path.several
  have shape := path.shape
  rw [nodes] at shape
  obtain ⟨edge,edges,same⟩ := List.exists_cons_of_ne_nil (l := pattern.edges) (by
    intro none
    simp [none] at several)
  obtain ⟨second,rest,rfl⟩ := List.exists_cons_of_ne_nil (l := others) (by
    rintro rfl
    simp [same] at shape)
  unfold matchPattern
  rw [nodes]
  dsimp only
  rw [same]
  cases edges with
  | cons => rfl
  | nil => simp [same] at several

theorem matchPattern_marked (pattern : Pattern) (path : NamedPath pattern) (first : Node)
    (others : List Node) (nodes : pattern.nodes = first :: others) (ids : List NodeId)
    (found : findNodesByPattern first view = .value ids) :
    ∃ rows, matchPattern pattern view = .value rows ∧ Marked view pattern.nodes pattern.edges rows := by
  have shape := path.shape
  have named := path.named
  have distinct := path.distinct
  rw [nodes] at shape named distinct
  obtain ⟨rows,expanded,marked⟩ := expandPath_marked pattern.edges first others [] [] _ rfl
    (by simpa using shape) path.directed named distinct (marked_single first (named first (.head _)) ids found)
  refine ⟨rows,?_,by rw [nodes]; exact marked⟩
  rw [matchPattern_several pattern path first others nodes,matchNode,found]
  exact expanded

theorem row_reads {nodes : List Node} {edges : List Edge} {trail : Trail NodeId EdgeId} {row : ResultRow}
    (rowAt : RowAt nodes edges trail row) (fits : nodes.length = trail.nodes.length) (i : ℕ) (node : Node)
    (nodeId : NodeId) (here : nodes[i]? = some node) (bound : BoundTo row node nodeId) :
    Clear edges node ∧ trail.nodes[i]? = some nodeId := by
  obtain ⟨name,named,bound⟩ := bound
  have clear : Clear edges node := by
    intro edge among same
    obtain ⟨edgeId,other⟩ := rowAt.crossed edge among name (same.trans named)
    rw [bound] at other
    cases other
  obtain ⟨inside,-⟩ := List.getElem?_eq_some_iff.mp here
  have there := List.getElem?_eq_getElem (l := trail.nodes) (i := i) (by omega)
  obtain ⟨own,same,known⟩ := rowAt.known (node,trail.nodes[i])
    (List.mem_of_getElem? (i := i) (by rw [List.getElem?_zip_eq_some]; exact ⟨here,there⟩)) clear
  obtain rfl := Option.some.inj (named.symm.trans same)
  rw [bound] at known
  exact ⟨clear,by rw [there,VariableBinding.node.inj (Option.some.inj known)]⟩

end Rows

section Ends

variable {view : View} {pattern : Pattern}

theorem NamedPath.first (path : NamedPath pattern) : ∃ first others, pattern.nodes = first :: others :=
  List.exists_cons_of_ne_nil fun none => by
    have shape := path.shape
    simp [none] at shape

theorem honoured_reach (path : NamedPath pattern) (honoured : HopsHonoured view pattern) :
    SingleEdgesReach view pattern := by
  obtain ⟨first,others,nodes⟩ := path.first
  intro unclashed trail satisfies i edge fromNode toNode u v atEdge atFrom atTo clear clear' there there'
  obtain ⟨one,ids,same,found,-⟩ := satisfies.starts
  rw [nodes,List.head?_cons,Option.some.injEq] at same
  obtain ⟨rows,returned,marked⟩ := matchPattern_marked pattern path first others nodes ids (same ▸ found)
  obtain ⟨row,among,rowAt⟩ := marked.complete unclashed trail satisfies
  have bound (j : ℕ) (node : Node) (nodeId : NodeId) (here : pattern.nodes[j]? = some node)
      (there : trail.nodes[j]? = some nodeId) (clear : Clear pattern.edges node) : BoundTo row node nodeId :=
    rowAt.known (node,nodeId)
      (List.mem_of_getElem? (i := j) (by rw [List.getElem?_zip_eq_some]; exact ⟨here,there⟩)) clear
  exact honoured rows returned row among i edge fromNode toNode u v atEdge atFrom atTo
    (bound i fromNode u atFrom there clear) (bound (i + 1) toNode v atTo there' clear')

theorem reach_honoured (path : NamedPath pattern) (reach : SingleEdgesReach view pattern) :
    HopsHonoured view pattern := by
  obtain ⟨first,others,nodes⟩ := path.first
  intro rows returned row among i edge fromNode toNode u v atEdge atFrom atTo bound bound'
  cases scan : findNodesByPattern first view with
  | value ids =>
    obtain ⟨rows',returned',marked⟩ := matchPattern_marked pattern path first others nodes ids scan
    obtain rfl := Outcome.value.inj (returned.symm.trans returned')
    obtain ⟨unclashed,trail,satisfies,rowAt⟩ := marked.sound row among
    have fits := (satisfies.fitting path.shape).nodesFit
    obtain ⟨clear,there⟩ := row_reads rowAt fits i fromNode u atFrom bound
    obtain ⟨clear',there'⟩ := row_reads rowAt fits (i + 1) toNode v atTo bound'
    exact reach unclashed trail satisfies i edge fromNode toNode u v atEdge atFrom atTo clear clear' there
      there'
  | error | thrown | endless =>
    rw [matchPattern_several pattern path first others nodes,matchNode,scan] at returned
    cases returned

end Ends

/-- The ranges of a pattern of several edges are honoured if and only if the ends of its single edges are
joined by walks in their ranges anyway. -/
theorem ranges_of_several (view : View) (pattern : Pattern) (path : NamedPath pattern) :
    HopsHonoured view pattern ↔ SingleEdgesReach view pattern :=
  ⟨honoured_reach path,reach_honoured path⟩

/-! Two edges in a row, and a pattern that asks for two and one more. -/

def inARow : List Operation := [.createNode [],.createNode [],.createNode [],.createEdge 0 1 2 [] [],
  .createEdge 0 2 3 [] []]

def rowGraph : CountedGraph := run (CountedGraph.step fun _ => 0) {} inARow

def rowStore : GraphStore FilePageStore := run (plain fun _ => 0) (fresh none none) inARow

def twoAndOne : Pattern where
  nodes := [{variableName := ascii "a"},{variableName := ascii "b"},{variableName := ascii "c"}]
  edges := [{minHops := 2, maxHops := 2},{variableName := ascii "r"}]

theorem twoAndOne_path : NamedPath twoAndOne where
  several := by decide
  shape := rfl
  directed := by simp [twoAndOne]
  named := by simp [twoAndOne]
  distinct := by decide

theorem createEdge_counts (hash : Bytes → UInt64) (clock : UInt64) (fromNode toNode : NodeId)
    (label : Bytes) (properties : List Property) (store : GraphStore FilePageStore) :
    (plain hash store (.createEdge clock fromNode toNode label properties)).nodeCount = store.nodeCount := by
  obtain same | ⟨page,same⟩ :=
    Outlines.createEdge_outline hash clock fromNode toNode label properties store
  · exact congrArg Outlines.Outline.nodeCount same
  · exact congrArg Outlines.Outline.nodeCount same

theorem rowStore_view : ExecutionContext.view 1 rowStore = graphView rowGraph 3 := by
  have empty : Holds (fresh none none) {} := ⟨fresh_represents none none,rfl⟩
  have short : Guarded (CountedGraph.step fun _ => 0) Short {} inARow := by decide +kernel
  have one := plain_holds (fun _ => 0) (.createNode []) empty short.1
  have two := plain_holds (fun _ => 0) (.createNode []) one short.2.1
  have held : Holds rowStore rowGraph := run_holds (fun _ => 0) inARow empty short
  have counted : rowStore.nodeCount = 3 := by
    rw [rowStore,inARow,run_cons,run_cons,run_cons,run_cons,run_cons,
      run_nil,createEdge_counts,createEdge_counts,createNode_counts _ _ two,
      createNode_counts _ _ one,createNode_counts _ _ empty]
    rfl
  rw [view_holds 1 held,counted]

/-- The path over both edges satisfies the pattern, but no two edges lead from its first node to the
second. -/
theorem twoAndOne_unreached : ¬SingleEdgesReach (graphView rowGraph 3) twoAndOne := by
  intro reach
  have clear : ∀ node ∈ twoAndOne.nodes, Clear twoAndOne.edges node := by decide
  have unclashed : Unclashed twoAndOne.nodes twoAndOne.edges := fun i j edge node _ here there =>
    clear node (List.mem_of_getElem? there) edge (List.mem_of_getElem? here)
  have satisfies : Satisfies (graphView rowGraph 3) twoAndOne.nodes twoAndOne.edges
      ⟨1,[(1,2),(2,3)]⟩ := by
    refine ⟨⟨_,_,rfl,rfl,by decide +kernel⟩,⟨⟨⟨?_,_,rfl,rfl,rfl⟩,?_⟩,⟨⟨?_,_,rfl,rfl,rfl⟩,?_⟩,trivial⟩,
      by decide +kernel⟩
    all_goals decide +kernel
  obtain ⟨steps,leads,last,least,most⟩ := reach unclashed _ satisfies 0 _ _ _ 1 2 rfl rfl rfl (by decide)
    (by decide) rfl rfl
  have two : steps.length = 2 := by
    have low : (2 : ℤ) ≤ steps.length := least
    have high : (steps.length : ℤ) ≤ 2 := most.resolve_left (by decide)
    omega
  obtain ⟨one,other,rfl⟩ := List.length_eq_two.mp two
  obtain ⟨first,second,-⟩ := leads
  have only (edge : Edge) (node edgeId next : UInt64) (listed : rowGraph.graph.attached .source node = [edgeId])
      (leads : ((graphView rowGraph 3).edge edgeId).map (fun found => found.1.toNode) = some next)
      (step : EdgeId × NodeId) (taken : Step (graphView rowGraph 3) edge node step.1 step.2) :
      step.2 = next := by
    obtain ⟨inside,found,read,same,-⟩ := taken
    have own : step.1 = edgeId := List.mem_singleton.mp (listed ▸ inside)
    rw [own] at read
    rw [read,Option.map_some,same] at leads
    exact Option.some.inj leads
  have second_node := only _ 1 1 2 (by decide +kernel) (by decide +kernel) one first
  rw [second_node] at second
  have third_node := only _ 2 2 3 (by decide +kernel) (by decide +kernel) other second
  have ends : other.2 = 2 := last
  rw [third_node] at ends
  exact absurd ends (by decide)

theorem twoAndOne_dishonoured : ¬HopsHonoured (ExecutionContext.view 1 rowStore) twoAndOne := by
  rw [rowStore_view]
  exact fun honoured => twoAndOne_unreached (honoured_reach twoAndOne_path honoured)

theorem ranges_of_several_row :
    HopsHonoured (ExecutionContext.view 1 rowStore) twoAndOne ↔
      SingleEdgesReach (ExecutionContext.view 1 rowStore) twoAndOne :=
  ranges_of_several _ twoAndOne twoAndOne_path

end LoreDB.Query.Cypher
