import LoreDB.Library.Trails
import LoreDB.Query.Cypher.NodeScans
import LoreDB.Storage.Outlines
import Mathlib.Data.List.Forall2

/-! Patterns of directed edges that each stand for one hop. The rows of a pattern are those of the
trails through the graph that satisfy it, where a name that comes twice joins the nodes it names. -/
namespace LoreDB.Query.Cypher
open LoreDB.Storage LoreDB.Library LoreDB.Library.History LoreDB.Storage.GraphHistory
  LoreDB.Storage.Outlines

/-- A live edge that leaves a node for another and satisfies a pattern. -/
def Step (view : View) (pattern : Edge) (fromNode : NodeId) (edgeId : EdgeId) (toNode : NodeId) : Prop :=
  edgeId ∈ view.outgoingEdges fromNode ∧ ∃ found, view.edge edgeId = some found ∧
    found.1.toNode = toNode ∧ matchesEdgePattern pattern found.2 = true

def Hop (view : View) (edge : Edge) (node : Node) (fromNode : NodeId) (edgeId : EdgeId)
    (toNode : NodeId) : Prop :=
  Step view edge fromNode edgeId toNode ∧ matchesNodePattern node toNode view = true

/-- A name that a pattern gives to two nodes names one node of the graph. -/
def Joins (named : List (Node × NodeId)) : Prop :=
  ∀ one ∈ named, ∀ other ∈ named, one.1.variableName ≠ none →
    one.1.variableName = other.1.variableName → one.2 = other.2

/-- The first node is one that the scan for it finds. -/
structure Satisfies (view : View) (nodes : List Node) (edges : List Edge)
    (trail : Trail NodeId EdgeId) : Prop where
  starts : ∃ first ids, nodes.head? = some first ∧ findNodesByPattern first view = .value ids ∧
    trail.start ∈ ids
  follows : Trail.LeadsBy (List.zipWith (Hop view) edges nodes.tail) trail.start trail.steps
  joins : Joins (nodes.zip trail.nodes)

/-- A row binds names to the nodes and edges that they stand for, and nothing else. -/
def Binds (named : List (Node × NodeId)) (through : List (Edge × EdgeId)) (row : ResultRow) : Prop :=
  ∀ name bound, row.bindings name = some bound ↔
    (∃ one ∈ named, one.1.variableName = some name ∧ .node one.2 = bound) ∨
      ∃ one ∈ through, one.1.variableName = some name ∧ .edge one.2 = bound

/-- Names of edges are names of nothing else. -/
structure DistinctNames (nodes : List Node) (edges : List Edge) : Prop where
  distinct : (edges.filterMap Edge.variableName).Nodup
  apart : ∀ edge ∈ edges, ∀ node ∈ nodes, edge.variableName ≠ none →
    edge.variableName ≠ node.variableName

/-! One row. -/

section Rows

variable {named : List (Node × NodeId)} {through : List (Edge × EdgeId)} {row : ResultRow}

theorem binds_edge (edge : Edge) (edgeId : EdgeId) (binds : Binds named through row)
    (nodes : ∀ one ∈ named, edge.variableName ≠ none → edge.variableName ≠ one.1.variableName)
    (edges : ∀ one ∈ through, edge.variableName ≠ none → edge.variableName ≠ one.1.variableName) :
    Binds named (through ++ [(edge,edgeId)]) (row.bindNamed edge.variableName (.edge edgeId)) := by
  intro name bound
  cases here : edge.variableName with
  | none =>
    rw [ResultRow.bindNamed,binds name bound]
    simp [here]
  | some own =>
    rw [here] at nodes edges
    by_cases same : name = own
    · subst same
      have unnamed : ¬∃ one ∈ named, one.1.variableName = some name ∧ .node one.2 = bound :=
        fun ⟨one,among,taken,_⟩ => nodes one among (by simp) taken.symm
      have unused : ¬∃ one ∈ through, one.1.variableName = some name ∧ .edge one.2 = bound :=
        fun ⟨one,among,taken,_⟩ => edges one among (by simp) taken.symm
      simp only [ResultRow.bindNamed,ResultRow.bind,Function.update_self,unnamed,false_or,List.mem_append,
        List.mem_singleton,or_and_right,exists_or,unused,exists_eq_left,here,Option.some.injEq,true_and]
    · simp only [ResultRow.bindNamed,ResultRow.bind,Function.update_of_ne same,binds name bound,
        List.mem_append,List.mem_singleton,or_and_right,exists_or,exists_eq_left,here,Option.some.injEq,
        Ne.symm same,false_and,or_false]

theorem binds_unnamed (node : Node) (nodeId : NodeId) (binds : Binds named through row)
    (none : node.variableName = none) : Binds (named ++ [(node,nodeId)]) through row := by
  intro name bound
  rw [binds name bound]
  simp [none]

theorem binds_again (node : Node) (nodeId : NodeId) (name : Bytes) (binds : Binds named through row)
    (here : node.variableName = some name) (known : row.bindings name = some (.node nodeId)) :
    Binds (named ++ [(node,nodeId)]) through row := by
  intro other bound
  constructor
  · intro found
    refine ((binds other bound).mp found).imp_left ?_
    rintro ⟨one,among,rest⟩
    exact ⟨one,List.mem_append_left _ among,rest⟩
  · rintro (⟨one,among,taken,rfl⟩ | edge)
    · rcases List.mem_append.mp among with among | last
      · exact (binds other _).mpr (.inl ⟨one,among,taken,rfl⟩)
      · obtain rfl := List.mem_singleton.mp last
        obtain rfl := Option.some.inj (here.symm.trans taken)
        exact known
    · exact (binds other bound).mpr (.inr edge)

theorem binds_new (node : Node) (nodeId : NodeId) (name : Bytes) (binds : Binds named through row)
    (here : node.variableName = some name) (unknown : row.bindings name = none) :
    Binds (named ++ [(node,nodeId)]) through (row.bind name (.node nodeId)) := by
  intro other bound
  by_cases same : other = name
  · subst same
    have nothing : ¬((∃ one ∈ named, one.1.variableName = some other ∧ .node one.2 = bound) ∨
        ∃ one ∈ through, one.1.variableName = some other ∧ .edge one.2 = bound) := by
      rw [← binds other bound,unknown]
      simp
    rw [not_or] at nothing
    simp only [ResultRow.bind,Function.update_self,List.mem_append,List.mem_singleton,or_and_right,exists_or,
      nothing.1,nothing.2,exists_eq_left,here,Option.some.injEq,true_and,false_or,or_false]
  · simp only [ResultRow.bind,Function.update_of_ne same,binds other bound,List.mem_append,
      List.mem_singleton,or_and_right,exists_or,exists_eq_left,here,Option.some.injEq,Ne.symm same,
      false_and,or_false]

theorem joins_snoc (node : Node) (nodeId : NodeId) : Joins (named ++ [(node,nodeId)]) ↔
    Joins named ∧ ∀ one ∈ named, one.1.variableName ≠ none →
      one.1.variableName = node.variableName → one.2 = nodeId := by
  constructor
  · intro joins
    exact ⟨fun one among other among' => joins one (List.mem_append_left _ among) other
      (List.mem_append_left _ among'),fun one among some same =>
        joins one (List.mem_append_left _ among) (node,nodeId) (by simp) some same⟩
  · rintro ⟨before,last⟩ one among other among' some same
    simp only [List.mem_append,List.mem_singleton] at among among'
    rcases among with among | rfl <;> rcases among' with among' | rfl
    · exact before one among other among' some same
    · exact last one among some same
    · exact (last other among' (same ▸ some) same.symm).symm
    · rfl

end Rows

instance (named : List (Node × NodeId)) : Decidable (Joins named) :=
  inferInstanceAs (Decidable (∀ one ∈ named, ∀ other ∈ named, one.1.variableName ≠ none →
    one.1.variableName = other.1.variableName → one.2 = other.2))

/-! One edge. -/

def RowOf (nodes : List Node) (edges : List Edge) (trail : Trail NodeId EdgeId) (row : ResultRow) : Prop :=
  Binds (nodes.zip trail.nodes) (edges.zip trail.edges) row

/-- How a trail can go on along an edge. -/
def along (view : View) (nodes : List Node) (node : Node) (trail : Trail NodeId EdgeId) (edgeId : EdgeId) :
    Option (Trail NodeId EdgeId) :=
  (view.edge edgeId).bind fun found =>
    if matchesNodePattern node found.1.toNode view = true ∧
        Joins ((nodes ++ [node]).zip (trail.snoc (edgeId,found.1.toNode)).nodes) then
      some (trail.snoc (edgeId,found.1.toNode))
    else none

/-- The lists are as long as the trail that they belong to. -/
structure Fitting (nodes : List Node) (edges : List Edge) (trail : Trail NodeId EdgeId) : Prop where
  nodesFit : nodes.length = trail.nodes.length
  edgesFit : edges.length = trail.edges.length
  joins : Joins (nodes.zip trail.nodes)

theorem expandRow_along (nodes : List Node) (edges : List Edge) (node : Node) (edge : Edge)
    (trail : Trail NodeId EdgeId) (row : ResultRow) (edgeId : EdgeId)
    (fitting : Fitting nodes edges trail) (names : DistinctNames (nodes ++ [node]) (edges ++ [edge]))
    (rowOf : RowOf nodes edges trail row) :
    Option.Rel (RowOf (nodes ++ [node]) (edges ++ [edge])) (along view nodes node trail edgeId)
      (expandRow edge node row edgeId view) := by
  unfold along expandRow
  cases view.edge edgeId with
  | none => exact .none
  | some found =>
    obtain ⟨record,properties⟩ := found
    simp only [Option.bind_some,Trail.snoc_nodes]
    cases reached : matchesNodePattern node record.toNode view with
    | false => exact .none
    | true =>
      have zipped : (nodes ++ [node]).zip (trail.nodes ++ [record.toNode]) =
          nodes.zip trail.nodes ++ [(node,record.toNode)] := List.zip_append fitting.nodesFit
      have zipped' : (edges ++ [edge]).zip (trail.edges ++ [edgeId]) =
          edges.zip trail.edges ++ [(edge,edgeId)] := List.zip_append fitting.edgesFit
      have crossed : Binds (nodes.zip trail.nodes) (edges.zip trail.edges ++ [(edge,edgeId)])
          (row.bindNamed edge.variableName (.edge edgeId)) := by
        refine binds_edge edge edgeId rowOf ?_ ?_
        · intro one among
          exact names.apart edge (by simp) one.1 (List.mem_append_left _ (List.of_mem_zip among).1)
        · intro one among some same
          have earlier := (List.of_mem_zip among).1
          obtain ⟨name,named⟩ := Option.ne_none_iff_exists'.mp some
          have distinct := names.distinct
          rw [List.filterMap_append,List.filterMap_cons_some named] at distinct
          refine List.disjoint_of_nodup_append distinct (List.mem_filterMap.mpr ⟨one.1,earlier,?_⟩)
            (List.mem_cons_self)
          rw [← same,named]
      have joined (agrees : ∀ one ∈ nodes.zip trail.nodes, one.1.variableName ≠ none →
          one.1.variableName = node.variableName → one.2 = record.toNode) :
          Joins ((nodes ++ [node]).zip (trail.nodes ++ [record.toNode])) :=
        zipped ▸ (joins_snoc ..).mpr ⟨fitting.joins,agrees⟩
      simp only [if_true]
      cases here : node.variableName with
      | none =>
        rw [if_pos ⟨trivial,joined fun one _ some same => absurd (same.trans here) some⟩]
        refine .some ?_
        rw [RowOf,Trail.snoc_nodes,Trail.snoc_edges,zipped,zipped']
        exact binds_unnamed node _ crossed here
      | some name =>
        have fromNode (bound : VariableBinding)
            (known : (row.bindNamed edge.variableName (.edge edgeId)).bindings name = some bound) :
            ∃ one ∈ nodes.zip trail.nodes, one.1.variableName = some name ∧ .node one.2 = bound := by
          refine ((crossed name bound).mp known).resolve_right ?_
          rintro ⟨one,among,named,-⟩
          rw [← zipped'] at among
          exact names.apart one.1 (List.of_mem_zip among).1 node (by simp) (by simp [named])
            (named.trans here.symm)
        cases known : (row.bindNamed edge.variableName (.edge edgeId)).bindings name with
        | none =>
          have agrees (one : Node × NodeId) (among : one ∈ nodes.zip trail.nodes)
              (_ : one.1.variableName ≠ none) (same : one.1.variableName = node.variableName) :
              one.2 = record.toNode := by
            have bound := (crossed name _).mpr (.inl ⟨one,among,same.trans here,rfl⟩)
            rw [known] at bound
            cases bound
          simp only [if_pos (And.intro trivial (joined agrees)),known]
          refine .some ?_
          rw [RowOf,Trail.snoc_nodes,Trail.snoc_edges,zipped,zipped']
          exact binds_new node _ name crossed here known
        | some bound =>
          by_cases again : bound = .node record.toNode
          · subst again
            have agrees (one : Node × NodeId) (among : one ∈ nodes.zip trail.nodes)
                (_ : one.1.variableName ≠ none) (same : one.1.variableName = node.variableName) :
                one.2 = record.toNode := by
              have bound := (crossed name _).mpr (.inl ⟨one,among,same.trans here,rfl⟩)
              rw [known] at bound
              exact (VariableBinding.node.inj (Option.some.inj bound)).symm
            simp only [if_pos (And.intro trivial (joined agrees)),known,if_true]
            refine .some ?_
            rw [RowOf,Trail.snoc_nodes,Trail.snoc_edges,zipped,zipped']
            exact binds_again node _ name crossed here known
          · have apart : ¬Joins ((nodes ++ [node]).zip (trail.nodes ++ [record.toNode])) := by
              intro joins
              obtain ⟨one,among,named,rfl⟩ := fromNode bound known
              rw [zipped] at joins
              exact again (congrArg _ (((joins_snoc ..).mp joins).2 one among (by simp [named])
                (named.trans here.symm)))
            rw [if_neg fun both => apart both.2]
            simp only [known,if_neg again]
            exact .none

theorem mem_findEdges (edge : Edge) (fromNode : NodeId) (edgeId : EdgeId) (directed : edge.directed = true) :
    edgeId ∈ findEdgesByPattern edge fromNode 0 view ↔ edgeId ∈ view.outgoingEdges fromNode ∧
      ∃ found, view.edge edgeId = some found ∧ matchesEdgePattern edge found.2 = true := by
  simp [findEdgesByPattern,directed,Option.any_eq_true]

theorem nodup_findEdges (edge : Edge) (fromNode : NodeId) (directed : edge.directed = true)
    (listed : ∀ node, (view.outgoingEdges node).Nodup) :
    (findEdgesByPattern edge fromNode 0 view).Nodup := by
  rw [findEdgesByPattern,if_pos directed,List.append_nil]
  exact (listed fromNode).filter _

theorem along_some (nodes : List Node) (node : Node) (trail other : Trail NodeId EdgeId) (edgeId : EdgeId) :
    along view nodes node trail edgeId = some other ↔ ∃ found, view.edge edgeId = some found ∧
      matchesNodePattern node found.1.toNode view = true ∧
      Joins ((nodes ++ [node]).zip (trail.snoc (edgeId,found.1.toNode)).nodes) ∧
      trail.snoc (edgeId,found.1.toNode) = other := by
  simp only [along,Option.bind_eq_some_iff,Option.ite_none_right_eq_some,Option.some.injEq,and_assoc]

/-- The rows of a pattern are those of the trails that satisfy it. -/
structure Matched (view : View) (nodes : List Node) (edges : List Edge) (trails : List (Trail NodeId EdgeId))
    (rows : ResultSet) : Prop where
  nodup : trails.Nodup
  exact : ∀ trail, trail ∈ trails ↔ Satisfies view nodes edges trail
  rows : List.Forall₂ (RowOf nodes edges) trails rows

theorem Satisfies.fitting {nodes : List Node} {edges : List Edge} {trail : Trail NodeId EdgeId}
    (shape : edges.length + 1 = nodes.length) (satisfies : Satisfies view nodes edges trail) :
    Fitting nodes edges trail := by
  have length := Trail.leadsBy_length satisfies.follows
  rw [List.length_zipWith,List.length_tail] at length
  refine ⟨?_,?_,satisfies.joins⟩
  · rw [Trail.length_nodes]
    omega
  · rw [Trail.edges,List.length_map]
    omega

/-- The conditions on the last step of a trail stand by themselves. -/
theorem satisfies_snoc (nodes : List Node) (edges : List Edge) (node : Node) (edge : Edge)
    (shape : edges.length + 1 = nodes.length) (trail : Trail NodeId EdgeId) :
    Satisfies view (nodes ++ [node]) (edges ++ [edge]) trail ↔ ∃ before step, trail = before.snoc step ∧
      Satisfies view nodes edges before ∧ Hop view edge node before.last step.1 step.2 ∧
      Joins ((nodes ++ [node]).zip (before.snoc step).nodes) := by
  obtain ⟨first,others,rfl⟩ := List.exists_cons_of_ne_nil (l := nodes) (by rintro rfl; simp at shape)
  have tails : List.zipWith (Hop view) (edges ++ [edge]) (first :: others ++ [node]).tail =
      List.zipWith (Hop view) edges others ++ [Hop view edge node] := by
    rw [List.cons_append,List.tail_cons,List.zipWith_append (by simpa using shape)]
    rfl
  constructor
  · rintro ⟨starts,follows,joins⟩
    rw [tails,Trail.leadsBy_snoc] at follows
    obtain ⟨before,step,same,leads,hop⟩ := follows
    obtain ⟨start,steps⟩ := trail
    obtain rfl : steps = before ++ [step] := same
    refine ⟨⟨start,before⟩,step,rfl,⟨starts,leads,?_⟩,hop,joins⟩
    have length := Trail.leadsBy_length leads
    rw [List.length_zipWith] at length
    have fits : (first :: others).length = (⟨start,before⟩ : Trail NodeId EdgeId).nodes.length := by
      rw [Trail.length_nodes]
      simp only [List.length_cons] at shape ⊢
      omega
    change Joins ((first :: others ++ [node]).zip (Trail.snoc ⟨start,before⟩ step).nodes) at joins
    rw [Trail.snoc_nodes,List.zip_append fits] at joins
    exact ((joins_snoc ..).mp joins).1
  · rintro ⟨before,step,rfl,⟨starts,follows,-⟩,hop,joins⟩
    refine ⟨starts,?_,joins⟩
    rw [tails]
    exact (Trail.leadsBy_snoc ..).mpr ⟨before.steps,step,rfl,follows,hop⟩

theorem last_named (nodes : List Node) (edges : List Edge) (trail : Trail NodeId EdgeId) (row : ResultRow)
    (fitting : Fitting nodes edges trail) (rowOf : RowOf nodes edges trail row) (fromNode : Node)
    (name : Bytes) (final : nodes.getLast? = some fromNode) (named : fromNode.variableName = some name) :
    row.bindings name = some (.node trail.last) := by
  obtain ⟨init,rfl⟩ := List.getLast?_eq_some_iff.mp final
  refine (rowOf name _).mpr (.inl ⟨(fromNode,trail.last),?_,named,rfl⟩)
  have split : trail.nodes = trail.nodes.dropLast ++ [trail.last] :=
    (List.dropLast_append_getLast _).symm
  have fits := fitting.nodesFit
  rw [split] at fits ⊢
  rw [List.zip_append (by simpa using fits)]
  simp

theorem expand_matched (nodes : List Node) (edges : List Edge) (node : Node) (edge : Edge)
    (trails : List (Trail NodeId EdgeId)) (rows : ResultSet) (fromNode : Node) (name : Bytes)
    (listed : ∀ node, (view.outgoingEdges node).Nodup) (shape : edges.length + 1 = nodes.length)
    (directed : edge.directed = true) (names : DistinctNames (nodes ++ [node]) (edges ++ [edge]))
    (final : nodes.getLast? = some fromNode) (named : fromNode.variableName = some name)
    (matched : Matched view nodes edges trails rows) :
    ∃ trails', Matched view (nodes ++ [node]) (edges ++ [edge]) trails'
      (expandResults rows name edge node view) := by
  have fitting (trail : Trail NodeId EdgeId) (among : trail ∈ trails) : Fitting nodes edges trail :=
    ((matched.exact trail).mp among).fitting shape
  refine ⟨trails.flatMap fun trail =>
    (findEdgesByPattern edge trail.last 0 view).filterMap (along view nodes node trail),?_,?_,?_⟩
  · refine List.nodup_flatMap.mpr ⟨fun trail _ => ?_,matched.nodup.imp fun {trail other} apart => ?_⟩
    · refine (nodup_findEdges edge trail.last directed listed).filterMap fun e e' t here there => ?_
      obtain ⟨_,-,-,-,rfl⟩ := (along_some ..).mp here
      obtain ⟨_,-,-,-,same⟩ := (along_some ..).mp there
      exact (congrArg Prod.fst (Trail.snoc_inj.mp same).2).symm
    · intro longer here there
      obtain ⟨e,-,here⟩ := List.mem_filterMap.mp here
      obtain ⟨e',-,there⟩ := List.mem_filterMap.mp there
      obtain ⟨_,-,-,-,rfl⟩ := (along_some ..).mp here
      obtain ⟨_,-,-,-,same⟩ := (along_some ..).mp there
      exact apart (Trail.snoc_inj.mp same).1.symm
  · intro longer
    rw [satisfies_snoc nodes edges node edge shape,List.mem_flatMap]
    constructor
    · rintro ⟨trail,among,grown⟩
      obtain ⟨e,leaves,grown⟩ := List.mem_filterMap.mp grown
      obtain ⟨found,read,reached,joins,rfl⟩ := (along_some ..).mp grown
      obtain ⟨listed,other,read',edgeMatches⟩ := (mem_findEdges edge _ e directed).mp leaves
      obtain rfl := Option.some.inj (read.symm.trans read')
      exact ⟨trail,(e,found.1.toNode),rfl,(matched.exact trail).mp among,
        ⟨⟨listed,found,read,rfl,edgeMatches⟩,reached⟩,joins⟩
    · rintro ⟨trail,⟨e,toNode⟩,rfl,satisfies,⟨⟨listed,found,read,rfl,edgeMatches⟩,reached⟩,joins⟩
      refine ⟨trail,(matched.exact trail).mpr satisfies,List.mem_filterMap.mpr ⟨e,?_,?_⟩⟩
      · exact (mem_findEdges edge _ e directed).mpr ⟨listed,found,read,edgeMatches⟩
      · exact (along_some ..).mpr ⟨found,read,reached,joins,rfl⟩
  · have fit : List.Forall₂ (fun trail row => Fitting nodes edges trail ∧ RowOf nodes edges trail row)
        trails rows := (List.forall₂_and_left _ _).mpr ⟨fitting,matched.rows⟩
    refine List.rel_flatMap fit fun trail row both => ?_
    obtain ⟨fitting,rowOf⟩ := both
    rw [last_named nodes edges trail row fitting rowOf fromNode name final named]
    refine List.rel_filterMap (R := Eq) ?_ (List.forall₂_same.mpr fun _ _ => rfl)
    rintro e _ rfl
    exact expandRow_along nodes edges node edge trail row e fitting names rowOf

/-! The whole pattern. -/

theorem first_matched (node : Node) (ids : List NodeId) (found : findNodesByPattern node view = .value ids) :
    Matched view [node] [] (ids.map fun nodeId => ⟨nodeId,[]⟩)
      (ids.map fun nodeId => ResultRow.bindNamed node.variableName (.node nodeId) {}) where
  nodup := by
    obtain ⟨-,rfl⟩ := (scan_value node ids).mp found
    exact (nodup_scannedIds node).map fun _ _ same => congrArg Trail.start same
  exact trail := by
    constructor
    · intro among
      obtain ⟨nodeId,member,rfl⟩ := List.mem_map.mp among
      refine ⟨⟨node,ids,rfl,found,member⟩,trivial,?_⟩
      rintro one among other among' - -
      simp only [Trail.nodes,List.map_nil,List.zip_cons_cons,List.zip_nil_left,List.mem_singleton]
        at among among'
      rw [among,among']
    · rintro ⟨⟨first,ids',same,found',starts⟩,follows,-⟩
      obtain rfl := Option.some.inj same
      obtain rfl := Outcome.value.inj (found.symm.trans found')
      obtain ⟨start,steps⟩ := trail
      obtain rfl := List.length_eq_zero_iff.mp (Trail.leadsBy_length follows)
      exact List.mem_map.mpr ⟨start,starts,rfl⟩
  rows := by
    rw [List.forall₂_map_left_iff,List.forall₂_map_right_iff]
    refine List.forall₂_same.mpr fun nodeId _ => ?_
    have empty : Binds [] [] {} := fun name bound => by simp
    cases named : node.variableName with
    | none => exact binds_unnamed node nodeId empty named
    | some name => exact binds_new node nodeId name empty named rfl

theorem DistinctNames.before {nodes : List Node} {edges : List Edge} (more : List Node) (more' : List Edge)
    (names : DistinctNames (nodes ++ more) (edges ++ more')) : DistinctNames nodes edges where
  distinct := by
    have distinct := names.distinct
    rw [List.filterMap_append] at distinct
    exact (List.nodup_append.mp distinct).1
  apart edge among node among' :=
    names.apart edge (List.mem_append_left _ among) node (List.mem_append_left _ among')

theorem expandPath_nil (edges : List Edge) (fromNode : Node) (nodes : List Node)
    (shape : edges.length = nodes.length)
    (named : ∀ node ∈ (fromNode :: nodes).dropLast, node.variableName ≠ none) :
    expandPath edges (fromNode :: nodes) [] view = .value [] := by
  cases edges with
  | nil => rfl
  | cons edge edges =>
    obtain ⟨toNode,nodes,rfl⟩ := List.exists_cons_of_ne_nil (l := nodes) (by rintro rfl; simp at shape)
    obtain ⟨name,here⟩ := Option.ne_none_iff_exists'.mp (named fromNode (by simp))
    rw [expandPath,here]
    rfl

/-- An empty set of rows stays empty, so stopping there changes nothing. -/
theorem expandPath_cons (edge : Edge) (edges : List Edge) (fromNode toNode : Node) (nodes : List Node)
    (rows : ResultSet) (name : Bytes) (here : fromNode.variableName = some name)
    (shape : edges.length = nodes.length)
    (named : ∀ node ∈ (toNode :: nodes).dropLast, node.variableName ≠ none) :
    expandPath (edge :: edges) (fromNode :: toNode :: nodes) rows view =
      expandPath edges (toNode :: nodes) (expandResults rows name edge toNode view) view := by
  rw [expandPath,here]
  dsimp only
  split
  · rename_i empty
    rw [List.isEmpty_iff.mp empty,expandPath_nil edges toNode nodes shape named]
  · rfl

/-- On the edges that are left. -/
theorem expandPath_matched (listed : ∀ node, (view.outgoingEdges node).Nodup) (moreEdges : List Edge)
    (fromNode : Node) (moreNodes : List Node) (before : List Node) (edges : List Edge)
    (trails : List (Trail NodeId EdgeId)) (rows : ResultSet)
    (shape : edges.length = before.length) (shape' : moreEdges.length = moreNodes.length)
    (directed : ∀ edge ∈ moreEdges, edge.directed = true)
    (named : ∀ node ∈ (fromNode :: moreNodes).dropLast, node.variableName ≠ none)
    (names : DistinctNames (before ++ fromNode :: moreNodes) (edges ++ moreEdges))
    (matched : Matched view (before ++ [fromNode]) edges trails rows) :
    ∃ trails' rows', expandPath moreEdges (fromNode :: moreNodes) rows view = .value rows' ∧
      Matched view (before ++ fromNode :: moreNodes) (edges ++ moreEdges) trails' rows' := by
  induction moreEdges generalizing fromNode moreNodes before edges trails rows with
  | nil =>
    obtain rfl := List.length_eq_zero_iff.mp shape'.symm
    exact ⟨trails,rows,rfl,by rwa [List.append_nil]⟩
  | cons edge moreEdges ih =>
    obtain ⟨toNode,moreNodes,rfl⟩ := List.exists_cons_of_ne_nil (l := moreNodes) (by rintro rfl; simp at shape')
    obtain ⟨name,here⟩ := Option.ne_none_iff_exists'.mp (named fromNode (by simp))
    have split : before ++ fromNode :: toNode :: moreNodes = (before ++ [fromNode]) ++ toNode :: moreNodes := by
      simp
    have splitEdges : edges ++ edge :: moreEdges = (edges ++ [edge]) ++ moreEdges := by simp
    have short : DistinctNames ((before ++ [fromNode]) ++ [toNode]) (edges ++ [edge]) := by
      refine DistinctNames.before moreNodes moreEdges ?_
      simpa using names
    obtain ⟨trails',matched'⟩ := expand_matched (before ++ [fromNode]) edges toNode edge trails rows
      fromNode name listed (by simp [shape]) (directed edge (by simp)) short (by simp) here matched
    have later : moreEdges.length = moreNodes.length := by simpa using shape'
    have named' (node : Node) (among : node ∈ (toNode :: moreNodes).dropLast) : node.variableName ≠ none :=
      named node (by rw [List.dropLast_cons_of_ne_nil (by simp)]; exact .tail _ among)
    rw [expandPath_cons edge moreEdges fromNode toNode moreNodes rows name here later named',split,splitEdges]
    refine ih toNode moreNodes (before ++ [fromNode]) (edges ++ [edge]) trails' _ (by simp [shape]) later
      (fun edge among => directed edge (.tail _ among)) named' ?_ matched'
    rwa [← split,← splitEdges]

/-- A pattern of directed edges of one hop each, with names wherever the path goes on. -/
structure FixedLength (pattern : Pattern) : Prop where
  some : pattern.edges ≠ []
  shape : pattern.edges.length + 1 = pattern.nodes.length
  hops : ∀ edge ∈ pattern.edges, edge.directed = true ∧ edge.minHops = 1 ∧ edge.maxHops = 1
  named : ∀ node ∈ pattern.nodes.dropLast, node.variableName ≠ none
  names : DistinctNames pattern.nodes pattern.edges

def MatchesExactly (view : View) (pattern : Pattern) : Prop :=
  ∃ trails rows, matchPattern pattern view = .value rows ∧
    Matched view pattern.nodes pattern.edges trails rows

theorem matchPattern_path (pattern : Pattern) (fixed : FixedLength pattern) (first : Node)
    (others : List Node) (nodes : pattern.nodes = first :: others) :
    matchPattern pattern view =
      (matchNode first view).bind fun rows => expandPath pattern.edges (first :: others) rows view := by
  have shape := fixed.shape
  rw [nodes] at shape
  obtain ⟨edge,edges,same⟩ := List.exists_cons_of_ne_nil fixed.some
  obtain ⟨second,rest,rfl⟩ := List.exists_cons_of_ne_nil (l := others) (by
    rintro rfl
    simp [same] at shape)
  unfold matchPattern
  rw [nodes]
  dsimp only
  rw [same]
  cases edges with
  | cons => rfl
  | nil =>
    obtain ⟨-,least,most⟩ := fixed.hops edge (by simp [same])
    dsimp only
    rw [if_neg (by simp [least,most])]

theorem matchPattern_exact (pattern : Pattern) (fixed : FixedLength pattern)
    (listed : ∀ node, (view.outgoingEdges node).Nodup) :
    MatchesExactly view pattern ↔ view.nodeCount.toNat + 1 ≠ 2 ^ 64 := by
  have shape := fixed.shape
  obtain ⟨first,others,nodes⟩ := List.exists_cons_of_ne_nil (l := pattern.nodes) (by
    intro none
    simp [none] at shape)
  have path : matchPattern pattern view = _ := matchPattern_path pattern fixed first others nodes
  rw [nodes] at shape
  constructor
  · rintro ⟨trails,rows,returned,-⟩ largest
    rw [path,matchNode,scan_endless first largest] at returned
    cases returned
  · intro passes
    have found := scan_ends first passes
    obtain ⟨trails,rows,expanded,matched⟩ := expandPath_matched listed pattern.edges first others [] [] _ _ rfl
      (by simpa using shape) (fun edge among => (fixed.hops edge among).1) (nodes ▸ fixed.named)
      (by rw [List.nil_append,List.nil_append,← nodes]; exact fixed.names) (first_matched first _ found)
    refine ⟨trails,rows,?_,?_⟩
    · rw [path,matchNode,found]
      exact expanded
    · rw [nodes]
      exact matched

/-- In every state of a store without versions, a pattern has exactly the rows of its trails, unless
the number of nodes has been counted down from none. -/
theorem fixed_patterns (hash : Bytes → UInt64) (pages : FilePageStore) (wal : Option WALManager)
    (calls : List Call)
    (last : Guarded (GraphHistory.step hash) CountersLast (started pages none wal) calls) (txId : Nat)
    (pattern : Pattern) (fixed : FixedLength pattern) :
    MatchesExactly (ExecutionContext.view txId (after hash (started pages none wal) calls)) pattern ↔
      (after hash (started pages none wal) calls).nodeCount.toNat + 1 ≠ 2 ^ 64 :=
  matchPattern_exact pattern fixed
    (after_listed hash (started pages none wal) calls (started_listed pages none wal) last).outgoing

def knows : Pattern where
  nodes := [{variableName := ascii "a"},{variableName := ascii "b"}]
  edges := [{variableName := ascii "r"}]

theorem knows_fixed : FixedLength knows where
  some := by simp [knows]
  shape := rfl
  hops := by simp [knows]
  named := by simp [knows]
  names := ⟨by decide,by decide⟩

/-- A store without versions on a new file. -/
def unversioned : GraphStore FilePageStore := started (FilePageStore.openFile []) none none

theorem fixed_patterns_linked :
    MatchesExactly (ExecutionContext.view 1 (after (fun _ => 0) unversioned
        [.plain (.createEdge 0 7 7 [] [])])) knows ↔
      (after (fun _ => 0) unversioned [.plain (.createEdge 0 7 7 [] [])]).nodeCount.toNat + 1 ≠ 2 ^ 64 := by
  have last : Guarded (GraphHistory.step fun _ => 0) CountersLast unversioned
      [.plain (.createEdge 0 7 7 [] [])] := by
    refine ⟨?_,trivial⟩
    rintro _ rfl
    decide
  exact fixed_patterns (fun _ => 0) (FilePageStore.openFile []) none _ last 1 knows knows_fixed

/-- The deletion of a node that was never there. -/
def uncounted : GraphStore FilePageStore := after (fun _ => 0) unversioned [.plain (.deleteNode 7)]

theorem uncounted_largest (txId : Nat) :
    (ExecutionContext.view txId uncounted).nodeCount.toNat + 1 = 2 ^ 64 := by
  have counted : (ExecutionContext.view txId uncounted).nodeCount = 0 - 1 := rfl
  rw [counted]
  decide

theorem uncounted_endless : matchPattern knows (ExecutionContext.view 1 uncounted) = .endless := by
  rw [matchPattern_path knows knows_fixed _ _ rfl,matchNode,scan_endless _ (uncounted_largest 1)]
  rfl

end LoreDB.Query.Cypher
