import LoreDB.Query.Cypher.ParsedExpressions

/-! When a text that the grammar accepts becomes a query, and which edges the query has. Whether a node
of the tree is built does not depend on the stacks, and each edge of the tree is in the query with the
hops that are read off its text. -/
namespace LoreDB.Query.Cypher
open LoreDB.Storage LoreDB.Library Grammar Peg

section Visits

variable (conversions : Conversions)

/-! Success. -/

/-- Nothing in the node itself throws. -/
structure Readable (node : CypherTree) : Prop where
  number : node.label = .number → ∃ value, numberValue conversions node.text = .ok value
  range : isEdge node.label = true → ∃ hops, hopsOf conversions node.text node.children = .ok hops
  limit : node.label = .limitClause → ∀ child, childOf .integer node.children = some child →
    ∃ count, conversions.stoll child.text = .ok count

theorem foldlM_succeeds {β γ : Type} (f : γ → β → Except String γ) (items : List β)
    (each : ∀ item ∈ items, ∀ state, ∃ next, f state item = .ok next) (state : γ) :
    ∃ final, items.foldlM f state = .ok final := by
  induction items generalizing state with
  | nil => exact ⟨state,rfl⟩
  | cons item items ih =>
    obtain ⟨next,done⟩ := each item (.head _) state
    obtain ⟨final,rest⟩ := ih (fun other among => each other (.tail _ among)) next
    refine ⟨final,?_⟩
    rw [List.foldlM_cons,done]
    exact rest

theorem pair_succeeds (children : List CypherTree)
    (read : ∀ node ∈ Tree.nodesAll children, Readable conversions node) :
    ∃ pair, pairOf conversions children = .ok pair := by
  refine foldlM_succeeds _ children (fun child among pair => ?_) _
  have values (grandchild : CypherTree) (inner : grandchild ∈ child.children) (value : PropertyValue) :
      ∃ next, pairValue conversions value grandchild = .ok next := by
    have inside : grandchild ∈ Tree.nodesAll children := by
      refine Tree.mem_nodesAll.mpr ⟨child,among,?_⟩
      obtain ⟨rule,text,trees⟩ := child
      rw [Tree.nodes_node]
      exact .tail _ (Tree.mem_nodesAll.mpr ⟨grandchild,inner,Tree.mem_nodes grandchild⟩)
    unfold pairValue
    split
    · exact ⟨_,rfl⟩
    · rename_i number
      exact (read grandchild inside).number number
    · exact ⟨_,rfl⟩
    · exact ⟨_,rfl⟩
  split
  · exact ⟨_,rfl⟩
  · obtain ⟨value,done⟩ := foldlM_succeeds (pairValue conversions) child.children values pair.2
    exact ⟨(pair.1,value),by rw [done]; rfl⟩
  · exact ⟨_,rfl⟩

theorem edge_succeeds (rule : Rule) (kind : isEdge rule = true) (text : Bytes) (children : List CypherTree)
    (s : ParserState) : (∃ s', buildNodeOf conversions rule text children s = .ok s') ↔
      Readable conversions (.node rule text children) := by
  have hops (directed : Bool) : (∃ s', ((hopsOf conversions text children).map fun hops =>
      s.buildEdge directed hops children) = .ok s') ↔ ∃ hops, hopsOf conversions text children = .ok hops := by
    simp only [Tree.map_ok]
    constructor
    · rintro ⟨_,hops,read,-⟩
      exact ⟨hops,read⟩
    · rintro ⟨hops,read⟩
      exact ⟨_,hops,read,rfl⟩
  have only (other : rule ≠ .number) (last : rule ≠ .limitClause) :
      Readable conversions (.node rule text children) ↔ ∃ hops, hopsOf conversions text children = .ok hops :=
    ⟨fun read => read.range kind,fun range => ⟨fun same => absurd same other,fun _ => range,
      fun same => absurd same last⟩⟩
  simp only [isEdge,Bool.or_eq_true,beq_iff_eq] at kind
  rcases kind with (rfl | rfl) | rfl
  · exact (hops true).trans (only (by decide) (by decide)).symm
  · exact (hops false).trans (only (by decide) (by decide)).symm
  · exact (hops false).trans (only (by decide) (by decide)).symm

theorem limit_succeeds (text : Bytes) (children : List CypherTree) (s : ParserState) :
    (∃ s', buildNodeOf conversions .limitClause text children s = .ok s') ↔
      Readable conversions (.node .limitClause text children) := by
  have only : Readable conversions (.node .limitClause text children) ↔
      ∀ child, childOf .integer children = some child → ∃ count, conversions.stoll child.text = .ok count :=
    ⟨fun read => read.limit rfl,fun limit => ⟨fun same => (by cases same),
      fun kind => absurd (show isEdge .limitClause = true from kind) (by decide),fun _ => limit⟩⟩
  rw [only]
  simp only [buildNodeOf]
  cases childOf .integer children with
  | none => simp
  | some child => simp [Tree.map_ok]

theorem node_succeeds (rule : Rule) (text : Bytes) (children : List CypherTree) (s : ParserState)
    (read : ∀ node ∈ Tree.nodesAll children, Readable conversions node) :
    (∃ s', buildNodeOf conversions rule text children s = .ok s') ↔
      Readable conversions (.node rule text children) := by
  by_cases edge : isEdge rule = true
  · exact edge_succeeds conversions rule edge text children s
  have quiet (other : rule ≠ .number) (last : rule ≠ .limitClause) :
      Readable conversions (.node rule text children) :=
    ⟨fun same => absurd same other,fun kind => absurd kind edge,fun same => absurd same last⟩
  cases rule
  case number =>
    simp only [buildNodeOf,Tree.map_ok]
    constructor
    · rintro ⟨_,value,found,-⟩
      exact ⟨fun _ => ⟨value,found⟩,fun kind => absurd kind edge,fun same => (by cases same)⟩
    · intro read
      obtain ⟨value,found⟩ := read.number rfl
      exact ⟨_,value,found,rfl⟩
  case propertyPair =>
    obtain ⟨pair,found⟩ := pair_succeeds conversions children read
    refine iff_of_true ⟨s.addProperty pair.1 pair.2,?_⟩ (quiet (by decide) (by decide))
    rw [buildNodeOf,found]
    rfl
  case limitClause => exact limit_succeeds conversions text children s
  all_goals first
    | exact absurd rfl edge
    | exact iff_of_true ⟨_,rfl⟩ (quiet (by decide) (by decide))

theorem visit_readable (tree : CypherTree) (s : ParserState) :
    (∃ s', buildAstFromTree conversions tree s = .ok s') ↔ ∀ node ∈ tree.nodes, Readable conversions node := by
  refine Tree.visit_succeeds (fun _ => true)
    (fun rule text children s _ read => node_succeeds conversions rule text children s read) tree ?_ s
  induction tree using Tree.induction with
  | step rule text children ih => exact .node rfl ih

/-! Edges. -/

/-- The edges of the finished patterns and of the one that is being built. -/
def ParserState.edges (state : ParserState) : List Edge :=
  state.patternStack.reverse.flatMap Pattern.edges ++ state.edgeStack.reverse

/-- The edge has the hops that are read off the node. -/
def HasHops (node : CypherTree) (edge : Edge) : Prop :=
  hopsOf conversions node.text node.children = .ok (edge.minHops,edge.maxHops)

theorem buildPattern_edges (s : ParserState) : s.buildPattern.edges = s.edges := by
  unfold ParserState.buildPattern
  dsimp only
  split
  · simp [ParserState.edges]
  · rfl

theorem buildEdge_edges (directed : Bool) (hops : Int32 × Int32) (children : List CypherTree) (s : ParserState) :
    (s.buildEdge directed hops children).edges = s.edges ++ [s.edgeOf directed hops children] := by
  simp [ParserState.edges,ParserState.buildEdge]

theorem addProperty_edges (key : Bytes) (value : PropertyValue) (s : ParserState) :
    (s.addProperty key value).edges = s.edges := by
  unfold ParserState.addProperty
  split <;> rfl

theorem addLabel_edges (children : List CypherTree) (s : ParserState) : (s.addLabel children).edges = s.edges := by
  unfold ParserState.addLabel
  split <;> rfl

theorem addEdgeType_edges (children : List CypherTree) (s : ParserState) :
    (s.addEdgeType children).edges = s.edges := by
  unfold ParserState.addEdgeType
  split <;> rfl

theorem buildPropertyMap_edges (s : ParserState) : s.buildPropertyMap.edges = s.edges := by
  unfold ParserState.buildPropertyMap
  split <;> rfl

/-- Only the two clauses of patterns take finished patterns away. -/
def keepsPatterns (rule : Rule) : Bool := rule != .matchClause && rule != .createClause

theorem node_collects (rule : Rule) (text : Bytes) (children : List CypherTree) (s s' : ParserState)
    (kind : keepsPatterns rule = true) (built : buildNodeOf conversions rule text children s = .ok s') :
    Tree.Collects ParserState.edges (HasHops conversions)
      (if isEdge rule then [.node rule text children] else []) s s' := by
  have edge (directed : Bool) (made : ((hopsOf conversions text children).map fun hops =>
      s.buildEdge directed hops children) = .ok s') :
      Tree.Collects ParserState.edges (HasHops conversions) [.node rule text children] s s' := by
    obtain ⟨hops,read,rfl⟩ := Tree.map_ok.mp made
    exact ⟨[_],buildEdge_edges directed hops children s,.cons read .nil⟩
  by_cases plain : among plainRules rule = true
  · have other : isEdge rule = false := by
      have apart : (plainRules.all fun rule => !isEdge rule) = true := by decide
      simpa using List.all_eq_true.mp apart rule (List.contains_iff_mem.mp plain)
    have kept := plain_keeps conversions rule text children s s' plain built
    rw [other]
    refine Tree.Collects.nothing ?_
    rw [ParserState.edges,ParserState.edges,show s'.patternStack = s.patternStack from congrArg Drafts.patternStack kept,
      show s'.edgeStack = s.edgeStack from congrArg Drafts.edgeStack kept]
  cases rule
  case directedEdge => exact edge true built
  case undirectedEdge | simpleUndirectedEdge => exact edge false built
  case propertyPair =>
    obtain ⟨pair,-,rfl⟩ := Tree.map_ok.mp built
    exact .nothing (addProperty_edges pair.1 pair.2 s)
  case propertyMap =>
    obtain rfl := Except.ok.inj built
    exact .nothing (buildPropertyMap_edges s)
  case label =>
    obtain rfl := Except.ok.inj built
    exact .nothing (addLabel_edges children s)
  case edgeType =>
    obtain rfl := Except.ok.inj built
    exact .nothing (addEdgeType_edges children s)
  case pattern =>
    obtain rfl := Except.ok.inj built
    exact .nothing (buildPattern_edges s)
  all_goals first
    | exact absurd kind (by decide)
    | exact absurd rfl plain
    | (obtain rfl := Except.ok.inj built; exact .nothing rfl)

/-- A tree without the clauses of patterns. -/
theorem part_collects {e : Expr} (rules : List Rule) (closed : Closed rules)
    (keeps : (rules.all keepsPatterns) = true) {text : Bytes} {trees : List CypherTree}
    (derived : Derives body e text trees) (holds : e.within (among rules) = true)
    (flat : ∀ tree ∈ trees, Tree.Flat isEdge tree) (s s' : ParserState)
    (visited : Tree.visitAll (buildNodeOf conversions) trees s = .ok s') :
    Tree.Collects ParserState.edges (HasHops conversions) (Tree.insideAll isEdge trees) s s' := by
  refine Tree.visitAll_collects trees (fun tree member s s' visited => ?_) s s' visited
  refine Tree.visit_collects (among rules) (fun rule text children s s' kind built => ?_) tree
    (all_among rules closed derived holds tree member) (flat tree member) s s' visited
  exact node_collects conversions rule text children s s'
    (List.all_eq_true.mp keeps rule (List.contains_iff_mem.mp kind)) built

end Visits

/-! Whole queries. -/

theorem reads_derived (text : Bytes) (tree : CypherTree) (reads : Reads text tree) (node : CypherTree)
    (inside : node ∈ tree.nodes) (named : is .unnamed node.label = false) :
    Derives body (body node.label) node.text node.children := by
  unfold Reads Outcome.only at reads
  split at reads
  · rename_i found rest matched
    obtain rfl := Option.some.inj reads
    obtain ⟨whole,-,derived⟩ := parse_derives ranking .query text rest [found] matched
    refine derives_nodes (is .unnamed) body_labels derived rfl node ?_ named
    simpa using inside
  · cases reads

theorem edge_named {rule : Rule} (kind : isEdge rule = true) : is .unnamed rule = false := by
  simp only [isEdge,Bool.or_eq_true,beq_iff_eq] at kind
  rcases kind with (rfl | rfl) | rfl <;> rfl

/-- The rules of everything inside an edge. -/
def edgeParts : List Rule := [.optIdentifier,.unnamed] ++ typeRules ++ rangeRules ++ mapRules

theorem reads_flat (text : Bytes) (tree : CypherTree) (reads : Reads text tree) : Tree.Flat isEdge tree := by
  intro node inside kind
  have derived := reads_derived text tree reads node inside (edge_named kind)
  refine inside_absent edgeParts (by decide) isEdge (by decide) derived ?_
  simp only [isEdge,Bool.or_eq_true,beq_iff_eq] at kind
  rcases kind with (same | same) | same <;> rw [same] <;> decide

set_option linter.dupNamespace false in
def Query.edges (query : Query) : List Edge := query.patterns.flatMap Pattern.edges

variable (conversions : Conversions)

/-- The clauses that come after the first one have no edges. -/
theorem plain_edges {e : Expr} {text : Bytes} {trees : List CypherTree} (derived : Derives body e text trees)
    (holds : e.within (among plainRules) = true) : Tree.insideAll isEdge trees = [] :=
  inside_absent plainRules plain_closed isEdge (by decide) derived holds

theorem clause_edges {e : Expr} {text : Bytes} {trees : List CypherTree} (derived : Derives body e text trees)
    (holds : e.within (among (patternRules ++ plainRules)) = true) (flat : ∀ tree ∈ trees, Tree.Flat isEdge tree)
    (s : ParserState) (visited : Tree.visitAll (buildNodeOf conversions) trees {} = .ok s) (patterns : List Pattern)
    (finished : s.patternStack.reverse = patterns) (none : s.edgeStack = []) :
    List.Forall₂ (HasHops conversions) (Tree.insideAll isEdge trees) (patterns.flatMap Pattern.edges) := by
  obtain ⟨edges,collected,read⟩ := part_collects conversions (patternRules ++ plainRules) (by decide) (by decide)
    derived holds flat {} s visited
  rw [ParserState.edges,finished,none,List.reverse_nil,List.append_nil] at collected
  rw [collected]
  exact read

theorem match_edges {text : Bytes} {children : List CypherTree}
    (derived : Derives body (body .matchClause) text children) (flat : ∀ tree ∈ children, Tree.Flat isEdge tree)
    (s : ParserState)
    (visited : Tree.visitAll (buildNodeOf conversions) [.node .matchClause text children] {} = .ok s) :
    ∃ patterns : List Pattern, s.drafts = {ParserState.drafts {} with matchClause := some ⟨patterns⟩} ∧
      List.Forall₂ (HasHops conversions) (Tree.insideAll isEdge children) (patterns.flatMap Pattern.edges) := by
  have ready : PatternReady (ParserState.drafts {}) := ⟨⟨rfl,rfl,rfl⟩,rfl,rfl⟩
  obtain ⟨patterns,-,-,drafts⟩ := match_visit conversions derived {} s ready rfl visited
  simp only [Tree.visitAll_cons,Tree.visit_node,Tree.visitAll_nil] at visited
  obtain ⟨_,⟨middle,inner,built⟩,rfl⟩ := visited
  obtain rfl := Except.ok.inj built
  have finished : middle.patternStack.reverse = patterns :=
    congrArg MatchClause.patterns (Option.some.inj (congrArg Drafts.matchClause drafts))
  exact ⟨patterns,drafts,clause_edges conversions derived (by decide) flat middle inner patterns finished
    (congrArg Drafts.edgeStack drafts)⟩

theorem create_edges {text : Bytes} {children : List CypherTree}
    (derived : Derives body (body .createClause) text children) (flat : ∀ tree ∈ children, Tree.Flat isEdge tree)
    (s : ParserState)
    (visited : Tree.visitAll (buildNodeOf conversions) [.node .createClause text children] {} = .ok s) :
    ∃ patterns : List Pattern, s.drafts = {ParserState.drafts {} with createClause := some ⟨patterns⟩} ∧
      List.Forall₂ (HasHops conversions) (Tree.insideAll isEdge children) (patterns.flatMap Pattern.edges) := by
  have ready : PatternReady (ParserState.drafts {}) := ⟨⟨rfl,rfl,rfl⟩,rfl,rfl⟩
  obtain ⟨patterns,-,-,drafts⟩ := create_visit conversions derived {} s ready rfl visited
  simp only [Tree.visitAll_cons,Tree.visit_node,Tree.visitAll_nil] at visited
  obtain ⟨_,⟨middle,inner,built⟩,rfl⟩ := visited
  obtain rfl := Except.ok.inj built
  have finished : middle.patternStack.reverse = patterns :=
    congrArg CreateClause.patterns (Option.some.inj (congrArg Drafts.createClause drafts))
  exact ⟨patterns,drafts,clause_edges conversions derived (by decide) flat middle inner patterns finished
    (congrArg Drafts.edgeStack drafts)⟩

/-- The query of a visited tree has the edges of the tree, and is valid if there are any. -/
theorem visited_edges (text : Bytes) (tree : CypherTree) (reads : Reads text tree) (s : ParserState)
    (visited : buildAstFromTree conversions tree {} = .ok s) :
    List.Forall₂ (HasHops conversions) (tree.inside isEdge) s.query.edges ∧
      (tree.inside isEdge ≠ [] → s.query.isValid = true) := by
  obtain ⟨inner,clauses,within,cases,inside,visits⟩ := reads_clauses conversions text tree reads
  have flat (rule : Rule) (own : Bytes) (children later : List CypherTree)
      (first : clauses = .node rule own children :: later) (child : CypherTree) (among : child ∈ children) :
      Tree.Flat isEdge child := by
    intro node below
    refine reads_flat text tree reads node (inside node ?_)
    rw [first,Tree.nodesAll_cons,Tree.nodes_node]
    exact List.mem_append_left _ (.tail _ (Tree.mem_nodesAll.mpr ⟨child,among,below⟩))
  have visited := visits {} s visited
  rw [within isEdge (by decide)]
  rcases cases with derived | ⟨clause,among,derived⟩
  · obtain ⟨own,children,_,later,rfl,matching,rest⟩ := rule_then derived
    obtain ⟨middle,first,second⟩ := (Tree.visitAll_append [_] ..).mp visited
    obtain ⟨patterns,drafts,read⟩ := match_edges conversions matching (flat _ _ _ _ rfl) middle first
    have kept := (plain_part conversions rest (by decide) _ _ second).trans drafts
    have matched : s.query.matchClause = some ⟨patterns⟩ := congrArg Drafts.matchClause kept
    have created : s.query.createClause = none := congrArg Drafts.createClause kept
    rw [Tree.insideAll_cons,plain_edges rest (by decide),List.append_nil,Tree.inside_below _ _ _ (by decide)]
    refine ⟨?_,fun _ => by simp [Query.isValid,matched]⟩
    simpa [Query.edges,Query.patterns,matched,created] using read
  · obtain ⟨own,children,_,later,rfl,writing,rest⟩ := rule_then derived
    obtain ⟨middle,first,second⟩ := (Tree.visitAll_append [_] ..).mp visited
    simp only [List.mem_cons,List.not_mem_nil,or_false] at among
    rcases among with rfl | rfl | rfl
    · obtain ⟨patterns,drafts,read⟩ := create_edges conversions writing (flat _ _ _ _ rfl) middle first
      have kept := (plain_part conversions rest (by decide) _ _ second).trans drafts
      have matched : s.query.matchClause = none := congrArg Drafts.matchClause kept
      have created : s.query.createClause = some ⟨patterns⟩ := congrArg Drafts.createClause kept
      rw [Tree.insideAll_cons,plain_edges rest (by decide),List.append_nil,Tree.inside_below _ _ _ (by decide)]
      refine ⟨?_,fun _ => by simp [Query.isValid,created]⟩
      simpa [Query.edges,Query.patterns,matched,created] using read
    all_goals
      have kept := plain_part conversions derived (by decide) _ _ visited
      have matched : s.query.matchClause = none := congrArg Drafts.matchClause kept
      have created : s.query.createClause = none := congrArg Drafts.createClause kept
      rw [plain_edges derived (by decide)]
      exact ⟨by simp [Query.edges,Query.patterns,matched,created],fun some => absurd rfl some⟩

/-- A text with an edge is parsed exactly if every node of its tree can be built. -/
theorem edges_parsed (text : Bytes) (tree : CypherTree) (reads : Reads text tree) (some : tree.inside isEdge ≠ []) :
    (∃ query, CypherParser.parse conversions text = .ok query) ↔ ∀ node ∈ tree.nodes, Readable conversions node := by
  rw [← visit_readable conversions tree {}]
  constructor
  · rintro ⟨query,parsed⟩
    obtain ⟨s,visited,-⟩ := (parse_visit conversions text tree reads query).mp parsed
    exact ⟨s,visited⟩
  · rintro ⟨s,visited⟩
    have valid := (visited_edges conversions text tree reads s visited).2 some
    exact ⟨s.query,(parse_visit conversions text tree reads s.query).mpr ⟨s,visited,rfl,valid⟩⟩

theorem parsed_edges (text : Bytes) (tree : CypherTree) (reads : Reads text tree) (query : Query)
    (parsed : CypherParser.parse conversions text = .ok query) :
    List.Forall₂ (HasHops conversions) (tree.inside isEdge) query.edges := by
  obtain ⟨s,visited,rfl,-⟩ := (parse_visit conversions text tree reads query).mp parsed
  exact (visited_edges conversions text tree reads s visited).1

end LoreDB.Query.Cypher
