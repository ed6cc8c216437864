import LoreDB.Query.Cypher.HopRanges
import LoreDB.Query.Cypher.ParsedEdges

/-! The ranges of hops of parsed edges. The parser never finds the range of an edge in the tree. It takes
what stands between the first star of the edge's text and the next closing bracket, wherever those are. -/
namespace LoreDB.Query.Cypher
open LoreDB.Storage LoreDB.Library Grammar Peg

namespace Written

/-- The node of the range of an edge. -/
def range (tree : CypherTree) : Option CypherTree := (tree.inside (is .variableLengthRange)).head?

def hopRange (tree : CypherTree) : HopRange := (range tree).elim .absent rangeOf

/-- From the first star to the next closing bracket, without either. -/
def starred (text : Bytes) : Bytes :=
  ((text.dropWhile fun b => b != byte '*').tail).takeWhile fun b => b != byte ']'

end Written

/-- Without a range no star may be read as another one than one hop. -/
def HopsFit (tree : CypherTree) : Prop :=
  match Written.range tree with
  | none => byte '*' ∈ tree.text → ReadsOne (Written.starred tree.text)
  | some range =>
    Followed (Written.rangeOf range) ((Written.starred tree.text).drop range.text.tail.length)

section Texts

variable (conversions : Conversions)

/-! The text of an edge. -/

theorem star_text {accepts : UInt8 → Bool} {text : Bytes} {trees : List CypherTree}
    (derived : Derives body (.star (.one accepts)) text trees) : (text.all accepts) = true := by
  refine star_rounds (fun text _ => (text.all accepts) = true) rfl ?_ derived
  rintro text trees text' trees' one rest
  obtain ⟨b,here,rfl,-⟩ := (derives_one _).mp one
  rw [List.singleton_append,List.all_cons,here,rest]
  rfl

theorem starless_of_all {accepts : UInt8 → Bool} {text : Bytes} (all : (text.all accepts) = true)
    (refused : accepts (byte '*') = false) : byte '*' ∉ text := by
  intro among
  rw [List.all_eq_true.mp all _ among] at refused
  cases refused

theorem identifier_starless {text : Bytes} {trees : List CypherTree}
    (derived : Derives body identifierBody text trees) : byte '*' ∉ text := by
  obtain ⟨before,after,_,_,rfl,-,one,more⟩ := (derives_seq _ _).mp derived
  obtain ⟨b,here,rfl,-⟩ := (derives_one _).mp one
  rw [List.singleton_append,List.mem_cons,not_or]
  refine ⟨?_,starless_of_all (star_text more) (by decide)⟩
  rintro rfl
  exact absurd here (by decide)

theorem types_starless {text : Bytes} {trees : List CypherTree}
    (derived : Derives body (opt (.rule .edgeTypes)) text trees) : byte '*' ∉ text := by
  rcases (derives_opt _).mp derived with typed | ⟨rfl,-⟩
  · obtain ⟨children,rfl,rounds⟩ := (derives_rule _).mp typed
    refine star_rounds (fun text _ => byte '*' ∉ text) (by simp) ?_ rounds
    intro text trees text' trees' one rest
    obtain ⟨_,rfl,named⟩ := (derives_rule _).mp one
    simp only [body,Grammar.one,derives_all_one,derives_all_rule,derives_all_nil,beq_iff_eq] at named
    obtain ⟨_,_,rfl,rfl,name,_,_,_,rfl,rfl,inner,rfl,rfl⟩ := named
    rw [List.mem_append,not_or]
    refine ⟨?_,rest⟩
    rw [List.append_nil,List.mem_cons,not_or]
    exact ⟨by decide,identifier_starless inner⟩
  · simp

theorem map_opens {text : Bytes} {trees : List CypherTree}
    (derived : Derives body (opt (.rule .propertyMap)) text trees) :
    text = [] ∨ text.head? = some (byte '{') := by
  rcases (derives_opt _).mp derived with mapped | ⟨rfl,-⟩
  · obtain ⟨children,rfl,within⟩ := (derives_rule _).mp mapped
    simp only [body,Grammar.one,derives_all_one,beq_iff_eq] at within
    obtain ⟨_,_,rfl,rfl,-⟩ := within
    exact .inr rfl
  · exact .inl rfl

/-- Only the range and what comes after it can have a star. -/
theorem bracketed_text {last : Expr} (ends : ∀ text trees, Derives body (all [last]) text trees →
      byte '*' ∉ text ∧ trees = []) {text : Bytes} {children : List CypherTree}
    (derived : Derives body (bracketedEdge last) text children) :
    ∃ before range rangeTrees after final,
      text = before ++ (range ++ (after ++ byte ']' :: final)) ∧ byte '*' ∉ before ∧ byte '*' ∉ final ∧
      Derives body (opt (.rule .variableLengthRange)) range rangeTrees ∧ Closing after ∧
      Tree.insideAll (is .variableLengthRange) children =
        Tree.insideAll (is .variableLengthRange) rangeTrees ∧
      childOf .variableLengthRange children = none := by
  obtain ⟨dash,_,rfl,dashed,d1⟩ := (derives_all_one _ _).mp derived
  obtain ⟨bracket,_,rfl,opened,d2⟩ := (derives_all_one _ _).mp d1
  obtain ⟨blank1,_,_,_,rfl,rfl,spaces1,d3⟩ := (derives_all_rule _ _).mp d2
  obtain ⟨name,_,nameTrees,_,rfl,rfl,named,d4⟩ := (derives_all_rule _ _).mp d3
  obtain ⟨blank2,_,_,_,rfl,rfl,spaces2,d5⟩ := (derives_all_rule _ _).mp d4
  obtain ⟨types,_,typeTrees,_,rfl,rfl,typed,d6⟩ := (derives_all_labelled _ _ _).mp d5
  obtain ⟨blank3,_,_,_,rfl,rfl,spaces3,d7⟩ := (derives_all_rule _ _).mp d6
  obtain ⟨range,_,rangeTrees,_,rfl,rfl,ranged,d8⟩ := (derives_all_labelled _ _ _).mp d7
  obtain ⟨blank4,_,_,_,rfl,rfl,spaces4,d9⟩ := (derives_all_rule _ _).mp d8
  obtain ⟨map,_,mapTrees,_,rfl,rfl,mapped,d10⟩ := (derives_all_labelled _ _ _).mp d9
  obtain ⟨blank5,_,_,_,rfl,rfl,spaces5,d11⟩ := (derives_all_rule _ _).mp d10
  obtain ⟨closed,final,rfl,closes,done⟩ := (derives_all_one _ _).mp d11
  obtain rfl : dash = byte '-' := by simpa using dashed
  obtain rfl : bracket = byte '[' := by simpa using opened
  obtain rfl : closed = byte ']' := by simpa using closes
  obtain ⟨starless,rfl⟩ := ends _ _ done
  have blank {text : Bytes} {trees : List CypherTree} (spaces : Derives body (body .optWs) text trees) :
      byte '*' ∉ text := starless_of_all (star_text spaces) (by decide)
  refine ⟨byte '-' :: byte '[' :: (blank1 ++ (name ++ (blank2 ++ (types ++ blank3)))),range,rangeTrees,
    blank4 ++ (map ++ blank5),final,by simp,?_,starless,ranged,?_,?_,?_⟩
  · have names : byte '*' ∉ name := by
      rcases (derives_opt _).mp named with one | ⟨rfl,-⟩
      · obtain ⟨_,-,within⟩ := (derives_rule _).mp one
        exact identifier_starless within
      · simp
    simp only [List.mem_cons,List.mem_append,not_or]
    exact ⟨by decide,by decide,blank spaces1,names,blank spaces2,types_starless typed,blank spaces3⟩
  · have spaces := star_text spaces4
    have spaces' := star_text spaces5
    rcases map_opens mapped with rfl | opens
    · exact ⟨blank4 ++ blank5,[],by simp,by rw [List.all_append,spaces,spaces']; rfl,.inl rfl⟩
    · refine ⟨blank4,map ++ blank5,rfl,spaces,.inr ?_⟩
      rw [List.head?_append,opens]
      rfl
  · have skip {e : Expr} {text : Bytes} {trees : List CypherTree} (rules : List Rule) (closed : Closed rules)
        (apart : (rules.all fun rule => !is .variableLengthRange rule) = true)
        (derived : Derives body e text trees) (holds : e.within (among rules) = true) :
        Tree.insideAll (is .variableLengthRange) trees = [] :=
      inside_absent rules closed _ apart derived holds
    simp (disch := decide) only [Tree.insideAll_cons,Tree.inside_below,Tree.insideAll_nil,List.append_nil,
      List.nil_append,star_bare spaces1,star_bare spaces2,star_bare spaces3,star_bare spaces4,
      star_bare spaces5,skip [.identifier] (by decide) (by decide) named (by decide),
      skip typeRules (by decide) (by decide) typed (by decide),
      skip mapRules (by decide) (by decide) mapped (by decide)]
  · rfl

/-! The range that an edge gets. -/

theorem one_hops (text : Bytes) : AreHops (hopRange conversions text) (1,1) ↔ ReadsOne text := by
  have fits : BothFit (1,1) := ⟨one_fits,one_fits⟩
  have unread : Conversions.leadingInteger [] = none := rfl
  unfold ReadsOne
  cases split : splitDots text with
  | none =>
    by_cases nonempty : text = []
    · subst nonempty
      rw [unread]
      refine iff_of_false ?_ (by simp)
      rintro ⟨found,read,-,high⟩
      obtain rfl := Except.ok.inj read
      exact absurd high (by decide)
    · rw [whole_hops conversions text (1,1) fits nonempty split]
      simp
  | some parts =>
    obtain ⟨low,high⟩ := parts
    rw [split_hops conversions text low high (1,1) fits split]
    refine and_congr ?_ ?_
    · by_cases first : low = [] <;> simp [first]
    · by_cases second : high = []
      · simp [second,unread]
      · simp [second]

theorem hopsOf_starred (text : Bytes) (children : List CypherTree)
    (none : childOf .variableLengthRange children = none) : hopsOf conversions text children =
      if byte '*' ∈ text then hopRange conversions (Written.starred text) else .ok (1,1) := by
  rw [hopsOf,none]
  by_cases starred : byte '*' ∈ text
  · rw [if_pos starred]
    simp only [Except.bind,starred,and_self,if_true]
    rfl
  · rw [if_neg starred]
    simp [Except.bind,starred]

theorem starred_range (before spec after final : Bytes) (starless : byte '*' ∉ before)
    (opened : byte ']' ∉ spec) :
    Written.starred (before ++ (byte '*' :: spec ++ (after ++ byte ']' :: final))) =
      spec ++ after.takeWhile fun b => b != byte ']' := by
  have front (b : UInt8) (among : b ∈ before) : (b != byte '*') = true :=
    bne_iff_ne.mpr fun same => starless (same ▸ among)
  have inner (b : UInt8) (among : b ∈ spec) : (b != byte ']') = true :=
    bne_iff_ne.mpr fun same => opened (same ▸ among)
  rw [Written.starred,List.dropWhile_append_of_pos front,List.cons_append,
    List.dropWhile_cons_of_neg (by simp),List.tail_cons,List.takeWhile_append_of_pos inner]
  congr 1
  induction after with
  | nil => exact List.takeWhile_cons_of_neg (by simp)
  | cons b after ih =>
    rw [List.cons_append,List.takeWhile_cons,List.takeWhile_cons]
    cases b != byte ']' with
    | false => rfl
    | true => rw [if_pos rfl,if_pos rfl,ih]

theorem bracketed_hops {last : Expr} (ends : ∀ text trees, Derives body (all [last]) text trees →
      byte '*' ∉ text ∧ trees = []) {rule : Rule} (kind : is .variableLengthRange rule = false)
    {text : Bytes} {children : List CypherTree} (derived : Derives body (bracketedEdge last) text children)
    (fits : (Written.hopRange (.node rule text children)).Fits) :
    AreHops (hopsOf conversions text children) (Written.hopRange (.node rule text children)).hops ↔
      HopsFit (.node rule text children) := by
  obtain ⟨before,range,rangeTrees,after,final,rfl,starless,starless',ranged,closing,inside,none⟩ :=
    bracketed_text ends derived
  rw [hopsOf_starred conversions _ children none]
  have found : Written.range (.node rule (before ++ (range ++ (after ++ byte ']' :: final))) children) =
      (Tree.insideAll (is .variableLengthRange) rangeTrees).head? := by
    rw [Written.range,Tree.inside_below _ _ _ kind,inside]
  rw [Written.hopRange,found] at fits ⊢
  rw [HopsFit,found]
  rcases (derives_opt _).mp ranged with one | ⟨rfl,rfl⟩
  · obtain ⟨trees,rfl,within⟩ := (derives_rule _).mp one
    simp (disch := decide) only [Tree.insideAll_cons,Tree.inside_here,Tree.insideAll_nil,List.append_nil,
      List.head?_cons,Option.elim_some] at fits ⊢
    have short : Closing (after.takeWhile fun b => b != byte ']') :=
      closing_before _ (after.dropWhile fun b => b != byte ']') (by rwa [List.takeWhile_append_dropWhile])
    obtain ⟨⟨spec,rfl,opened⟩,read⟩ := range_read conversions within short fits
    rw [if_pos (by simp),Tree.text_node,Tree.text_node,starred_range before spec after final starless opened,
      List.tail_cons,List.drop_left]
    exact read
  · simp only [Tree.insideAll_nil,List.head?_nil,Option.elim_none,Tree.text_node]
    by_cases starred : byte '*' ∈ before ++ ([] ++ (after ++ byte ']' :: final))
    · rw [if_pos starred]
      exact (one_hops conversions _).trans ⟨fun read _ => read,fun read => read starred⟩
    · rw [if_neg starred]
      exact iff_of_true ⟨(1,1),rfl,by decide,by decide⟩ fun star => absurd star starred

end Texts

/-! Whole queries. -/

def Edge.hops (edge : Edge) : ℤ × ℤ := (edge.minHops.toInt,edge.maxHops.toInt)

/-- The numbers of the query can be read, ... -/
def NumbersRead (conversions : Conversions) (tree : CypherTree) : Prop :=
  ∀ node ∈ tree.nodes, node.label = .number → ∃ value, numberValue conversions node.text = .ok value

/-- ... and so can that of its limit. -/
def LimitRead (conversions : Conversions) (tree : CypherTree) : Prop :=
  ∀ node ∈ tree.nodes, node.label = .limitClause → ∀ child, childOf .integer node.children = some child →
    ∃ count, conversions.stoll child.text = .ok count

variable (conversions : Conversions)

theorem edge_hops (text : Bytes) (tree edge : CypherTree) (reads : Reads text tree) (inside : edge ∈ tree.nodes)
    (kind : isEdge edge.label = true) (fits : (Written.hopRange edge).Fits) :
    AreHops (hopsOf conversions edge.text edge.children) (Written.hopRange edge).hops ↔ HopsFit edge := by
  have derived := reads_derived text tree reads edge inside (edge_named kind)
  obtain ⟨rule,own,children⟩ := edge
  have starless (characters : List Char) (none : byte '*' ∉ characters.map byte) {text : Bytes}
      {trees : List CypherTree} (derived : Derives body (string characters) text trees) :
      byte '*' ∉ text ∧ trees = [] :=
    ⟨string_text _ derived ▸ none,string_bare _ derived⟩
  simp only [isEdge,Bool.or_eq_true,beq_iff_eq,Tree.label_node] at kind
  rcases kind with (rfl | rfl) | rfl
  · refine bracketed_hops conversions (fun text trees arrow => ?_) rfl derived fits
    obtain ⟨_,_,_,_,rfl,rfl,both,nothing⟩ := (derives_all_cons _ _).mp arrow
    obtain ⟨rfl,rfl⟩ := derives_all_nil.mp nothing
    obtain ⟨none,rfl⟩ := starless ['-','>'] (by decide) both
    exact ⟨by rwa [List.append_nil],rfl⟩
  · exact bracketed_hops conversions (fun text trees dash => starless ['-'] (by decide) dash) rfl derived fits
  · obtain ⟨none,same⟩ := starless ['-','-'] (by decide) derived
    change byte '*' ∉ own at none
    obtain rfl : children = [] := same
    have absent : Written.hopRange (.node .simpleUndirectedEdge own []) = .absent := by
      simp (disch := decide) [Written.hopRange,Written.range,Tree.inside_below]
    rw [Tree.text_node,Tree.children_node,hopsOf_starred conversions own [] rfl,if_neg none,absent]
    exact iff_of_true ⟨(1,1),rfl,by decide,by decide⟩ fun star => absurd star none

/-- The built edge has the written hops if and only if they come out of the text. -/
def HopsKept (edge : CypherTree) (built : Edge) : Prop :=
  built.hops = (Written.hopRange edge).hops ↔ HopsFit edge

theorem hops_kept (text : Bytes) (tree : CypherTree) (reads : Reads text tree)
    (fits : ∀ edge ∈ tree.inside isEdge, (Written.hopRange edge).Fits) (query : Query)
    (parsed : CypherParser.parse conversions text = .ok query) :
    List.Forall₂ HopsKept (tree.inside isEdge) query.edges := by
  have exact (edge : CypherTree) (among : edge ∈ tree.inside isEdge) :
      AreHops (hopsOf conversions edge.text edge.children) (Written.hopRange edge).hops ↔ HopsFit edge := by
    obtain ⟨inside,kind⟩ := Tree.inside_nodes tree edge among
    exact edge_hops conversions text tree edge reads inside kind (fits edge among)
  have both := (List.forall₂_and_left _ _).mpr ⟨exact,parsed_edges conversions text tree reads query parsed⟩
  refine both.imp fun edge built ⟨exact,read⟩ => ?_
  rw [HopsKept,← exact,read,AreHops]
  simp [Edge.hops,Prod.ext_iff]

theorem kept_all {edges : List CypherTree} {builts : List Edge} (kept : List.Forall₂ HopsKept edges builts) :
    builts.map Edge.hops = edges.map (fun edge => (Written.hopRange edge).hops) ↔ ∀ edge ∈ edges, HopsFit edge := by
  induction kept with
  | nil => simp
  | cons here _ ih =>
    rw [List.map_cons,List.map_cons,List.cons.injEq,List.forall_mem_cons,ih]
    exact and_congr_left fun _ => here

/-- A text with edges is parsed to a query whose edges have the written ranges of hops if and only if its
numbers can be read and every range comes out of the text of its edge. In a query that is parsed this
holds of each edge by itself. -/
theorem parsed_hops (conversions : Conversions) (text : Bytes) (tree : CypherTree) (reads : Reads text tree)
    (some : tree.inside isEdge ≠ []) (fits : ∀ edge ∈ tree.inside isEdge, (Written.hopRange edge).Fits) :
    ((∃ query, CypherParser.parse conversions text = .ok query ∧
        query.edges.map Edge.hops = (tree.inside isEdge).map fun edge => (Written.hopRange edge).hops) ↔
      NumbersRead conversions tree ∧ LimitRead conversions tree ∧ ∀ edge ∈ tree.inside isEdge, HopsFit edge) ∧
    ∀ query, CypherParser.parse conversions text = .ok query →
      List.Forall₂ HopsKept (tree.inside isEdge) query.edges := by
  have kept := hops_kept conversions text tree reads fits
  refine ⟨⟨?_,?_⟩,kept⟩
  · rintro ⟨query,parsed,same⟩
    have each := (edges_parsed conversions text tree reads some).mp ⟨query,parsed⟩
    exact ⟨fun node inside => (each node inside).number,fun node inside => (each node inside).limit,
      (kept_all (kept query parsed)).mp same⟩
  · rintro ⟨numbers,limit,written⟩
    have each (node : CypherTree) (inside : node ∈ tree.nodes) : Readable conversions node := by
      refine ⟨numbers node inside,fun kind => ?_,limit node inside⟩
      have among := Tree.nodes_inside tree node (reads_flat text tree reads) inside kind
      obtain ⟨hops,read,-⟩ := (edge_hops conversions text tree node reads inside kind (fits node among)).mpr
        (written node among)
      exact ⟨hops,read⟩
    obtain ⟨query,parsed⟩ := (edges_parsed conversions text tree reads some).mpr each
    exact ⟨query,parsed,(kept_all (kept query parsed)).mpr written⟩

theorem built_of_run (conversions : Conversions) (text : Bytes) (fuel : ℕ)
    (holds : Except Error Query → CypherTree → Bool)
    (ran : ((Peg.run body fuel (.rule .query) text).bind fun outcome =>
      outcome.only.map (holds (CypherParser.build conversions text outcome))) = some true) :
    ∃ tree, Reads text tree ∧ holds (CypherParser.parse conversions text) tree = true := by
  obtain ⟨outcome,run,found⟩ := Option.bind_eq_some_iff.mp ran
  obtain ⟨tree,only,holds⟩ := Option.map_eq_some_iff.mp found
  have parsed := Peg.parse_eq ranking .query text fuel outcome run
  refine ⟨tree,by rw [Reads,parsed,only],?_⟩
  rw [CypherParser.parse,parsed]
  exact holds

def knownSince : Bytes := ascii "MATCH (a)-[:KNOWS* \x7bsince: 2020\x7d]->(b) RETURN b"

theorem known_since_rejected : ∃ tree, Reads knownSince tree ∧
    (∃ edge ∈ tree.nodes, isEdge edge.label = true ∧ Written.hopRange edge = .star) ∧
    ∃ error, CypherParser.parse wholeNumbers knownSince = .error error := by
  obtain ⟨tree,reads,holds⟩ := built_of_run wholeNumbers knownSince 70
    (fun result tree => !result.isOk && tree.nodes.any fun edge =>
      isEdge edge.label && decide (Written.hopRange edge = .star)) (by decide +kernel)
  simp only [Bool.and_eq_true,List.any_eq_true,decide_eq_true_eq] at holds
  obtain ⟨failed,edge,inside,kind,range⟩ := holds
  refine ⟨tree,reads,⟨edge,inside,kind,range⟩,?_⟩
  cases result : CypherParser.parse wholeNumbers knownSince with
  | error e => exact ⟨e,rfl⟩
  | ok query =>
    rw [result] at failed
    cases failed

def knownThrice : Bytes := ascii "MATCH (a)-[:KNOWS*1..3]->(b) RETURN b"

theorem parsed_hops_thrice : ∃ query, CypherParser.parse wholeNumbers knownThrice = .ok query ∧
    query.edges.map Edge.hops = [(1,3)] := by
  obtain ⟨tree,reads,holds⟩ := built_of_run wholeNumbers knownThrice 70
    (fun _ tree => decide ((tree.inside isEdge).map Written.hopRange = [.between 1 3]) &&
      tree.nodes.all fun node => node.label != .number && node.label != .limitClause) (by decide +kernel)
  simp only [Bool.and_eq_true,decide_eq_true_eq,List.all_eq_true,bne_iff_ne] at holds
  obtain ⟨ranges,plain⟩ := holds
  obtain ⟨edge,only,range⟩ := List.map_eq_singleton_iff.mp ranges
  have whole : HopsFit edge := by
    unfold HopsFit
    rw [Written.hopRange] at range
    split
    · rename_i none
      rw [none] at range
      cases range
    · rename_i found
      rw [found] at range
      rw [show Written.rangeOf _ = .between 1 3 from range]
      trivial
  obtain ⟨query,parsed,hops⟩ := (parsed_hops wholeNumbers knownThrice tree reads (by simp [only])
    (by simp only [only,List.mem_singleton,forall_eq,range]; decide)).1.mpr
    ⟨fun node inside number => absurd number (plain node inside).1,
      fun node inside limit => absurd limit (plain node inside).2,by simpa [only] using whole⟩
  exact ⟨query,parsed,by rw [hops,only,List.map_singleton,range]; rfl⟩

-- the numbers that stand for a range without an end
example : (hopRange wholeNumbers (ascii "2..")).toOption = some (2,-1) := by decide +kernel

end LoreDB.Query.Cypher
