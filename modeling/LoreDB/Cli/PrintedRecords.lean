import LoreDB.Cli.ShellRefinement
import LoreDB.Library.Decimal
import LoreDB.Query.Cypher.ParsedValues

/-! What a line has made is listed under the id that the line has printed, until a query sets or deletes. -/
namespace LoreDB.Cli
open LoreDB.Storage LoreDB.Storage.GraphHistory LoreDB.Storage.GraphRefinement LoreDB.Query LoreDB.Query.Cypher
  LoreDB.Query.ClearedIndexes LoreDB.Library LoreDB.Library.Answers LoreDB.Library.History REPL Grammar
open LoreDB.Storage.Outlines (next_above)

/-! Ids in digits. -/

theorem digits_leading (n : ℕ) : Conversions.leadingInteger (Decimal.digits n) = some (n : ℤ) := by
  have value := Decimal.digits_value n
  cases written : Decimal.digits n with
  | nil => exact absurd written (Decimal.digits_nonempty n)
  | cons first rest =>
    have digit (b : UInt8) (member : b ∈ first::rest) : isDigit b = true := by
      have bounds := Decimal.digits_bounds n b (written ▸ member)
      simp only [isDigit,Bool.and_eq_true,decide_eq_true_eq,UInt8.le_iff_toNat_le]
      exact bounds
    have others : rest.all isDigit = true := List.all_eq_true.mpr fun b member => digit b (List.mem_cons_of_mem _ member)
    rw [(leading_digits first rest (digit first List.mem_cons_self) others).1]
    rw [written] at value
    exact congrArg (fun value : ℕ => some (value : ℤ)) value

theorem stoull_number (id : UInt64) : stoull (Reads.number id) = some id := by
  have leading : Conversions.leadingInteger (Reads.number id) = some (id.toNat : ℤ) := digits_leading id.toNat
  have small : (id.toNat : ℤ).natAbs < 2 ^ 64 := id.toNat_lt
  rw [stoull,leading]
  dsimp only
  rw [if_pos small,UInt64.ofInt,Int.emod_eq_of_lt (by omega) (by exact_mod_cast id.toNat_lt),Int.toNat_natCast,
    UInt64.ofNat_toNat]

theorem number_nonempty (id : UInt64) : Reads.number id ≠ [] := Decimal.digits_nonempty id.toNat

theorem number_inj {first second : UInt64} (same : Reads.number first = Reads.number second) : first = second := by
  have read := stoull_number first
  rw [same,stoull_number second] at read
  exact (Option.some.inj read).symm

theorem number_unspaced (id : UInt64) (b : UInt8) (member : b ∈ Reads.number id) : isspace b = false := by
  have bounds := Decimal.digits_bounds id.toNat b member
  simp only [isspace,Bool.or_eq_false_iff,Bool.and_eq_false_iff,beq_eq_false_iff_ne,ne_eq,decide_eq_false_iff_not,
    UInt8.le_iff_toNat_le]
  exact ⟨fun same => by rw [same] at bounds; exact absurd bounds.1 (by decide),.inr (by
    change ¬b.toNat ≤ 13
    omega)⟩

/-! A command and its id. -/

theorem tokenize_pair (name text : Bytes) (named : name ≠ []) (given : text ≠ [])
    (plain : ∀ b ∈ name ++ text, isspace b = false) : tokenize (name ++ ' '.toUInt8::text) = [name,text] := by
  have first (b : UInt8) (member : b ∈ name) : isspace b = false := plain b (List.mem_append_left _ member)
  have second (b : UInt8) (member : b ∈ text) : isspace b = false := plain b (List.mem_append_right _ member)
  rw [tokenize,List.splitOnP_append_cons_of_forall_mem first _ (by decide),List.splitOnP_eq_singleton second]
  simp [named,given]

theorem afterBlank_pair (name text : Bytes) (plain : ∀ b ∈ name, isspace b = false) :
    afterBlank (name ++ ' '.toUInt8::text) = text := by
  have apart (b : UInt8) (member : b ∈ name) : (b != ' '.toUInt8) = true := by
    have unspaced := plain b member
    simp only [isspace,Bool.or_eq_false_iff] at unspaced
    simpa [bne] using unspaced.1
  rw [afterBlank,List.dropWhile_append_of_pos apart]
  rfl

section Listing

variable {σ : Type} (backend : Backend σ) (rounds : ℕ) (conversions : Conversions) (kind : Kind) (id : UInt64)

/-- What the shell lists under an id. -/
def listing (reads : Reads) : Kind → Bytes
  | .node => printed "Node not found: " (reads.getNodeById id)
  | .edge => printed "Edge not found: " (reads.getEdgeById id)

def listingName : Bytes := ascii ("get-" ++ kindName kind)

def listingLine : Bytes := listingName kind ++ ' '.toUInt8::Reads.number id

theorem listing_tokens : tokenize (listingLine kind id) = [listingName kind,Reads.number id] ∧
    afterBlank (listingLine kind id) = Reads.number id := by
  have plain : ∀ b ∈ listingName kind, isspace b = false := by cases kind <;> decide +kernel
  have named : listingName kind ≠ [] := by cases kind <;> decide +kernel
  refine ⟨tokenize_pair _ _ named (number_nonempty id) fun b member => ?_,afterBlank_pair _ _ plain⟩
  rcases List.mem_append.mp member with before | after
  · exact plain b before
  · exact number_unspaced id b after

/-- The listings are the first of the commands that read. -/
theorem listing_reader (index : IndexTables) (reads : Reads) :
    ∃ reader, ((readers rounds (Reads.number id) index reads).find? fun reader => listingName kind = ascii reader.1) =
      some reader ∧ reader.2 = some (listing id reads kind) := by
  have given : (Reads.number id).isEmpty = false := List.isEmpty_eq_false_iff.mpr (number_nonempty id)
  have node : listingName .node = ascii "get-node" := rfl
  have edge : listingName .edge = ascii "get-edge" := rfl
  have apart : ascii "get-edge" ≠ ascii "get-node" := by decide +kernel
  cases kind with
  | node =>
    refine ⟨("get-node",some (cmdGetNode (Reads.number id) reads)),by simp [readers,node],?_⟩
    simp [cmdGetNode,cmdById,given,stoull_number,listing]
  | edge =>
    refine ⟨("get-edge",some (cmdGetEdge (Reads.number id) reads)),by simp [readers,edge,apart],?_⟩
    simp [cmdGetEdge,cmdById,given,stoull_number,listing]

theorem listing_processed (shell : Shell σ) (clock : UInt64) :
    processCommand backend shell rounds conversions clock (listingLine kind id) =
      (some (listing id (backend.reads shell.state) kind),shell) := by
  obtain ⟨tokens,argument⟩ := listing_tokens kind id
  obtain ⟨reader,found,told⟩ := listing_reader rounds kind id shell.indexManager (backend.reads shell.state)
  have reads : ∀ name ∈ ["create-node","create-edge","cypher","exit","quit"], listingName kind ≠ ascii name := by
    cases kind <;> decide +kernel
  simp only [List.forall_mem_cons] at reads
  obtain ⟨node,edge,cypher,exit,quit,_⟩ := reads
  unfold processCommand
  rw [tokens]
  simp only [List.isEmpty_cons,Bool.false_eq_true,argument,node,edge,cypher,exit,quit,or_self,if_false,found,told]

theorem listing_read (console : Console σ) (clock : UInt64) (going : console.shell.running = true)
    (free : console.stuck = false) (empty : console.buffer = []) :
    (readLine backend rounds conversions console (clock,listingLine kind id)).1 =
      some (listing id (backend.reads console.shell.state) kind) := by
  have whole : (listingLine kind id).getLast? ≠ some '\\'.toUInt8 := by
    rw [listingLine,List.getLast?_append_of_ne_nil _ (List.cons_ne_nil _ _),
      List.getLast?_cons_of_ne_nil (number_nonempty id)]
    intro last
    exact absurd (Decimal.digits_bounds id.toNat _ (List.mem_of_getLast? last)).2 (by decide)
  have given : (listingLine kind id).isEmpty = false := by simp [listingLine]
  simp only [readLine,going,free,empty,whole,given,listing_processed,List.nil_append,Bool.not_true,Bool.or_self,
    Bool.false_eq_true,if_false]

end Listing

/-! Creations leave what is there alone. -/

def Creates : Operation → Prop
  | .createNode _ | .createEdge _ _ _ _ _ => True
  | _ => False

section Graphs

variable (hash : Bytes → UInt64) (id : UInt64)

def madeEdge (clock : UInt64) (fromNode toNode : NodeId) (label : Bytes) (properties : List Property) :
    PropertyGraph.Edge NodeId EdgeId EdgeData where
  id := id
  source := fromNode
  target := toNode
  data := {labelId := (hash label).toUInt32, timestamp := clock, properties := properties}

/-- The graph has under the id what a creation was given, and gives the id to nothing else. -/
def Made (model : CountedGraph) : Operation → Prop
  | .createNode properties => model.graph.nodes id = some properties ∧ id < model.nextNodeId
  | .createEdge clock fromNode toNode label properties =>
    model.graph.edge? id = some (madeEdge hash id clock fromNode toNode label properties)
  | _ => False

theorem step_makes (model : CountedGraph) (operation : Operation) (creates : Creates operation)
    (counts : Counts model.nextNodeId model.nextEdgeId operation) (unused : model.nextEdgeId ∉ model.graph.ids)
    (answered : model.answer operation = .ok id) : Made hash id (model.step hash operation) operation := by
  cases operation with
  | createNode properties =>
    cases Except.ok.inj answered
    exact ⟨Function.update_self ..,next_above counts (.inr rfl)⟩
  | createEdge clock fromNode toNode label properties =>
    cases Except.ok.inj answered
    exact (PropertyGraph.addEdge_finds _ _ unused _).trans (if_pos rfl)
  | updateNode id properties | deleteNode id | updateEdge id properties | deleteEdge id => exact creates.elim

theorem step_keeps (model : CountedGraph) (made operation : Operation) (holds : Made hash id model made)
    (creates : Creates operation) (counts : Counts model.nextNodeId model.nextEdgeId operation) :
    Made hash id (model.step hash operation) made := by
  cases made with
  | createNode properties =>
    obtain ⟨found,below⟩ := holds
    cases operation with
    | createNode others =>
      exact ⟨(Function.update_of_ne (UInt64.ne_of_lt below) ..).trans found,next_above counts (.inl below)⟩
    | createEdge clock fromNode toNode label others =>
      exact ⟨(congrFun (PropertyGraph.addEdge_nodes _ _) id).trans found,below⟩
    | updateNode id properties | deleteNode id | updateEdge id properties | deleteEdge id => exact creates.elim
  | createEdge clock fromNode toNode label properties =>
    cases operation with
    | createNode others => exact holds
    | createEdge clock fromNode toNode label others =>
      change (PropertyGraph.addEdge _ _).edge? id = _
      by_cases unused : model.nextEdgeId ∈ model.graph.ids
      · rw [PropertyGraph.addEdge,dif_neg (not_not_intro unused)]
        exact holds
      · have listed : id ∈ model.graph.ids := by
          by_contra absent
          rw [Made,(model.graph.edge?_none id).mpr absent] at holds
          cases holds
        have apart : id ≠ model.nextEdgeId := fun same => unused (same ▸ listed)
        exact (PropertyGraph.addEdge_finds _ _ unused id).trans ((if_neg apart).trans holds)
    | updateNode id properties | deleteNode id | updateEdge id properties | deleteEdge id => exact creates.elim
  | updateNode id properties | deleteNode id | updateEdge id properties | deleteEdge id => exact holds.elim

/-- What is listed of it. -/
def propertiesText (properties : List Property) : Bytes :=
  (ascii ", ").intercalate (properties.map fun property =>
    property.key ++ ascii ":" ++ QueryExecutor.propertyValueToString property.value)

def row : Operation → QueryResult
  | .createEdge _ fromNode toNode _ properties => {
    columns := [ascii "id",ascii "from_node",ascii "to_node",ascii "properties"]
    rows := [[Reads.number id,Reads.number fromNode,Reads.number toNode,propertiesText properties]]}
  | operation => {
    columns := [ascii "id",ascii "properties"]
    rows := [[Reads.number id,propertiesText (properties operation)]]}

theorem made_listed (model : CountedGraph) (count : UInt64) (operation : Operation)
    (holds : Made hash id model operation) :
    listing id (graphReads model count) operation.kind = printQueryResult (row id operation) := by
  cases operation with
  | createNode properties =>
    have found : readNode model.graph id = .ok (nodeRecord id properties,properties) := by
      rw [readNode,holds.1]
      rfl
    simp only [Operation.kind,listing,Reads.getNodeById,graphReads,found]
    rfl
  | createEdge clock fromNode toNode label properties =>
    have found : readEdge model.graph id =
        .ok (edgeRecord (madeEdge hash id clock fromNode toNode label properties),properties) := by
      rw [readEdge,holds]
      rfl
    simp only [Operation.kind,listing,Reads.getEdgeById,graphReads,found]
    rfl
  | updateNode id properties | deleteNode id | updateEdge id properties | deleteEdge id => exact holds.elim

end Graphs

/-! Lines. -/

section Lines

variable (library : StandardLibrary) (hash : Bytes → UInt64) (rounds : ℕ) (conversions : Conversions)

theorem node_creates (args : Bytes) (operation : Operation) (asked : requestedNode args = some (.operation operation)) :
    Creates operation := by
  unfold requestedNode at asked
  split at asked
  · cases asked
  · cases asked
    trivial

theorem edge_creates (clock : UInt64) (args : Bytes) (operation : Operation)
    (asked : requestedEdge clock args = some (.operation operation)) : Creates operation := by
  unfold requestedEdge at asked
  split at asked
  · split at asked
    · cases asked
      trivial
    · cases asked
  · cases asked

theorem query_asks (args : Bytes) (operation : Operation) : requestedQuery conversions args ≠ some (.operation operation) := by
  intro asked
  unfold requestedQuery at asked
  split at asked
  · cases asked
  · split at asked <;> cases asked

/-- The operations that lines ask for are creations. -/
theorem requested_creates (clock : UInt64) (command : Bytes) (operation : Operation)
    (asked : requested conversions clock command = some (.operation operation)) : Creates operation := by
  unfold requested at asked
  split at asked
  · cases asked
  · dsimp only at asked
    split at asked
    · exact node_creates _ operation asked
    · split at asked
      · exact edge_creates clock _ operation asked
      · split at asked
        · exact absurd asked (query_asks conversions _ operation)
        · cases asked

/-- A query that neither sets nor deletes. -/
def spares (query : Query) : Bool := query.setClause.isNone && query.deleteClause.isNone

theorem query_creates (query : Query) (spared : spares query = true) :
    Meaning.Confined Creates (queryMeaning hash library query) := by
  simp only [spares,Bool.and_eq_true,Option.isNone_iff_eq_none] at spared
  have other : Meaning.Confined Creates (otherMeaning hash query) := by
    unfold otherMeaning
    split
    · exact Meaning.map_confined _ (Meaning.forEach_confined hash
        (fun node created => Meaning.performing_confined _ _ trivial) _ _)
    · exact Meaning.idle_confined fun _ => .error _
  unfold queryMeaning
  rw [spared.1,spared.2]
  split
  · exact other
  · split
    · rename_i impossible
      cases impossible
    · split
      · split
        · refine Meaning.bind_confined hash (Meaning.idle_confined _) fun rows => ?_
          refine Meaning.bind_confined hash (Meaning.idle_confined _) fun result => ?_
          exact Meaning.bind_confined hash (Meaning.optional_confined _ _ fun clause => Meaning.idle_confined _)
            fun sorted => Meaning.optional_confined _ _ fun clause => Meaning.idle_confined _
        · exact other
      · exact other

theorem performed_keeps (id : UInt64) (made : Operation) (state : QueryGraph) (operations : List Operation)
    (creates : ∀ operation ∈ operations, Creates operation)
    (fits : Guarded (QueryGraph.perform hash) QueryGraph.Fits state operations)
    (holds : Made hash id state.model made) : Made hash id (run (QueryGraph.perform hash) state operations).model made := by
  refine run_preserves (fun state : QueryGraph => Made hash id state.model made)
    (fun state operation allowed holds => step_keeps hash id state.model made operation holds allowed.2 allowed.1.1)
    state operations ((guarded_both state operations).mpr ⟨fits,?_⟩) holds
  exact (guarded_calls Creates state operations).mpr creates

def sparing : Option ShellCall → Bool
  | some (.query query) => spares query
  | _ => true

theorem request_keeps (id : UInt64) (made : Operation) (state : QueryGraph) (call : ShellCall)
    (fits : CallFits library hash state call) (creates : ∀ operation, call = .operation operation → Creates operation)
    (spared : sparing (some call) = true) (holds : Made hash id state.model made) :
    Made hash id (later (graphCall library hash) state call).model made := by
  cases call with
  | operation operation => exact step_keeps hash id state.model made operation holds (creates operation rfl) fits.1
  | query query => exact performed_keeps hash id made state _ (query_creates library hash query spared state) fits holds

/-- What the console is asked by a line. -/
def asked {σ : Type} (console : Console σ) (input : UInt64 × Bytes) : Option ShellCall :=
  requested conversions input.1 (console.buffer ++ input.2)

theorem line_keeps (id : UInt64) (made : Operation) (console : Console QueryGraph) (input : UInt64 × Bytes)
    (fits : LineFits library hash conversions console input) (spared : sparing (asked conversions console input) = true)
    (holds : Made hash id console.shell.state.model made) :
    Made hash id (later (readLine (graphBackend library hash) rounds conversions) console input).shell.state.model
      made := by
  have shaped := processCommand_shaped rounds conversions input.1 (console.buffer ++ input.2)
  have kept : Made hash id (processCommand (graphBackend library hash) console.shell rounds conversions input.1
      (console.buffer ++ input.2)).2.state.model made := by
    unfold asked at spared
    have creates := requested_creates conversions input.1 (console.buffer ++ input.2)
    unfold LineFits at fits
    generalize requested conversions input.1 (console.buffer ++ input.2) = wanted at *
    cases wanted with
    | none =>
      obtain ⟨output,goesOn,same⟩ := shaped
      have told := same _ (graphBackend library hash) console.shell
      dsimp only at told
      rw [told]
      exact holds
    | some call =>
      obtain ⟨enter,same⟩ := shaped
      have told := same _ (graphBackend library hash) console.shell
      dsimp only at told
      rw [told]
      exact request_keeps library hash id made _ call (fits call rfl) (fun operation same => creates operation (same ▸ rfl))
        spared holds
  unfold later readLine
  dsimp only
  split
  · exact holds
  · split
    · exact holds
    · split
      · exact holds
      · exact kept

def createdLine (kind : Kind) (id : UInt64) : Bytes :=
  line ("Created " ++ kindName kind ++ " with ID: " ++ toString id.toNat)

theorem line_nonempty (text : String) : line text ≠ [] := List.append_ne_nil_of_right_ne_nil _ (List.cons_ne_nil _ _)

theorem createdLine_inj {kind : Kind} {first second : UInt64} (same : createdLine kind first = createdLine kind second) :
    first = second := by
  have texts := List.append_cancel_right same
  have told (id : UInt64) : ascii ("Created " ++ kindName kind ++ " with ID: " ++ toString id.toNat) =
      ascii ("Created " ++ kindName kind ++ " with ID: ") ++ Reads.number id := Decimal.utf8_append _ _
  rw [told,told] at texts
  exact number_inj (List.append_cancel_left texts)

theorem line_makes (id : UInt64) (operation : Operation) (console : Console QueryGraph) (input : UInt64 × Bytes)
    (fits : LineFits library hash conversions console input)
    (unused : console.shell.state.model.nextEdgeId ∉ console.shell.state.model.graph.ids)
    (request : asked conversions console input = some (.operation operation))
    (printed : (readLine (graphBackend library hash) rounds conversions console input).1 =
      some (createdLine operation.kind id)) :
    Made hash id (later (readLine (graphBackend library hash) rounds conversions) console input).shell.state.model
      operation := by
  have shaped := processCommand_shaped rounds conversions input.1 (console.buffer ++ input.2)
  have creates := requested_creates conversions input.1 (console.buffer ++ input.2) operation request
  unfold asked at request
  rw [request] at shaped
  obtain ⟨enter,same⟩ := shaped
  have told := same _ (graphBackend library hash) console.shell
  dsimp only at told
  have allowed := fits _ request
  unfold later
  unfold readLine at printed ⊢
  dsimp only at printed ⊢
  split at printed
  · exact absurd (Option.some.inj printed).symm (line_nonempty _)
  · rename_i going
    split at printed
    · exact absurd (Option.some.inj printed).symm (line_nonempty _)
    · rename_i whole
      split at printed
      · exact absurd (Option.some.inj printed).symm (line_nonempty _)
      · rename_i given
        rw [if_neg going,if_neg whole,if_neg given,told]
        rw [told] at printed
        refine step_makes hash id _ operation creates allowed.1 unused ?_
        cases operation with
        | createNode properties => exact congrArg Except.ok (createdLine_inj (Option.some.inj printed))
        | createEdge clock fromNode toNode label properties =>
          exact congrArg Except.ok (createdLine_inj (Option.some.inj printed))
        | updateNode id properties | deleteNode id | updateEdge id properties | deleteEdge id => exact creates.elim

theorem lines_keep (id : UInt64) (made : Operation) (console : Console Database) (model : Console QueryGraph)
    (lines : List (UInt64 × Bytes)) (agree : ConsolesAgree console model)
    (fits : Guarded (later (readLine (graphBackend library hash) rounds conversions)) (LineFits library hash conversions)
      model lines)
    (spared : Guarded (later (readLine (databaseBackend library hash) rounds conversions))
      (fun console input => sparing (asked conversions console input) = true) console lines)
    (holds : Made hash id model.shell.state.model made) :
    Made hash id (run (later (readLine (graphBackend library hash) rounds conversions)) model lines).shell.state.model
      made := by
  induction lines generalizing console model with
  | nil => exact holds
  | cons input rest ih =>
    have same : asked conversions model input = asked conversions console input := by rw [asked,asked,agree.buffer]
    have next := lines_refine library hash rounds conversions console model input agree fits.1
    exact ih _ _ next.2 fits.2 spared.2
      (line_keeps library hash rounds conversions id made model input fits.1 (same ▸ spared.1) holds)

/-- The shell waits for a command. -/
def Prompting {σ : Type} (console : Console σ) : Prop :=
  console.shell.running = true ∧ console.stuck = false ∧ console.buffer = []

/-- What a line has made is listed under the id that the line has printed, as it was typed, whatever has been on the
file and whatever else is typed in between, unless a query sets or deletes something. -/
theorem created_listed (file : Bytes) (before after : List (UInt64 × Bytes)) (input : UInt64 × Bytes)
    (operation : Operation) (id now : UInt64) (console last : Console Database)
    (reached : console = run (later (readLine (databaseBackend library hash) rounds conversions)) (started file) before)
    (ended : last = run (later (readLine (databaseBackend library hash) rounds conversions)) console (input::after))
    (fits : Guarded (later (readLine (graphBackend library hash) rounds conversions)) (LineFits library hash conversions)
      {shell := {state := {}}} (before ++ input::after))
    (request : asked conversions console input = some (.operation operation))
    (printed : (readLine (databaseBackend library hash) rounds conversions console input).1 =
      some (createdLine operation.kind id))
    (spared : Guarded (later (readLine (databaseBackend library hash) rounds conversions))
      (fun console input => sparing (asked conversions console input) = true)
      (later (readLine (databaseBackend library hash) rounds conversions) console input) after)
    (prompting : Prompting last) :
    (readLine (databaseBackend library hash) rounds conversions last (now,listingLine operation.kind id)).1 =
      some (printQueryResult (row id operation)) := by
  obtain ⟨early,allowed,others⟩ := (guarded_append _ before (input::after)).mp fits
  have refines := lines_refine library hash rounds conversions
  have opened : ConsolesAgree (started file) {shell := {state := {}}} := ⟨⟨opened_shows file none,rfl,rfl⟩,rfl,rfl⟩
  have agree := (run_refined refines _ _ before opened early).2
  rw [← reached] at agree
  generalize run (later (readLine (graphBackend library hash) rounds conversions)) {shell := {state := {}}} before =
    model at agree allowed others
  obtain ⟨told,next⟩ := refines console model input agree allowed
  have same : asked conversions model input = asked conversions console input := by rw [asked,asked,agree.buffer]
  have made := line_makes library hash rounds conversions id operation model input allowed
    (unissued agree.shells.shows.holds.represents) (same.trans request) (told.symm.trans printed)
  have kept := lines_keep library hash rounds conversions id operation _ _ after next others spared made
  have shows := (run_refined refines _ _ after next others).2.shells
  have finished : last = run (later (readLine (databaseBackend library hash) rounds conversions))
    (later (readLine (databaseBackend library hash) rounds conversions) console input) after := ended
  rw [← finished] at shows
  rw [listing_read _ rounds conversions operation.kind id last now prompting.1 prompting.2.1 prompting.2.2,
    reads_agree library hash shows]
  exact congrArg some (made_listed hash id _ _ operation kept)

end Lines

def earlierLines : List (UInt64 × Bytes) := [(7,ascii "create-node title = Home"),(8,ascii "create-edge 1 1 \\")]

def homeLine : UInt64 × Bytes := (9,ascii "home since = now")

def laterLines : List (UInt64 × Bytes) := [(9,ascii "create-edge 1 1 back"),(9,ascii "create-node x=y")]

def homeLink : Operation := .createEdge 9 1 1 (ascii "home") [⟨ascii "since",.string (ascii "now")⟩]

theorem created_listed_continued :
    (readLine (databaseBackend stableLibrary fun _ => 0) 9 wholeNumbers
      (run (later (readLine (databaseBackend stableLibrary fun _ => 0) 9 wholeNumbers)) (run (later (readLine
        (databaseBackend stableLibrary fun _ => 0) 9 wholeNumbers)) (started [7]) earlierLines) (homeLine::laterLines))
      (10,ascii "get-edge 1")).1 = some (printQueryResult {
        columns := [ascii "id",ascii "from_node",ascii "to_node",ascii "properties"]
        rows := [[ascii "1",ascii "1",ascii "1",ascii "since:now"]]}) :=
  created_listed stableLibrary (fun _ => 0) 9 wholeNumbers [7] earlierLines laterLines homeLine homeLink 1 10 _ _ rfl rfl
    (by decide +kernel) (by
      have buffered : (run (later (readLine (databaseBackend stableLibrary fun _ => 0) 9 wholeNumbers)) (started [7])
        earlierLines).buffer = ascii "create-edge 1 1 " ++ newline := by decide +kernel
      rw [asked,buffered]
      rfl) (by decide +kernel) (by decide +kernel) (by
      unfold Prompting
      decide +kernel)

end LoreDB.Cli
