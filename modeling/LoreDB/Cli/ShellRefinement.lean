import LoreDB.Cli.Commands
import LoreDB.Query.Cypher.ParsedPatterns

/-! A shell on a file against a shell on a property graph. Whatever lines are typed, both print the same. -/
namespace LoreDB.Cli
open LoreDB.Storage LoreDB.Storage.GraphHistory LoreDB.Query LoreDB.Query.Cypher LoreDB.Query.ClearedIndexes
  LoreDB.Library.Answers LoreDB.Library.History REPL

variable (library : StandardLibrary) (hash : Bytes → UInt64) (rounds : ℕ) (conversions : Conversions)

def databaseBackend : Backend Database where
  call := databaseCall library hash
  reads db := storeReads db.graphStore

def graphBackend : Backend QueryGraph where
  call := graphCall library hash
  reads state := graphReads state.model state.count

/-! What a command asks of the store. -/

def requestedNode (args : Bytes) : Option ShellCall :=
  if args.isEmpty then none else some (.operation (.createNode (parseProperties args)))

def requestedEdge (clock : UInt64) (args : Bytes) : Option ShellCall :=
  match tokenize args with
  | first::second::label::rest =>
    match stoull first, stoull second with
    | some fromNode, some toNode =>
      some (.operation (.createEdge clock fromNode toNode label (edgeProperties args rest)))
    | _, _ => none
  | _ => none

def requestedQuery (args : Bytes) : Option ShellCall :=
  if args.isEmpty then none
  else match CypherParser.parse conversions args with
    | .error _ => none
    | .ok query => some (.query query)

def requested (clock : UInt64) (command : Bytes) : Option ShellCall :=
  match tokenize command with
  | [] => none
  | cmd::rest =>
    let args := if rest.isEmpty then [] else afterBlank command
    if cmd = ascii "create-node" then requestedNode args
    else if cmd = ascii "create-edge" then requestedEdge clock args
    else if cmd = ascii "cypher" then requestedQuery conversions args
    else none

def kindName : Kind → String
  | .node => "node"
  | .edge => "edge"

/-- What is told of the answer. -/
def reported : ShellCall → Answer → Option Bytes
  | .operation operation => created (kindName operation.kind)
  | .query _ => queried

/-- What a command does to a shell, whichever store is behind it. -/
abbrev Command := (σ : Type) → Backend σ → Shell σ → Option Bytes × Shell σ

/-- A command makes the one call and tells of its answer, or makes no call and tells of what it reads. -/
def Shaped (wanted : Option ShellCall) (command : Command) : Prop :=
  match wanted with
  | some call => ∃ enter, ∀ σ backend shell, command σ backend shell = shell.ask backend call (reported call) enter
  | none => ∃ (output : IndexTables → Reads → Option Bytes) (goesOn : Bool), ∀ σ backend shell,
      command σ backend shell =
        (output shell.indexManager (backend.reads shell.state),{shell with running := shell.running && goesOn})

theorem tells_shaped (output : IndexTables → Reads → Option Bytes) (command : Command)
    (same : ∀ σ backend shell, command σ backend shell =
      (output shell.indexManager (backend.reads shell.state),shell)) : Shaped none command :=
  ⟨output,true,fun σ backend shell => by rw [same,Bool.and_true]⟩

theorem says_shaped (text : Bytes) : Shaped none fun _ _ shell => (some text,shell) :=
  tells_shaped (fun _ _ => some text) _ fun _ _ _ => rfl

theorem createNode_shaped (args : Bytes) :
    Shaped (requestedNode args) fun _ backend shell => cmdCreateNode backend shell args := by
  unfold requestedNode cmdCreateNode
  cases args.isEmpty with
  | true => exact says_shaped (line "Usage: create-node <properties>")
  | false => exact ⟨entering fun nodeId => indexNodeProperties nodeId (parseProperties args),fun _ _ _ => rfl⟩

theorem createEdge_shaped (clock : UInt64) (args : Bytes) :
    Shaped (requestedEdge clock args) fun _ backend shell => cmdCreateEdge backend shell clock args := by
  unfold requestedEdge cmdCreateEdge
  have usage : Shaped none fun _ _ shell =>
      (some (line "Usage: create-edge <from> <to> <label> [properties]"),shell) := says_shaped _
  cases tokenize args with
  | nil => exact usage
  | cons first rest =>
    cases rest with
    | nil => exact usage
    | cons second rest =>
      cases rest with
      | nil => exact usage
      | cons label rest =>
        dsimp only
        cases stoull first with
        | none => exact says_shaped invalidNode
        | some fromNode =>
          cases stoull second with
          | none => exact says_shaped invalidNode
          | some toNode =>
            exact ⟨entering fun edgeId index => indexEdgeProperties edgeId (edgeProperties args rest)
              (index.addEdgeToAdjacency fromNode toNode edgeId),fun _ _ _ => rfl⟩

theorem cypher_shaped (args : Bytes) :
    Shaped (requestedQuery conversions args) fun _ backend shell => cmdCypher backend shell conversions args := by
  unfold requestedQuery cmdCypher
  cases args.isEmpty with
  | true => exact says_shaped (line "Usage: cypher <query>")
  | false =>
    cases CypherParser.parse conversions args with
    | error e => exact says_shaped (printed "Query failed: " (.error e))
    | ok query => exact ⟨fun _ index => index,fun _ _ _ => rfl⟩

theorem processCommand_shaped (clock : UInt64) (command : Bytes) : Shaped (requested conversions clock command)
    fun _ backend shell => processCommand backend shell rounds conversions clock command := by
  unfold requested processCommand
  cases tokenize command with
  | nil => exact says_shaped []
  | cons cmd rest =>
    dsimp only
    generalize (if rest.isEmpty then [] else afterBlank command) = args
    by_cases node : cmd = ascii "create-node"
    · simp only [if_pos node]
      exact createNode_shaped args
    · simp only [if_neg node]
      by_cases edge : cmd = ascii "create-edge"
      · simp only [if_pos edge]
        exact createEdge_shaped clock args
      · simp only [if_neg edge]
        by_cases cypher : cmd = ascii "cypher"
        · simp only [if_pos cypher]
          exact cypher_shaped conversions args
        · simp only [if_neg cypher]
          by_cases exit : cmd = ascii "exit" ∨ cmd = ascii "quit"
          · simp only [if_pos exit]
            exact ⟨fun _ _ => some (line "Goodbye!"),false,fun _ _ shell => by
              unfold cmdExit
              rw [Bool.and_false]⟩
          · simp only [if_neg exit]
            refine tells_shaped (fun index reads => ((readers rounds args index reads).find? fun reader =>
              cmd = ascii reader.1).elim (some (unknown cmd)) Prod.snd) _ fun _ backend shell => ?_
            cases (readers rounds args shell.indexManager (backend.reads shell.state)).find? fun reader =>
              cmd = ascii reader.1 <;> rfl

/-! Both shells. -/

/-- A shell on a database and a shell on the graph that it shows. -/
structure ShellsAgree (shell : Shell Database) (model : Shell QueryGraph) : Prop where
  shows : ShowsPlainly shell.state.graphStore model.state
  indexManager : shell.indexManager = model.indexManager
  running : shell.running = model.running

/-- What the line asks of the store fits. -/
def RequestFits (request : Option ShellCall) (state : QueryGraph) : Prop :=
  ∀ call, request = some call → CallFits library hash state call

instance (request : Option ShellCall) (state : QueryGraph) : Decidable (RequestFits library hash request state) :=
  match request with
  | none => isTrue fun _ none => nomatch none
  | some call => decidable_of_iff (CallFits library hash state call)
    ⟨fun fits _ same => by cases same; exact fits,fun fits => fits call rfl⟩

theorem reads_agree {shell : Shell Database} {model : Shell QueryGraph} (agree : ShellsAgree shell model) :
    (databaseBackend library hash).reads shell.state = (graphBackend library hash).reads model.state :=
  reads_represents agree.shows.holds.represents _ agree.shows.counted

theorem shaped_agrees (wanted : Option ShellCall) (command : Command) (shaped : Shaped wanted command)
    {shell : Shell Database} {model : Shell QueryGraph} (agree : ShellsAgree shell model)
    (fits : RequestFits library hash wanted model.state) :
    (command _ (databaseBackend library hash) shell).1 = (command _ (graphBackend library hash) model).1 ∧
      ShellsAgree (command _ (databaseBackend library hash) shell).2 (command _ (graphBackend library hash) model).2 := by
  cases wanted with
  | none =>
    obtain ⟨output,goesOn,same⟩ := shaped
    rw [same,same,reads_agree library hash agree,agree.indexManager]
    exact ⟨rfl,agree.shows,rfl,congrArg (· && goesOn) agree.running⟩
  | some call =>
    obtain ⟨enter,same⟩ := shaped
    obtain ⟨answered,later⟩ := calls_refine library hash shell.state model.state call agree.shows (fits call rfl)
    rw [same,same]
    refine ⟨congrArg (reported call) answered,later,?_,agree.running⟩
    exact (congrArg (enter · shell.indexManager) answered).trans (congrArg (enter _) agree.indexManager)

/-- The consoles have read the same lines. -/
structure ConsolesAgree (console : Console Database) (model : Console QueryGraph) : Prop where
  shells : ShellsAgree console.shell model.shell
  buffer : console.buffer = model.buffer
  stuck : console.stuck = model.stuck

/-- The records that a line has written fit their pages, and the counters do not wrap. -/
def LineFits (console : Console QueryGraph) (input : UInt64 × Bytes) : Prop :=
  RequestFits library hash (requested conversions input.1 (console.buffer ++ input.2)) console.shell.state

instance (console : Console QueryGraph) (input : UInt64 × Bytes) :
    Decidable (LineFits library hash conversions console input) :=
  inferInstanceAs (Decidable (RequestFits library hash _ _))

theorem lines_refine : Refines ConsolesAgree (LineFits library hash conversions)
    (readLine (databaseBackend library hash) rounds conversions)
    (readLine (graphBackend library hash) rounds conversions) := by
  intro console model input agree fits
  obtain ⟨shells,buffer,stuck⟩ := agree
  unfold later readLine
  dsimp only
  rw [stuck,shells.running,buffer]
  split
  · exact ⟨rfl,shells,buffer,stuck⟩
  · split
    · exact ⟨rfl,shells,rfl,rfl⟩
    · split
      · exact ⟨rfl,shells,buffer,stuck⟩
      · obtain ⟨printed,kept⟩ := shaped_agrees library hash _ _
          (processCommand_shaped rounds conversions input.1 (model.buffer ++ input.2)) shells fits
        exact ⟨printed,kept,rfl,congrArg Option.isNone printed⟩

/-- A shell as it starts, on any file. -/
def started (file : Bytes) : Console Database := {shell := {state := session file false none}}

/-- Whatever is typed, a shell prints what a shell on a property graph prints, byte for byte: pages, records,
transactions and what the file held before never show. -/
theorem shell_refined (file : Bytes) (lines : List (UInt64 × Bytes))
    (fits : Guarded (later (readLine (graphBackend library hash) rounds conversions)) (LineFits library hash conversions)
      {shell := {state := {}}} lines) :
    answers (readLine (databaseBackend library hash) rounds conversions) (started file) lines =
      answers (readLine (graphBackend library hash) rounds conversions) {shell := {state := {}}} lines :=
  (run_refined (lines_refine library hash rounds conversions) _ _ lines
    ⟨⟨opened_shows file none,rfl,rfl⟩,rfl,rfl⟩ fits).1

/-- A link to itself, the label on a line of its own. -/
def linkedLines : List (UInt64 × Bytes) :=
  [(7,ascii "create-node title = Home"),(8,ascii "create-edge 1 1 \\"),(9,ascii "home"),(9,ascii "adjacent 1"),
    (9,ascii "get-node 2"),(9,ascii "quit"),(9,ascii "count")]

theorem shell_refined_linked :
    answers (readLine (databaseBackend stableLibrary fun _ => 0) 9 wholeNumbers) (started [7]) linkedLines =
      [some (line "Created node with ID: 1"),some [],some (line "Created edge with ID: 1"),
        some (line "┌---------┐" ++ line "│ node_id │" ++ line "├---------┤" ++ line "│ 1       │" ++
          line "└---------┘" ++ line "(1 rows)"),
        some (line "Node not found: Node not found"),some (line "Goodbye!"),some []] := by
  rw [shell_refined stableLibrary (fun _ => 0) 9 wholeNumbers [7] linkedLines (by decide +kernel)]
  decide +kernel

end LoreDB.Cli
