import LoreDB.Cli.Repl
import LoreDB.Query.Cypher.Parser
import LoreDB.Query.Cypher.PlainSessions
import LoreDB.Query.ExecutorResults

/-! The command lines of the shell, from their text to what they print. The shell calls a graph store and reads it;
which store that is stays open here. -/
namespace LoreDB.Cli
open LoreDB.Storage LoreDB.Storage.GraphHistory LoreDB.Query LoreDB.Query.Cypher LoreDB.Query.ClearedIndexes
  LoreDB.Library.Answers REPL

/-- What stands behind a shell: the calls that may change it, and the reads of the query executor. -/
structure Backend (σ : Type) where
  call : Machine Answer σ ShellCall
  reads : σ → Reads

structure Shell (σ : Type) where
  state : σ
  indexManager : IndexTables := {}
  running : Bool := true

/-! Texts. -/

def newline : Bytes := [10]

def line (text : String) : Bytes := ascii text ++ newline

def tokenize (text : Bytes) : List Bytes := (text.splitOnP isspace).filter fun token => !token.isEmpty

/-- The digits at the beginning, after blanks and a sign. What is below zero wraps around. -/
def stoull (text : Bytes) : Option UInt64 :=
  match Conversions.leadingInteger text with
  | none => none
  | some value => if value.natAbs < 2 ^ 64 then some (UInt64.ofInt value) else none

/-- What follows the first blank, or the whole text if it has none. -/
def afterBlank (command : Bytes) : Bytes :=
  match command.dropWhile (· != ' '.toUInt8) with
  | [] => command
  | _::rest => rest

/-- The text from the first place on where it goes on with the token. -/
def fromToken (token text : Bytes) : Bytes := (text.tails.find? fun rest => token.isPrefixOf rest).getD []

/-! Tables. -/

section Tables

variable (result : QueryResult)

def cell (i : ℕ) (row : List Bytes) : Bytes := row[i]?.getD []

/-- The longest text of a column. -/
def width (i : ℕ) (column : Bytes) : ℕ := result.rows.foldl (fun width row => max width (cell i row).length) column.length

def widths : List ℕ := result.columns.zipIdx.map fun (column,i) => width result i column

/-- A line between corners. -/
def rule (left cross right : String) : Bytes :=
  ascii left ++ (ascii cross).intercalate ((widths result).map fun width => List.replicate (width + 2) '-'.toUInt8) ++
    ascii right ++ newline

def padded (width : ℕ) (text : Bytes) : Bytes :=
  ascii " " ++ text ++ List.replicate (width - text.length) ' '.toUInt8 ++ ascii " "

/-- A row has as many cells as there are columns. -/
def tableRow (row : List Bytes) : Bytes :=
  ascii "│" ++ (ascii "│").intercalate ((widths result).zipIdx.map fun (width,i) => padded width (cell i row)) ++
    ascii "│" ++ newline

def tableLines : List Bytes :=
  [rule result "┌" "┬" "┐",tableRow result result.columns,rule result "├" "┼" "┤"] ++
    result.rows.map (tableRow result) ++ [rule result "└" "┴" "┘"]

def printQueryResult : Bytes :=
  if result.rows.isEmpty then line "No results found."
  else (tableLines result).flatten ++ line ("(" ++ toString result.rows.length ++ " rows)")

end Tables

/-- A result, or the message of an error. -/
def printed (failed : String) : Except Error QueryResult → Bytes
  | .ok result => printQueryResult result
  | .error e => line (failed ++ e.message)

/-! Commands that read. -/

section Readers

variable (rounds : ℕ) (args : Bytes) (index : IndexTables) (reads : Reads)

def invalidNode : Bytes := line "Invalid node ID format"

/-- A command whose whole argument is an id. -/
def cmdById (usage invalid : String) (answer : UInt64 → Bytes) : Bytes :=
  if args.isEmpty then line usage
  else match stoull args with
    | none => line invalid
    | some id => answer id

def cmdGetNode : Bytes :=
  cmdById args "Usage: get-node <id>" "Invalid node ID format" fun id =>
    printed "Node not found: " (reads.getNodeById id)

def cmdGetEdge : Bytes :=
  cmdById args "Usage: get-edge <id>" "Invalid edge ID format" fun id =>
    printed "Edge not found: " (reads.getEdgeById id)

def cmdAdjacent : Bytes :=
  cmdById args "Usage: adjacent <id>" "Invalid node ID format" fun id => printQueryResult (reads.getAdjacentNodes id)

def cmdBacklinks : Bytes :=
  cmdById args "Usage: backlinks <id>" "Invalid node ID format" fun id =>
    printQueryResult (reads.getDocumentBacklinks id)

def cmdOutlinks : Bytes :=
  cmdById args "Usage: outlinks <id>" "Invalid node ID format" fun id =>
    printQueryResult (reads.getDocumentOutlinks id)

def cmdFindNodes : Bytes :=
  match tokenize args with
  | key::value::_ => printQueryResult (reads.getNodesByProperty key value index)
  | _ => line "Usage: find-nodes <key> <value>"

def cmdFindEdges : Bytes :=
  match tokenize args with
  | key::value::_ => printQueryResult (reads.getEdgesByProperty key value index)
  | _ => line "Usage: find-edges <key> <value>"

/-- `none` where the search has been given up. -/
def cmdPath : Option Bytes :=
  match tokenize args with
  | first::second::_ =>
    match stoull first, stoull second with
    | some fromNode, some toNode => (reads.findShortestPath rounds fromNode toNode).map printQueryResult
    | _, _ => some invalidNode
  | _ => some (line "Usage: path <from> <to>")

def cmdCount : Bytes :=
  ascii "Nodes: " ++ Reads.number reads.nodeCount ++ newline ++ ascii "Edges: " ++ Reads.number reads.edgeCount ++ newline

def cmdStats : Bytes := printQueryResult reads.getNodeDegreeStats

def cmdRelated : Bytes :=
  match tokenize args with
  | [] => line "Usage: related <id> [limit]"
  | [first] =>
    match stoull first with
    | some nodeId => printQueryResult (reads.findRelatedDocuments nodeId 10)
    | none => invalidNode
  | first::second::_ =>
    match stoull first, stoull second with
    | some nodeId, some limit => printQueryResult (reads.findRelatedDocuments nodeId limit)
    | _, _ => invalidNode

def cmdSuggest : Bytes :=
  match tokenize args with
  | first::second::_ =>
    match stoull first with
    | some nodeId => printQueryResult (reads.suggestLinksForDocument nodeId (fromToken second args))
    | none => invalidNode
  | _ => line "Usage: suggest <id> <content>"

def helpLines : List String := [
  "Available commands:",
  "  create-node <properties>       - Create a new node",
  "  create-edge <from> <to> <label> <properties> - Create a new edge",
  "  get-node <id>                  - Get node by ID",
  "  get-edge <id>                  - Get edge by ID",
  "  find-nodes <key> <value>       - Find nodes by property",
  "  find-edges <key> <value>       - Find edges by property",
  "  adjacent <id>                  - Get adjacent nodes",
  "  path <from> <to>               - Find shortest path",
  "  count                          - Count nodes and edges",
  "  stats                          - Get database statistics",
  "  backlinks <id>                 - Get document backlinks",
  "  outlinks <id>                  - Get document outlinks",
  "  related <id> [limit]           - Find related documents",
  "  suggest <id> <content>         - Suggest links for document",
  "  cypher <query>                 - Execute a Cypher query",
  "  clear                          - Clear the screen",
  "  help                           - Show this help",
  "  exit                           - Exit the program",
  "",
  "Properties format: key1=value1,key2=value2"]

def printHelp : Bytes := (helpLines.map line).flatten ++ ascii "> "

/-- The commands that change nothing, in the order in which they are looked for. -/
def readers : List (String × Option Bytes) := [
  ("get-node",some (cmdGetNode args reads)),
  ("get-edge",some (cmdGetEdge args reads)),
  ("find-nodes",some (cmdFindNodes args index reads)),
  ("find-edges",some (cmdFindEdges args index reads)),
  ("adjacent",some (cmdAdjacent args reads)),
  ("path",cmdPath rounds args reads),
  ("count",some (cmdCount reads)),
  ("stats",some (cmdStats reads)),
  ("backlinks",some (cmdBacklinks args reads)),
  ("outlinks",some (cmdOutlinks args reads)),
  ("related",some (cmdRelated args reads)),
  ("suggest",some (cmdSuggest args reads)),
  ("clear",some (27::ascii "c")),
  ("help",some printHelp)]

def unknown (cmd : Bytes) : Bytes :=
  ascii "Unknown command: " ++ cmd ++ newline ++ line "Type 'help' for available commands."

end Readers

/-! Commands that write. -/

section Writers

variable {σ : Type} (backend : Backend σ) (shell : Shell σ)

def indexNodeProperties (nodeId : NodeId) (properties : List Property) (index : IndexTables) : IndexTables :=
  properties.foldl (fun index property =>
    match property.value with
    | .string value => index.indexNodeProperty nodeId property.key value
    | _ => index) index

def indexEdgeProperties (edgeId : EdgeId) (properties : List Property) (index : IndexTables) : IndexTables :=
  properties.foldl (fun index property =>
    match property.value with
    | .string value => index.indexEdgeProperty edgeId property.key value
    | _ => index) index

/-- A call of the store, and what is printed and indexed of its answer. -/
def Shell.ask (call : ShellCall) (report : Answer → Option Bytes) (enter : Answer → IndexTables → IndexTables) :
    Option Bytes × Shell σ :=
  let (answer,state) := backend.call shell.state call
  (report answer,{shell with state := state, indexManager := enter answer shell.indexManager})

/-- What is done with a new id. -/
def entering (enter : UInt64 → IndexTables → IndexTables) : Answer → IndexTables → IndexTables
  | .operation (.ok id), index => enter id index
  | _, index => index

def created (kind : String) : Answer → Option Bytes
  | .operation (.ok id) => some (line ("Created " ++ kind ++ " with ID: " ++ toString id.toNat))
  | .operation (.error e) => some (line ("Failed to create " ++ kind ++ ": " ++ e.message))
  | .query _ => some []

def queried : Answer → Option Bytes
  | .query (some result) => some (printed "Query failed: " result)
  | _ => none

def cmdCreateNode (args : Bytes) : Option Bytes × Shell σ :=
  if args.isEmpty then (some (line "Usage: create-node <properties>"),shell)
  else
    let properties := parseProperties args
    shell.ask backend (.operation (.createNode properties)) (created "node")
      (entering fun nodeId => indexNodeProperties nodeId properties)

/-- The properties are looked for from the place on where their first token is found first. -/
def edgeProperties (args : Bytes) : List Bytes → List Property
  | [] => []
  | token::_ => parseProperties (fromToken token args)

def cmdCreateEdge (clock : UInt64) (args : Bytes) : Option Bytes × Shell σ :=
  match tokenize args with
  | first::second::label::rest =>
    match stoull first, stoull second with
    | some fromNode, some toNode =>
      let properties := edgeProperties args rest
      shell.ask backend (.operation (.createEdge clock fromNode toNode label properties)) (created "edge")
        (entering fun edgeId index => indexEdgeProperties edgeId properties
          (index.addEdgeToAdjacency fromNode toNode edgeId))
    | _, _ => (some invalidNode,shell)
  | _ => (some (line "Usage: create-edge <from> <to> <label> [properties]"),shell)

def cmdCypher (conversions : Conversions) (args : Bytes) : Option Bytes × Shell σ :=
  if args.isEmpty then (some (line "Usage: cypher <query>"),shell)
  else match CypherParser.parse conversions args with
    | .error e => (some (printed "Query failed: " (.error e)),shell)
    | .ok query => shell.ask backend (.query query) queried fun _ index => index

def cmdExit : Option Bytes × Shell σ := (some (line "Goodbye!"),{shell with running := false})

/-- Edges carry the time at which they are made. A command may not come back. -/
def processCommand (rounds : ℕ) (conversions : Conversions) (clock : UInt64) (command : Bytes) :
    Option Bytes × Shell σ :=
  match tokenize command with
  | [] => (some [],shell)
  | cmd::rest =>
    let args := if rest.isEmpty then [] else afterBlank command
    if cmd = ascii "create-node" then cmdCreateNode backend shell args
    else if cmd = ascii "create-edge" then cmdCreateEdge backend shell clock args
    else if cmd = ascii "cypher" then cmdCypher backend shell conversions args
    else if cmd = ascii "exit" ∨ cmd = ascii "quit" then cmdExit shell
    else match (readers rounds args shell.indexManager (backend.reads shell.state)).find? fun reader =>
        cmd = ascii reader.1 with
      | some reader => (reader.2,shell)
      | none => (some (unknown cmd),shell)

end Writers

/-! Lines. -/

/-- A shell and the lines that are to be continued. -/
structure Console (σ : Type) where
  shell : Shell σ
  buffer : Bytes := []
  stuck : Bool := false

/-- One line of input with the time of its arrival. A backslash at its end continues it, and after the exit or a
command that does not come back nothing is read. -/
def readLine {σ : Type} (backend : Backend σ) (rounds : ℕ) (conversions : Conversions) :
    Machine (Option Bytes) (Console σ) (UInt64 × Bytes)
  | console, (clock,text) =>
    if console.stuck || !console.shell.running then (some [],console)
    else if text.getLast? = some '\\'.toUInt8 then
      (some [],{console with buffer := console.buffer ++ text.dropLast ++ newline})
    else
      let buffer := console.buffer ++ text
      if buffer.isEmpty then (some [],console)
      else
        let (output,shell) := processCommand backend console.shell rounds conversions clock buffer
        (output,{shell := shell, stuck := output.isNone})

end LoreDB.Cli
