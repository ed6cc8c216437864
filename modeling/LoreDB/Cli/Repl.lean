import LoreDB.Query.Cypher.Sessions
import LoreDB.Query.NodeReads
import Mathlib.Data.List.DropRight

/-! The commands of the shell that create nodes, and those that run queries. Of the two only the first ones also
enter texts in the index. -/
namespace LoreDB.Cli
open LoreDB.Storage LoreDB.Query LoreDB.Query.Cypher

structure REPL where
  database : Database
  indexManager : SimpleIndexManager := {}

namespace REPL

/-- A shell on a file. Its graph store keeps no versions and no log. -/
def opened (file : Bytes) : REPL := {database := session file false none}

/-- White space of the C locale. -/
def isspace (ch : UInt8) : Bool := ch == ' '.toUInt8 || 9 ≤ ch && ch ≤ 13

def trim (text : Bytes) : Bytes := (text.dropWhile isspace).rdropWhile isspace

/-- A key and a text around the first equals sign. -/
def parseProperty (prop : Bytes) : Option Property :=
  match prop.span (· != '='.toUInt8) with
  | (_,[]) => none
  | (key,_::value) => some ⟨trim key,.string (trim value)⟩

def parseProperties (props : Bytes) : List Property := (props.splitOn ','.toUInt8).filterMap parseProperty

/-- Properties that are no texts are not indexed. -/
def indexProperties (nodeId : NodeId) : List Property → SimpleIndexManager → SimpleIndexManager
  | [], index => index
  | ⟨key,.string value⟩::rest, index => indexProperties nodeId rest (index.indexNodeProperty nodeId key value)
  | _::rest, index => indexProperties nodeId rest index

/-- The line that the command prints, and the shell it leaves. -/
def cmdCreateNode (args : Bytes) (repl : REPL) : String × REPL :=
  if args.isEmpty then ("Usage: create-node <properties>",repl)
  else
    let properties := parseProperties args
    match GraphStore.createNode properties repl.database.graphStore with
    | (.ok nodeId,store) => ("Created node with ID: " ++ toString nodeId.toNat,{
        database := {repl.database with graphStore := store}
        indexManager := indexProperties nodeId properties repl.indexManager})
    | (.error e,store) => ("Failed to create node: " ++ e.message,
        {repl with database := {repl.database with graphStore := store}})

/-- What a query returns, and the shell it leaves. -/
def cmdCypher (library : StandardLibrary) (query : Query) (repl : REPL) :
    Option (Except Error QueryResult) × REPL :=
  let (returned,database) := executeQuery (graphExecutors library) query repl.database
  (returned,{repl with database := database})

theorem parseProperty_text (piece : Bytes) (prop : Property) (parsed : parseProperty piece = some prop) :
    ∃ value, prop.value = .string value := by
  unfold parseProperty at parsed
  split at parsed
  · cases parsed
  · cases Option.some.inj parsed
    exact ⟨_,rfl⟩

/-- Whatever is written behind an equals sign is taken as a text. -/
theorem parseProperties_texts (args : Bytes) (prop : Property) (member : prop ∈ parseProperties args) :
    ∃ value, prop.value = .string value := by
  obtain ⟨piece,_,parsed⟩ := List.mem_filterMap.mp member
  exact parseProperty_text piece prop parsed

example : parseProperties (ascii "a = b=c ,d") = [⟨ascii "a",.string (ascii "b=c")⟩] := by decide +kernel

/-- An id is entered as often as the text is among the properties. -/
theorem indexProperties_found (nodeId : NodeId) (properties : List Property) (index : SimpleIndexManager)
    (key value : Bytes) : (indexProperties nodeId properties index).findNodesByProperty key value =
      index.findNodesByProperty key value ++ List.replicate (properties.count ⟨key,.string value⟩) nodeId := by
  induction properties generalizing index with
  | nil => simp [indexProperties]
  | cons prop rest ih =>
    obtain ⟨name,content⟩ := prop
    cases content with
    | string text =>
      rw [indexProperties,ih]
      by_cases same : (key,value) = (name,text)
      · cases same
        rw [List.count_cons_self,List.replicate_succ]
        simp [SimpleIndexManager.findNodesByProperty,SimpleIndexManager.indexNodeProperty]
      · have other : (⟨name,.string text⟩ : Property) ≠ ⟨key,.string value⟩ := by
          rintro ⟨⟩
          exact same rfl
        rw [List.count_cons_of_ne other]
        simp [SimpleIndexManager.findNodesByProperty,SimpleIndexManager.indexNodeProperty,
          Function.update_of_ne same]
    | integer _ | float _ | boolean _ | bytes _ =>
      rw [indexProperties,ih,List.count_cons_of_ne (by rintro ⟨⟩)]
      · rintro _ _ ⟨⟩

end REPL

end LoreDB.Cli
