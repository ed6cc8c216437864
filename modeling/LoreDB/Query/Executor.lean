import LoreDB.Storage.FilePageStore
import LoreDB.Storage.GraphStore
import Mathlib.Data.List.Destutter
import Mathlib.Data.List.Sort
import Mathlib.Data.Finset.Basic

/-! The path searches of the query executor, over the edges without a transaction. Their loops take a
number of rounds after which they give up, which the source does not have. -/
namespace LoreDB.Query.QueryExecutor
open LoreDB.Storage GraphStore

/-- Of the edges that can be read, the nodes at one of the ends. -/
def tips (tip : EdgeRecord → NodeId) (edges : List EdgeId) (store : GraphStore FilePageStore) : List NodeId :=
  edges.filterMap fun edgeId => (getEdge edgeId store).1.toOption.map fun found => tip found.1

def getAdjacentNodes (nodeId : NodeId) (store : GraphStore FilePageStore) : List NodeId :=
  let adjacentNodes := tips EdgeRecord.toNode (store.getOutgoingEdges nodeId) store ++
    tips EdgeRecord.fromNode (store.getIncomingEdges nodeId) store
  (adjacentNodes.insertionSort (· ≤ ·)).destutter (· ≠ ·)

/-! The shortest path. -/

/-- A node without a parent reads as 0. -/
structure Search where
  queue : List NodeId
  visited : Finset NodeId
  parent : NodeId → NodeId := fun _ => 0

def Search.visit (neighbor current : NodeId) (search : Search) : Search where
  queue := search.queue ++ [neighbor]
  visited := insert neighbor search.visited
  parent := Function.update search.parent neighbor current

/-- Goes through the neighbors of a node and stops at the one that is looked for. -/
def expand (toNode current : NodeId) : List NodeId → Search → Search × Bool
  | [], search => (search,false)
  | neighbor :: rest, search =>
    if neighbor ∈ search.visited then expand toNode current rest search
    else if neighbor = toNode then (search.visit neighbor current,true)
    else expand toNode current rest (search.visit neighbor current)

def reconstruct (fromNode : NodeId) (parent : NodeId → NodeId) : ℕ → NodeId → List NodeId →
    Option (List NodeId)
  | 0, _, _ => none
  | rounds + 1, node, path =>
    if node = fromNode then some (path ++ [fromNode]).reverse
    else reconstruct fromNode parent rounds (parent node) (path ++ [node])

def searchQueue (store : GraphStore FilePageStore) (fromNode toNode : NodeId) : ℕ → Search →
    Option (List NodeId)
  | 0, _ => none
  | rounds + 1, search =>
    match search.queue with
    | [] => some []
    | current :: queue =>
      match expand toNode current (getAdjacentNodes current store) {search with queue := queue} with
      | (search,true) => reconstruct fromNode search.parent rounds toNode []
      | (search,false) => searchQueue store fromNode toNode rounds search

def bfsShortestPath (rounds : ℕ) (fromNode toNode : NodeId) (store : GraphStore FilePageStore) :
    Option (List NodeId) :=
  if fromNode = toNode then some [fromNode]
  else searchQueue store fromNode toNode rounds {queue := [fromNode], visited := {fromNode}}

/-! All paths up to a length. -/

/-- The vectors and the set that the calls of the recursion share. -/
structure Paths where
  path : List NodeId
  visited : Finset NodeId
  paths : List (List NodeId) := []

def dfs (store : GraphStore FilePageStore) (toNode : NodeId) (maxLength : UInt64) : ℕ → NodeId → Paths →
    Option Paths
  | 0, _, _ => none
  | rounds + 1, current, state =>
    if (maxLength + 1).toNat < state.path.length then some state
    else if current = toNode ∧ 1 < state.path.length then
      some {state with paths := state.paths ++ [state.path]}
    else
      (getAdjacentNodes current store).foldlM (fun state neighbor =>
        if neighbor ∈ state.visited then some state
        else (dfs store toNode maxLength rounds neighbor {state with
            visited := insert neighbor state.visited
            path := state.path ++ [neighbor]}).map fun state => {state with
          path := state.path.dropLast
          visited := state.visited.erase neighbor}) state

def bfsPathsWithLength (rounds : ℕ) (fromNode toNode : NodeId) (maxLength : UInt64)
    (store : GraphStore FilePageStore) : Option (List (List NodeId)) :=
  (dfs store toNode maxLength rounds fromNode {path := [fromNode], visited := {fromNode}}).map Paths.paths

end LoreDB.Query.QueryExecutor
