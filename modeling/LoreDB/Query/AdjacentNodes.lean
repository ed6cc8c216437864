import LoreDB.Query.Executor
import LoreDB.Storage.Wiring
import Mathlib.Data.UInt

/-! The nodes that a search goes on to. They are the other ends of the edges that can be read, in either
direction and each once, in every store that any calls have made. -/
namespace LoreDB.Query.QueryExecutor
open LoreDB.Storage GraphStore GraphHistory Wiring

/-- An edge that can be read leads from the one node to the other or back. -/
def Joined (store : GraphStore FilePageStore) (node next : NodeId) : Prop :=
  ∃ id found, (getEdge id store).1 = .ok found ∧
    (found.1.fromNode = node ∧ found.1.toNode = next ∨ found.1.fromNode = next ∧ found.1.toNode = node)

variable {store : GraphStore FilePageStore} {ends : EdgeId → NodeId × NodeId}

theorem sorted_nodes (nodes : List NodeId) :
    (nodes.insertionSort (· ≤ ·)).destutter (· ≠ ·) = (nodes.insertionSort (· ≤ ·)).dedup :=
  List.Pairwise.destutter_eq_dedup (List.pairwise_insertionSort (· ≤ ·) nodes)

theorem nodup_adjacent (nodeId : NodeId) (store : GraphStore FilePageStore) :
    (getAdjacentNodes nodeId store).Nodup := by
  rw [getAdjacentNodes,sorted_nodes]
  exact List.nodup_dedup _

theorem mem_tips (tip : EdgeRecord → NodeId) (edges : List EdgeId) (next : NodeId) :
    next ∈ tips tip edges store ↔
      ∃ id ∈ edges, ∃ found, (getEdge id store).1 = .ok found ∧ tip found.1 = next := by
  rw [tips,List.mem_filterMap]
  refine exists_congr fun id => and_congr_right fun _ => ?_
  cases (getEdge id store).1 <;> simp [Except.toOption]

theorem mem_adjacent (wired : Wired store ends) (node next : NodeId) :
    next ∈ getAdjacentNodes node store ↔ Joined store node next := by
  rw [getAdjacentNodes,sorted_nodes,List.mem_dedup,List.mem_insertionSort,List.mem_append,mem_tips,mem_tips]
  have indexed (id : EdgeId) (found : EdgeRecord × List Property) (read : (getEdge id store).1 = .ok found) :
      store.edgePageIndex id ≠ none := Outlines.get_placed .edge id store found read
  constructor
  · rintro (⟨id,listed,found,read,rfl⟩ | ⟨id,listed,found,read,rfl⟩)
    · have seen := (wired.joins id).seen found read
      have leaves := ((wired.joins id).outgoing node).mp listed
      exact ⟨id,found,read,.inl ⟨(congrArg Prod.fst seen).trans leaves.2,rfl⟩⟩
    · have seen := (wired.joins id).seen found read
      have arrives := ((wired.joins id).incoming node).mp listed
      exact ⟨id,found,read,.inr ⟨rfl,(congrArg Prod.snd seen).trans arrives.2⟩⟩
  · rintro ⟨id,found,read,⟨leaves,rfl⟩ | ⟨rfl,arrives⟩⟩
    · have seen := (wired.joins id).seen found read
      exact .inl ⟨id,((wired.joins id).outgoing node).mpr ⟨indexed id found read,seen ▸ leaves⟩,found,read,rfl⟩
    · have seen := (wired.joins id).seen found read
      exact .inr ⟨id,((wired.joins id).incoming node).mpr ⟨indexed id found read,seen ▸ arrives⟩,found,read,rfl⟩

end LoreDB.Query.QueryExecutor
