import Mathlib.Data.List.Nodup
import Mathlib.Logic.Function.Basic

/-! Directed graphs with data on nodes and edges. Parallel edges and loops are edges like
any other: each has an id of its own, and they stand in the order of their creation. -/
namespace LoreDB.Library

namespace PropertyGraph

structure Edge (ν ε β : Type) where
  id : ε
  source : ν
  target : ν
  data : β

inductive End where
  | source | target

def Edge.at {ν ε β : Type} (edge : Edge ν ε β) : End → ν
  | .source => edge.source
  | .target => edge.target

end PropertyGraph

structure PropertyGraph (ν ε α β : Type) where
  nodes : ν → Option α := fun _ => none
  edges : List (PropertyGraph.Edge ν ε β) := []
  ids_nodup : (edges.map PropertyGraph.Edge.id).Nodup := by exact List.nodup_nil

namespace PropertyGraph

variable {ν ε α β : Type}

def ids (graph : PropertyGraph ν ε α β) : List ε := graph.edges.map Edge.id

/-- No edge hangs at a node that is not there. -/
def Linked (graph : PropertyGraph ν ε α β) : Prop :=
  ∀ edge ∈ graph.edges, ∀ tip, graph.nodes (edge.at tip) ≠ none

section Nodes

variable [DecidableEq ν]

def setNode (node : ν) (data : α) (graph : PropertyGraph ν ε α β) : PropertyGraph ν ε α β :=
  {graph with nodes := Function.update graph.nodes node (some data)}

def eraseNode (node : ν) (graph : PropertyGraph ν ε α β) : PropertyGraph ν ε α β :=
  {graph with nodes := Function.update graph.nodes node none}

/-- The edges that begin or end at a node. -/
def attached (tip : End) (node : ν) (graph : PropertyGraph ν ε α β) : List ε :=
  (graph.edges.filter fun edge => edge.at tip = node).map Edge.id

theorem attached_sublist (tip : End) (node : ν) (graph : PropertyGraph ν ε α β) :
    (graph.attached tip node).Sublist graph.ids := List.filter_sublist.map Edge.id

theorem setNode_linked (node : ν) (data : α) (graph : PropertyGraph ν ε α β) (linked : graph.Linked) :
    (graph.setNode node data).Linked := by
  intro edge member tip
  by_cases here : edge.at tip = node
  · rw [here]
    simp [setNode]
  · change Function.update graph.nodes node (some data) (edge.at tip) ≠ none
    rw [Function.update_of_ne here]
    exact linked edge member tip

theorem eraseNode_linked (node : ν) (graph : PropertyGraph ν ε α β) (linked : graph.Linked)
    (isolated : ∀ tip, graph.attached tip node = []) : (graph.eraseNode node).Linked := by
  intro edge member tip
  have apart : edge.at tip ≠ node := by
    intro here
    have listed : edge.id ∈ graph.attached tip node :=
      List.mem_map_of_mem (List.mem_filter.mpr ⟨member,by simpa using here⟩)
    rw [isolated tip] at listed
    contradiction
  change Function.update graph.nodes node none (edge.at tip) ≠ none
  rw [Function.update_of_ne apart]
  exact linked edge member tip

end Nodes

section Edges

variable [DecidableEq ε]

/-- An id that is taken already names its edge only. -/
def addEdge (edge : Edge ν ε β) (graph : PropertyGraph ν ε α β) : PropertyGraph ν ε α β :=
  if fresh : edge.id ∉ graph.ids then
    {graph with
      edges := graph.edges ++ [edge]
      ids_nodup := by
        rw [List.map_append]
        exact List.Nodup.append graph.ids_nodup (List.nodup_singleton _)
          (by simpa [ids] using fresh)}
  else graph

def changed (id : ε) (change : β → β) (edge : Edge ν ε β) : Edge ν ε β :=
  if edge.id = id then {edge with data := change edge.data} else edge

@[simp] theorem changed_id (id : ε) (change : β → β) (edge : Edge ν ε β) :
    (changed id change edge).id = edge.id := by
  unfold changed
  split <;> rfl

@[simp] theorem changed_at (id : ε) (change : β → β) (edge : Edge ν ε β) (tip : End) :
    (changed id change edge).at tip = edge.at tip := by
  unfold changed
  split
  · cases tip <;> rfl
  · rfl

theorem changed_ids (id : ε) (change : β → β) (edges : List (Edge ν ε β)) :
    (edges.map (changed id change)).map Edge.id = edges.map Edge.id := by
  rw [List.map_map]
  exact List.map_congr_left fun edge _ => changed_id id change edge

def changeEdge (id : ε) (change : β → β) (graph : PropertyGraph ν ε α β) : PropertyGraph ν ε α β :=
  {graph with
    edges := graph.edges.map (changed id change)
    ids_nodup := by
      rw [changed_ids]
      exact graph.ids_nodup}

def eraseEdge (id : ε) (graph : PropertyGraph ν ε α β) : PropertyGraph ν ε α β :=
  {graph with
    edges := graph.edges.filter fun edge => edge.id != id
    ids_nodup := graph.ids_nodup.sublist (List.filter_sublist.map Edge.id)}

def edge? (id : ε) (graph : PropertyGraph ν ε α β) : Option (Edge ν ε β) :=
  graph.edges.find? fun edge => edge.id = id

theorem edge?_some (graph : PropertyGraph ν ε α β) (id : ε) (edge : Edge ν ε β) :
    graph.edge? id = some edge ↔ edge ∈ graph.edges ∧ edge.id = id := by
  constructor
  · intro found
    exact ⟨List.mem_of_find?_eq_some found,by simpa using List.find?_some found⟩
  · rintro ⟨member,rfl⟩
    cases found : graph.edge? edge.id with
    | none => simpa using List.find?_eq_none.mp found edge member
    | some other =>
      have same : other.id = edge.id := by simpa using List.find?_some found
      rw [List.inj_on_of_nodup_map graph.ids_nodup (List.mem_of_find?_eq_some found) member same]

theorem edge?_none (graph : PropertyGraph ν ε α β) (id : ε) :
    graph.edge? id = none ↔ id ∉ graph.ids := by
  simp [edge?,ids]

theorem addEdge_edges (edge : Edge ν ε β) (graph : PropertyGraph ν ε α β)
    (fresh : edge.id ∉ graph.ids) : (graph.addEdge edge).edges = graph.edges ++ [edge] := by
  rw [addEdge,dif_pos fresh]

theorem addEdge_nodes (edge : Edge ν ε β) (graph : PropertyGraph ν ε α β) :
    (graph.addEdge edge).nodes = graph.nodes := by
  unfold addEdge
  split <;> rfl

theorem addEdge_finds (edge : Edge ν ε β) (graph : PropertyGraph ν ε α β)
    (fresh : edge.id ∉ graph.ids) (id : ε) :
    (graph.addEdge edge).edge? id = if id = edge.id then some edge else graph.edge? id := by
  rw [edge?,addEdge_edges edge graph fresh,List.find?_append]
  split
  · rename_i here
    subst here
    rw [show graph.edges.find? _ = none from (graph.edge?_none edge.id).mpr fresh]
    simp
  · rename_i apart
    simp [edge?,Ne.symm apart]

theorem changeEdge_ids (id : ε) (change : β → β) (graph : PropertyGraph ν ε α β) :
    (graph.changeEdge id change).ids = graph.ids := changed_ids id change graph.edges

theorem changeEdge_length (id : ε) (change : β → β) (graph : PropertyGraph ν ε α β) :
    (graph.changeEdge id change).edges.length = graph.edges.length := List.length_map _

theorem changeEdge_finds (id : ε) (change : β → β) (graph : PropertyGraph ν ε α β) (other : ε) :
    (graph.changeEdge id change).edge? other = (graph.edge? other).map (changed id change) := by
  rw [edge?,changeEdge,List.find?_map,edge?,Function.comp_def]
  simp only [changed_id]

theorem changeEdge_other (id : ε) (change : β → β) (graph : PropertyGraph ν ε α β) (other : ε)
    (apart : other ≠ id) : (graph.changeEdge id change).edge? other = graph.edge? other := by
  rw [changeEdge_finds]
  cases found : graph.edge? other with
  | none => rfl
  | some edge =>
    have named : edge.id = other := ((graph.edge?_some other edge).mp found).2
    rw [Option.map_some,changed,if_neg (named ▸ apart)]

theorem absent_apart (id : ε) (graph : PropertyGraph ν ε α β) (absent : graph.edge? id = none)
    (edge : Edge ν ε β) (member : edge ∈ graph.edges) : edge.id ≠ id := fun named =>
  (graph.edge?_none id).mp absent (named ▸ List.mem_map_of_mem member)

theorem changeEdge_absent (id : ε) (change : β → β) (graph : PropertyGraph ν ε α β)
    (absent : graph.edge? id = none) : graph.changeEdge id change = graph := by
  have same : graph.edges.map (changed id change) = graph.edges.map (fun edge => edge) :=
    List.map_congr_left fun edge member => if_neg (absent_apart id graph absent edge member)
  rw [List.map_id'] at same
  unfold changeEdge
  simp [same]

theorem eraseEdge_absent (id : ε) (graph : PropertyGraph ν ε α β) (absent : graph.edge? id = none) :
    graph.eraseEdge id = graph := by
  have same : (graph.edges.filter fun edge => edge.id != id) = graph.edges :=
    List.filter_eq_self.mpr fun edge member => by
      simpa using absent_apart id graph absent edge member
  unfold eraseEdge
  simp [same]

theorem eraseEdge_finds (id : ε) (graph : PropertyGraph ν ε α β) (other : ε) :
    (graph.eraseEdge id).edge? other = if other = id then none else graph.edge? other := by
  rw [edge?,eraseEdge,List.find?_filter]
  split
  · rename_i here
    subst here
    simp
  · rename_i apart
    rw [edge?]
    congr 1
    ext edge
    by_cases named : edge.id = other
    · simp [named,apart]
    · simp [named]

theorem eraseEdge_ids (id : ε) (graph : PropertyGraph ν ε α β) :
    (graph.eraseEdge id).ids = graph.ids.filter fun other => other != id := by
  rw [ids,eraseEdge,ids,List.filter_map]
  rfl

theorem eraseEdge_length (id : ε) (graph : PropertyGraph ν ε α β) (held : id ∈ graph.ids) :
    (graph.eraseEdge id).edges.length + 1 = graph.edges.length := by
  have counted (graph : PropertyGraph ν ε α β) : graph.edges.length = graph.ids.length :=
    (List.length_map _).symm
  have nonempty : 0 < graph.ids.length := List.length_pos_of_mem held
  have erased : (graph.ids.filter fun other => other != id) = graph.ids.erase id :=
    (List.Nodup.erase_eq_filter graph.ids_nodup id).symm
  rw [counted,counted,eraseEdge_ids,erased,List.length_erase_of_mem held]
  omega

theorem addEdge_linked (edge : Edge ν ε β) (graph : PropertyGraph ν ε α β) (linked : graph.Linked)
    (ends : ∀ tip, graph.nodes (edge.at tip) ≠ none) : (graph.addEdge edge).Linked := by
  intro other member tip
  rw [addEdge_nodes]
  unfold addEdge at member
  split at member
  · rcases List.mem_append.mp member with old | new
    · exact linked other old tip
    · rw [List.mem_singleton.mp new]
      exact ends tip
  · exact linked other member tip

theorem changeEdge_linked (id : ε) (change : β → β) (graph : PropertyGraph ν ε α β)
    (linked : graph.Linked) : (graph.changeEdge id change).Linked := by
  intro other member tip
  obtain ⟨edge,inside,rfl⟩ := List.mem_map.mp member
  rw [changed_at]
  exact linked edge inside tip

theorem eraseEdge_linked (id : ε) (graph : PropertyGraph ν ε α β) (linked : graph.Linked) :
    (graph.eraseEdge id).Linked :=
  fun edge member => linked edge (List.mem_filter.mp member).1

end Edges

section Lists

variable [DecidableEq ν] [DecidableEq ε]

theorem attached_mem (tip : End) (node : ν) (graph : PropertyGraph ν ε α β) (id : ε) :
    id ∈ graph.attached tip node ↔ ∃ edge, graph.edge? id = some edge ∧ edge.at tip = node := by
  simp only [attached,List.mem_map,List.mem_filter,edge?_some,decide_eq_true_eq]
  exact ⟨fun ⟨edge,⟨member,ends⟩,named⟩ => ⟨edge,⟨member,named⟩,ends⟩,
    fun ⟨edge,⟨member,named⟩,ends⟩ => ⟨edge,⟨member,ends⟩,named⟩⟩

theorem addEdge_attached (tip : End) (node : ν) (edge : Edge ν ε β) (graph : PropertyGraph ν ε α β)
    (fresh : edge.id ∉ graph.ids) :
    (graph.addEdge edge).attached tip node =
      graph.attached tip node ++ if edge.at tip = node then [edge.id] else [] := by
  rw [attached,addEdge_edges edge graph fresh,List.filter_append,List.map_append]
  congr 1
  by_cases here : edge.at tip = node <;> simp [here]

theorem changeEdge_attached (tip : End) (node : ν) (id : ε) (change : β → β)
    (graph : PropertyGraph ν ε α β) :
    (graph.changeEdge id change).attached tip node = graph.attached tip node := by
  rw [attached,changeEdge,List.filter_map,changed_ids,attached]
  simp [Function.comp_def]

theorem eraseEdge_attached (tip : End) (node : ν) (id : ε) (graph : PropertyGraph ν ε α β) :
    (graph.eraseEdge id).attached tip node =
      (graph.attached tip node).filter fun other => other != id := by
  rw [attached,eraseEdge,attached,List.filter_map,List.filter_filter,List.filter_filter]
  congr 1
  apply List.filter_congr
  intro edge _
  exact Bool.and_comm _ _

theorem eraseEdge_apart (tip : End) (node : ν) (id : ε) (graph : PropertyGraph ν ε α β)
    (edge : Edge ν ε β) (found : graph.edge? id = some edge) (apart : edge.at tip ≠ node) :
    (graph.eraseEdge id).attached tip node = graph.attached tip node := by
  rw [eraseEdge_attached]
  apply List.filter_eq_self.mpr
  intro other listed
  have distinct : other ≠ id := by
    rintro rfl
    obtain ⟨held,same,ends⟩ := (attached_mem tip node graph other).mp listed
    rw [found] at same
    cases same
    exact apart ends
  simpa using distinct

end Lists

end PropertyGraph

end LoreDB.Library
