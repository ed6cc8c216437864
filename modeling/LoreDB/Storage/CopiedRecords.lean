import LoreDB.Library.AccessLog
import LoreDB.Storage.OpenStores
import LoreDB.Storage.RefusedVersions
import Mathlib.Algebra.GroupWithZero.Nat
import Mathlib.Data.Nat.Log

/-! The operations with what they copy into the buffer of a page: the header, and behind it a record of any
length. Nothing checks the length, so a record stays inside the buffer exactly where its properties are short
enough, or where no call succeeds. -/
namespace LoreDB.Storage.CopiedRecords
open LoreDB.Library.AccessLog LoreDB.Util GraphStore GraphHistory RecordSerializer

/-! How many bytes the properties take. -/

section Sizes

def numberSize (value : UInt64) : Nat := Nat.log 128 value.toNat + 1

/-- Bytes behind their number. -/
def countedSize (bytes : Bytes) : Nat := numberSize (UInt64.ofNat bytes.length) + bytes.length

def valueSize : PropertyValue → Nat
  | .string text => countedSize text
  | .integer value => numberSize (ZigZag.encode value)
  | .float _ => 8
  | .boolean _ => 1
  | .bytes content => countedSize content

/-- The type of the value takes one byte. -/
def propertySize (prop : Property) : Nat := countedSize prop.key + (1 + valueSize prop.value)

def propertiesSize (properties : List Property) : Nat :=
  numberSize (UInt64.ofNat properties.length) + (properties.map propertySize).sum

theorem encode_size (value : UInt64) (room : Nat) (enough : value.toNat < 128 ^ (room + 1)) :
    ∃ bytes, VarInt.encode value (room + 1) = some bytes ∧ bytes.length = numberSize value := by
  induction room generalizing value with
  | zero =>
    have small : ¬0x80 ≤ value := (VarInt.small_iff value).mpr (by simpa using enough)
    refine ⟨_,by rw [VarInt.encode,if_neg small],?_⟩
    rw [numberSize,Nat.log_of_lt (by simpa using enough)]
    rfl
  | succ room ih =>
    by_cases more : 0x80 ≤ value
    · have large : 128 ≤ value.toNat := UInt64.le_iff_toNat_le.mp more
      have fewer : (value >>> 7).toNat < 128 ^ (room + 1) := by
        rw [VarInt.shifted]
        exact Nat.div_lt_of_lt_mul (by rwa [Nat.pow_succ,Nat.mul_comm] at enough)
      obtain ⟨bytes,encodes,length⟩ := ih (value >>> 7) fewer
      refine ⟨_,by rw [VarInt.encode,if_pos more,encodes]; rfl,?_⟩
      rw [List.length_cons,length,numberSize,numberSize,VarInt.shifted,
        Nat.log_of_one_lt_of_le (by decide) large]
    · refine ⟨_,by rw [VarInt.encode,if_neg more],?_⟩
      rw [numberSize,Nat.log_of_lt ((VarInt.small_iff value).mp more)]
      rfl

theorem writeVarint_size (value : UInt64) : (writeVarint value).length = numberSize value := by
  have enough : value.toNat < 128 ^ (9 + 1) := value.toNat_lt.trans (by decide)
  obtain ⟨bytes,encodes,length⟩ := encode_size value 9 enough
  rw [writeVarint,encodes]
  exact length

theorem writeString_size (text : Bytes) : (writeString text).length = countedSize text := by
  rw [writeString,List.length_append,writeVarint_size,countedSize]

theorem writePropertyValue_size (value : PropertyValue) :
    (writePropertyValue value).length = 1 + valueSize value := by
  cases value with
  | string text => rw [writePropertyValue,List.length_cons,writeString_size,valueSize,Nat.add_comm]
  | integer value => rw [writePropertyValue,List.length_cons,writeVarint_size,valueSize,Nat.add_comm]
  | float bits => rw [writePropertyValue,List.length_cons,LoreDB.Library.ByteStream.littleEndian_length,valueSize]
  | boolean value => rfl
  | bytes content => rw [writePropertyValue,List.length_cons,writeString_size,valueSize,Nat.add_comm]

theorem serializeProperties_size (properties : List Property) :
    (serializeProperties properties).length = propertiesSize properties := by
  have each (prop : Property) : (writeString prop.key ++ writePropertyValue prop.value).length = propertySize prop := by
    rw [List.length_append,writeString_size,writePropertyValue_size,propertySize]
  rw [serializeProperties,List.length_append,writeVarint_size,List.length_flatMap,propertiesSize]
  simp only [each]

end Sizes

/-! The operations. -/

section Operations

variable {σ : Type} [PageStore σ]

/-- What a call returns, and where its copies into the buffer of a page end. -/
abbrev Copied (σ α : Type) := (Except Error α × GraphStore σ) × List Access

def storeRecord (type : PageType) (serialized : Bytes) (store : GraphStore σ) : Copied σ PageId :=
  match PageStore.allocatePage store.pageStore with
  | (.error e,pages) => ((.error e,{store with pageStore := pages}),[])
  | (.ok page,pages) =>
    let copies := [⟨48,pageSize⟩,⟨48 + serialized.length,pageSize⟩]
    match PageStore.writePage page (pageImage page type serialized) pages with
    | (.error e,pages) => ((.error e,{store with pageStore := pages}),copies)
    | (.ok (),pages) => ((.ok page,{store with pageStore := pages}),copies)

def storeNodeRecord (nodeId : NodeId) (node : NodeRecord) (properties : List Property) (store : GraphStore σ) :
    Copied σ Unit :=
  match storeRecord .node (serializeNode node properties) store with
  | ((.error e,store),copies) => ((.error e,store),copies)
  | ((.ok page,store),copies) =>
    ((.ok (),{store with nodePageIndex := Function.update store.nodePageIndex nodeId (some page)}),copies)

def storeEdgeRecord (edgeId : EdgeId) (edge : EdgeRecord) (properties : List Property) (store : GraphStore σ) :
    Copied σ Unit :=
  match storeRecord .edge (serializeEdge edge properties) store with
  | ((.error e,store),copies) => ((.error e,store),copies)
  | ((.ok page,store),copies) =>
    ((.ok (),{store with edgePageIndex := Function.update store.edgePageIndex edgeId (some page)}),copies)

def createNode (properties : List Property) (store : GraphStore σ) : Copied σ NodeId :=
  let nodeId := store.nextNodeId
  let node : NodeRecord := {id := nodeId, propertyCount := UInt32.ofNat properties.length}
  match storeNodeRecord nodeId node properties {store with nextNodeId := nodeId + 1} with
  | ((.error e,store),copies) => ((.error e,store),copies)
  | ((.ok (),store),copies) => ((.ok nodeId,{store with nodeCount := store.nodeCount + 1}),copies)

def updateNode (nodeId : NodeId) (properties : List Property) (store : GraphStore σ) : Copied σ Unit :=
  match getNode nodeId store with
  | (.error e,store) => ((.error e,store),[])
  | (.ok (node,_),store) =>
    storeNodeRecord nodeId {node with propertyCount := UInt32.ofNat properties.length} properties store

def createEdge (hash : Bytes → UInt64) (clock : UInt64) (fromNode toNode : NodeId) (label : Bytes)
    (properties : List Property) (store : GraphStore σ) : Copied σ EdgeId :=
  let edgeId := store.nextEdgeId
  let edge : EdgeRecord := {
    id := edgeId
    fromNode := fromNode
    toNode := toNode
    labelId := (hash label).toUInt32
    propertyCount := UInt32.ofNat properties.length
    timestamp := clock}
  match storeEdgeRecord edgeId edge properties {store with nextEdgeId := edgeId + 1} with
  | ((.error e,store),copies) => ((.error e,store),copies)
  | ((.ok (),store),copies) =>
    let store := updateAdjacencyLists fromNode toNode edgeId true store
    ((.ok edgeId,{store with edgeCount := store.edgeCount + 1}),copies)

def updateEdge (edgeId : EdgeId) (properties : List Property) (store : GraphStore σ) : Copied σ Unit :=
  match getEdge edgeId store with
  | (.error e,store) => ((.error e,store),[])
  | (.ok (edge,_),store) =>
    storeEdgeRecord edgeId {edge with propertyCount := UInt32.ofNat properties.length} properties store

end Operations

/-! Without the copies these are the operations of the graph store. -/

section Erasure

variable {σ : Type} [PageStore σ]

theorem storeRecord_erased (type : PageType) (serialized : Bytes) (store : GraphStore σ) :
    (storeRecord type serialized store).1 = GraphStore.storeRecord type serialized store := by
  unfold storeRecord GraphStore.storeRecord
  rcases PageStore.allocatePage store.pageStore with ⟨e | page,pages⟩
  · rfl
  · dsimp only
    rcases PageStore.writePage page (pageImage page type serialized) pages with ⟨e | _,last⟩
    · rfl
    · rfl

theorem storeNodeRecord_erased (nodeId : NodeId) (node : NodeRecord) (properties : List Property)
    (store : GraphStore σ) :
    (storeNodeRecord nodeId node properties store).1 = GraphStore.storeNodeRecord nodeId node properties store := by
  have same := storeRecord_erased .node (serializeNode node properties) store
  unfold storeNodeRecord GraphStore.storeNodeRecord
  rw [← same]
  rcases storeRecord .node (serializeNode node properties) store with ⟨⟨_ | page,next⟩,copies⟩
  · rfl
  · rfl

theorem storeEdgeRecord_erased (edgeId : EdgeId) (edge : EdgeRecord) (properties : List Property)
    (store : GraphStore σ) :
    (storeEdgeRecord edgeId edge properties store).1 = GraphStore.storeEdgeRecord edgeId edge properties store := by
  have same := storeRecord_erased .edge (serializeEdge edge properties) store
  unfold storeEdgeRecord GraphStore.storeEdgeRecord
  rw [← same]
  rcases storeRecord .edge (serializeEdge edge properties) store with ⟨⟨_ | page,next⟩,copies⟩
  · rfl
  · rfl

theorem createNode_erased (properties : List Property) (store : GraphStore σ) :
    (createNode properties store).1 = GraphStore.createNode properties store := by
  unfold createNode GraphStore.createNode
  dsimp only
  rw [← storeNodeRecord_erased]
  rcases storeNodeRecord store.nextNodeId _ properties _ with ⟨⟨e | _,next⟩,copies⟩
  · rfl
  · rfl

theorem updateNode_erased (nodeId : NodeId) (properties : List Property) (store : GraphStore σ) :
    (updateNode nodeId properties store).1 = GraphStore.updateNode nodeId properties store := by
  unfold updateNode GraphStore.updateNode
  rcases getNode nodeId store with ⟨e | record,next⟩
  · rfl
  · exact storeNodeRecord_erased ..

theorem createEdge_erased (hash : Bytes → UInt64) (clock : UInt64) (fromNode toNode : NodeId) (label : Bytes)
    (properties : List Property) (store : GraphStore σ) :
    (createEdge hash clock fromNode toNode label properties store).1 =
      GraphStore.createEdge hash clock fromNode toNode label properties store := by
  unfold createEdge GraphStore.createEdge
  dsimp only
  rw [← storeEdgeRecord_erased]
  rcases storeEdgeRecord store.nextEdgeId _ properties _ with ⟨⟨e | _,next⟩,copies⟩
  · rfl
  · rfl

theorem updateEdge_erased (edgeId : EdgeId) (properties : List Property) (store : GraphStore σ) :
    (updateEdge edgeId properties store).1 = GraphStore.updateEdge edgeId properties store := by
  unfold updateEdge GraphStore.updateEdge
  rcases getEdge edgeId store with ⟨e | record,next⟩
  · rfl
  · exact storeEdgeRecord_erased ..

end Erasure

/-! Where the copies end. -/

section Copies

variable {σ : Type} [PageStore σ] (hash : Bytes → UInt64)

/-- What an operation copies. Deletions write no page, and in a transaction the same is copied. -/
def copies (store : GraphStore σ) : Operation → List Access
  | .createNode properties => (createNode properties store).2
  | .updateNode id properties => (updateNode id properties store).2
  | .createEdge clock fromNode toNode label properties =>
    (createEdge hash clock fromNode toNode label properties store).2
  | .updateEdge id properties => (updateEdge id properties store).2
  | .deleteNode _ | .deleteEdge _ => []

/-- The properties fit a page behind its header and their record. -/
def RecordFits (operation : Operation) : Prop :=
  48 + (48 + propertiesSize (GraphRefinement.properties operation)) ≤ pageSize

/-- A header and a record with these properties are copied. -/
def recordCopies (properties : List Property) : List Access :=
  [⟨48,pageSize⟩,⟨48 + (48 + propertiesSize properties),pageSize⟩]

theorem storeRecord_copies (type : PageType) (serialized : Bytes) (store : GraphStore σ) :
    ((storeRecord type serialized store).2 = [] ∧ ∃ e, (storeRecord type serialized store).1.1 = .error e) ∨
      (storeRecord type serialized store).2 = [⟨48,pageSize⟩,⟨48 + serialized.length,pageSize⟩] := by
  unfold storeRecord
  rcases PageStore.allocatePage store.pageStore with ⟨e | page,pages⟩
  · exact .inl ⟨rfl,e,rfl⟩
  · dsimp only
    rcases PageStore.writePage page (pageImage page type serialized) pages with ⟨e | _,last⟩
    · exact .inr rfl
    · exact .inr rfl

theorem storeNodeRecord_copies (nodeId : NodeId) (node : NodeRecord) (properties : List Property)
    (store : GraphStore σ) :
    ((storeNodeRecord nodeId node properties store).2 = [] ∧
        ∃ e, (storeNodeRecord nodeId node properties store).1.1 = .error e) ∨
      (storeNodeRecord nodeId node properties store).2 = recordCopies properties := by
  have copied := storeRecord_copies .node (serializeNode node properties) store
  rw [serializeNode,List.length_append,nodeBytes_length,serializeProperties_size] at copied
  unfold storeNodeRecord
  rw [serializeNode]
  revert copied
  rcases storeRecord .node (nodeBytes node ++ serializeProperties properties) store with ⟨⟨e | page,next⟩,copies⟩
  · rintro (⟨empty,-⟩ | whole)
    · exact .inl ⟨empty,e,rfl⟩
    · exact .inr whole
  · rintro (⟨-,_,absurd⟩ | whole)
    · cases absurd
    · exact .inr whole

theorem storeEdgeRecord_copies (edgeId : EdgeId) (edge : EdgeRecord) (properties : List Property)
    (store : GraphStore σ) :
    ((storeEdgeRecord edgeId edge properties store).2 = [] ∧
        ∃ e, (storeEdgeRecord edgeId edge properties store).1.1 = .error e) ∨
      (storeEdgeRecord edgeId edge properties store).2 = recordCopies properties := by
  have copied := storeRecord_copies .edge (serializeEdge edge properties) store
  rw [serializeEdge,List.length_append,edgeBytes_length,serializeProperties_size] at copied
  unfold storeEdgeRecord
  rw [serializeEdge]
  revert copied
  rcases storeRecord .edge (edgeBytes edge ++ serializeProperties properties) store with ⟨⟨e | page,next⟩,copies⟩
  · rintro (⟨empty,-⟩ | whole)
    · exact .inl ⟨empty,e,rfl⟩
    · exact .inr whole
  · rintro (⟨-,_,absurd⟩ | whole)
    · cases absurd
    · exact .inr whole

/-- An operation that hands over properties reports an error before it copies anything, or copies them whole. -/
theorem operation_copies (store : GraphStore σ) (operation : Operation)
    (writes : (∀ id, operation ≠ .deleteNode id) ∧ ∀ id, operation ≠ .deleteEdge id) :
    (copies hash store operation = [] ∧ ∃ e, GraphRefinement.answer hash store operation = .error e) ∨
      copies hash store operation = recordCopies (GraphRefinement.properties operation) := by
  unfold GraphRefinement.answer
  cases operation with
  | createNode properties =>
    dsimp only [copies,GraphRefinement.properties]
    rw [← createNode_erased]
    unfold createNode
    dsimp only
    have copied := storeNodeRecord_copies store.nextNodeId
      {id := store.nextNodeId, propertyCount := UInt32.ofNat properties.length} properties
      {store with nextNodeId := store.nextNodeId + 1}
    revert copied
    rcases storeNodeRecord store.nextNodeId _ properties _ with ⟨⟨e | _,next⟩,copies⟩
    · exact fun copied => copied.imp_left fun ⟨empty,_⟩ => ⟨empty,e,rfl⟩
    · exact fun copied => copied.imp_left fun ⟨_,_,absurd⟩ => nomatch absurd
  | updateNode id properties =>
    dsimp only [copies,GraphRefinement.properties]
    rw [← updateNode_erased]
    unfold updateNode
    rcases getNode id store with ⟨e | record,next⟩
    · exact .inl ⟨rfl,e,rfl⟩
    · exact (storeNodeRecord_copies ..).imp_left fun ⟨empty,e,fails⟩ =>
        ⟨empty,e,congrArg (Except.map fun _ => id) fails⟩
  | createEdge clock fromNode toNode label properties =>
    dsimp only [copies,GraphRefinement.properties]
    rw [← createEdge_erased]
    unfold createEdge
    dsimp only
    generalize ({
      id := store.nextEdgeId
      fromNode := fromNode
      toNode := toNode
      labelId := (hash label).toUInt32
      propertyCount := UInt32.ofNat properties.length
      timestamp := clock} : EdgeRecord) = edge
    have copied := storeEdgeRecord_copies store.nextEdgeId edge properties
      {store with nextEdgeId := store.nextEdgeId + 1}
    revert copied
    rcases storeEdgeRecord store.nextEdgeId _ properties _ with ⟨⟨e | _,next⟩,copies⟩
    · exact fun copied => copied.imp_left fun ⟨empty,_⟩ => ⟨empty,e,rfl⟩
    · exact fun copied => copied.imp_left fun ⟨_,_,absurd⟩ => nomatch absurd
  | updateEdge id properties =>
    dsimp only [copies,GraphRefinement.properties]
    rw [← updateEdge_erased]
    unfold updateEdge
    rcases getEdge id store with ⟨e | record,next⟩
    · exact .inl ⟨rfl,e,rfl⟩
    · exact (storeEdgeRecord_copies ..).imp_left fun ⟨empty,e,fails⟩ =>
        ⟨empty,e,congrArg (Except.map fun _ => id) fails⟩
  | deleteNode id => exact absurd rfl (writes.1 id)
  | deleteEdge id => exact absurd rfl (writes.2 id)

/-! When an operation reports an error. -/

/-- The page store hands out no page for a record, or does not write it. -/
def Unstored (type : PageType) (serialized : Bytes) (pages : σ) : Prop :=
  ∀ page after, PageStore.allocatePage pages = (.ok page,after) →
    ∃ e, (PageStore.writePage page (pageImage page type serialized) after).1 = .error e

/-- The record that is to change is not read, or the new one is not stored. -/
def Stops (store : GraphStore σ) : Operation → Prop
  | .createNode properties => Unstored .node
      (serializeNode (GraphRefinement.nodeRecord store.nextNodeId properties) properties) store.pageStore
  | .updateNode id properties => ∀ node old next, getNode id store = (.ok (node,old),next) → Unstored .node
      (serializeNode {node with propertyCount := UInt32.ofNat properties.length} properties) next.pageStore
  | .createEdge clock fromNode toNode label properties => Unstored .edge (serializeEdge {
      id := store.nextEdgeId
      fromNode := fromNode
      toNode := toNode
      labelId := (hash label).toUInt32
      propertyCount := UInt32.ofNat properties.length
      timestamp := clock} properties) store.pageStore
  | .updateEdge id properties => ∀ edge old next, getEdge id store = (.ok (edge,old),next) → Unstored .edge
      (serializeEdge {edge with propertyCount := UInt32.ofNat properties.length} properties) next.pageStore
  | .deleteNode _ | .deleteEdge _ => False

theorem storeRecord_stops (type : PageType) (serialized : Bytes) (store : GraphStore σ) :
    (∃ e, (GraphStore.storeRecord type serialized store).1 = .error e) ↔
      Unstored type serialized store.pageStore := by
  unfold GraphStore.storeRecord Unstored
  rcases PageStore.allocatePage store.pageStore with ⟨e | page,pages⟩
  · exact ⟨fun _ _ _ absurd => (nomatch absurd),fun _ => ⟨e,rfl⟩⟩
  · dsimp only
    have exact (unstored : ∃ e, (PageStore.writePage page (pageImage page type serialized) pages).1 = .error e) :
        ∀ target after, (Except.ok page,pages) = ((Except.ok target : Except Error PageId),after) →
          ∃ e, (PageStore.writePage target (pageImage target type serialized) after).1 = .error e := by
      intro target after same
      cases same
      exact unstored
    rcases wrote : PageStore.writePage page (pageImage page type serialized) pages with ⟨e | _,last⟩
    · exact ⟨fun _ => exact ⟨e,by rw [wrote]⟩,fun _ => ⟨e,rfl⟩⟩
    · refine ⟨fun ⟨_,absurd⟩ => (nomatch absurd),fun unstored => ?_⟩
      obtain ⟨e,fails⟩ := unstored page pages rfl
      rw [wrote] at fails
      cases fails

theorem storeNodeRecord_stops (nodeId : NodeId) (node : NodeRecord) (properties : List Property)
    (store : GraphStore σ) :
    (∃ e, (GraphStore.storeNodeRecord nodeId node properties store).1 = .error e) ↔
      Unstored .node (serializeNode node properties) store.pageStore := by
  rw [← storeRecord_stops]
  unfold GraphStore.storeNodeRecord
  rcases GraphStore.storeRecord .node (serializeNode node properties) store with ⟨e | page,next⟩
  · exact ⟨fun _ => ⟨e,rfl⟩,fun _ => ⟨e,rfl⟩⟩
  · exact ⟨fun ⟨_,absurd⟩ => (nomatch absurd),fun ⟨_,absurd⟩ => (nomatch absurd)⟩

theorem storeEdgeRecord_stops (edgeId : EdgeId) (edge : EdgeRecord) (properties : List Property)
    (store : GraphStore σ) :
    (∃ e, (GraphStore.storeEdgeRecord edgeId edge properties store).1 = .error e) ↔
      Unstored .edge (serializeEdge edge properties) store.pageStore := by
  rw [← storeRecord_stops]
  unfold GraphStore.storeEdgeRecord
  rcases GraphStore.storeRecord .edge (serializeEdge edge properties) store with ⟨e | page,next⟩
  · exact ⟨fun _ => ⟨e,rfl⟩,fun _ => ⟨e,rfl⟩⟩
  · exact ⟨fun ⟨_,absurd⟩ => (nomatch absurd),fun ⟨_,absurd⟩ => (nomatch absurd)⟩

theorem map_fails {α β : Type} (result : Except Error α) (f : α → β) :
    (∃ e, result.map f = .error e) ↔ ∃ e, result = .error e := by
  cases result with
  | error e => exact ⟨fun _ => ⟨e,rfl⟩,fun _ => ⟨e,rfl⟩⟩
  | ok a => exact ⟨fun ⟨_,absurd⟩ => (nomatch absurd),fun ⟨_,absurd⟩ => (nomatch absurd)⟩

theorem answer_stops (store : GraphStore σ) (operation : Operation)
    (writes : (∀ id, operation ≠ .deleteNode id) ∧ ∀ id, operation ≠ .deleteEdge id) :
    (∃ e, GraphRefinement.answer hash store operation = .error e) ↔ Stops hash store operation := by
  unfold GraphRefinement.answer Stops
  cases operation with
  | createNode properties =>
    dsimp only
    rw [show store.pageStore = ({store with nextNodeId := store.nextNodeId + 1} : GraphStore σ).pageStore from rfl,
      ← storeNodeRecord_stops store.nextNodeId]
    unfold GraphStore.createNode GraphRefinement.nodeRecord
    dsimp only
    rcases GraphStore.storeNodeRecord store.nextNodeId _ properties _ with ⟨e | _,next⟩
    · exact ⟨fun _ => ⟨e,rfl⟩,fun _ => ⟨e,rfl⟩⟩
    · exact ⟨fun ⟨_,absurd⟩ => (nomatch absurd),fun ⟨_,absurd⟩ => (nomatch absurd)⟩
  | updateNode id properties =>
    dsimp only
    rw [map_fails]
    unfold GraphStore.updateNode
    rcases getNode id store with ⟨e | ⟨node,old⟩,next⟩
    · exact ⟨fun _ _ _ _ absurd => (nomatch absurd),fun _ => ⟨e,rfl⟩⟩
    · dsimp only
      rw [storeNodeRecord_stops]
      refine ⟨fun unstored _ _ _ same => ?_,fun each => each node old next rfl⟩
      cases same
      exact unstored
  | createEdge clock fromNode toNode label properties =>
    dsimp only
    rw [show store.pageStore = ({store with nextEdgeId := store.nextEdgeId + 1} : GraphStore σ).pageStore from rfl,
      ← storeEdgeRecord_stops store.nextEdgeId]
    unfold GraphStore.createEdge
    dsimp only
    rcases GraphStore.storeEdgeRecord store.nextEdgeId _ properties _ with ⟨e | _,next⟩
    · exact ⟨fun _ => ⟨e,rfl⟩,fun _ => ⟨e,rfl⟩⟩
    · exact ⟨fun ⟨_,absurd⟩ => (nomatch absurd),fun ⟨_,absurd⟩ => (nomatch absurd)⟩
  | updateEdge id properties =>
    dsimp only
    rw [map_fails]
    unfold GraphStore.updateEdge
    rcases getEdge id store with ⟨e | ⟨edge,old⟩,next⟩
    · exact ⟨fun _ _ _ _ absurd => (nomatch absurd),fun _ => ⟨e,rfl⟩⟩
    · dsimp only
      rw [storeEdgeRecord_stops]
      refine ⟨fun unstored _ _ _ same => ?_,fun each => each edge old next rfl⟩
      cases same
      exact unstored
  | deleteNode id => exact absurd rfl (writes.1 id)
  | deleteEdge id => exact absurd rfl (writes.2 id)

/-- The version of a node is refused. -/
def VersionRefused (txId : Nat) (store : GraphStore σ) (operation : Operation) : Prop :=
  RefusedVersions.refusal operation ≠ none ∧ ∃ manager, store.mvccManager = some manager ∧
    (manager.lockManager.lock txId (operation.key store) .exclusive).1 = .refused

omit [PageStore σ] in
theorem versioned_disabled {α : Type} (result : α) (refused : Option String) (op : String) (key : UInt64)
    (version : Transaction.Version) (store : GraphStore σ) (disabled : store.mvccManager = none) :
    (versioned result refused op key version store).1 = some (.ok result) := by
  unfold versioned writeVersion
  rw [disabled]

theorem perform_disabled (txId : Nat) (store : GraphStore σ) (operation : Operation)
    (disabled : store.mvccManager = none)
    (writes : (∀ id, operation ≠ .deleteNode id) ∧ ∀ id, operation ≠ .deleteEdge id) :
    (perform hash txId store operation).1 = some (GraphRefinement.answer hash store operation) := by
  have versions : (plain hash store operation).mvccManager = none := by
    have kept : KeptPages.Kept RefusedVersions.anything store _ := KeptPages.plain_keeps hash store operation
    rw [kept.versions,disabled]
  cases operation with
  | createNode properties =>
    simp only [perform,createNodeTx,GraphRefinement.answer,plain] at versions ⊢
    rcases created : GraphStore.createNode properties store with ⟨e | id,next⟩
    · rfl
    · rw [created] at versions
      dsimp only at versions ⊢
      rw [versions]
      rfl
  | updateNode id properties =>
    simp only [perform,updateNodeTx,GraphRefinement.answer,plain] at versions ⊢
    rcases updated : GraphStore.updateNode id properties store with ⟨e | _,next⟩
    · rfl
    · rw [updated] at versions
      exact congrArg (Option.map _) (versioned_disabled () _ _ _ _ next versions)
  | createEdge clock fromNode toNode label properties =>
    simp only [perform,createEdgeTx,GraphRefinement.answer,plain] at versions ⊢
    rcases created : GraphStore.createEdge hash clock fromNode toNode label properties store with ⟨e | id,next⟩
    · rfl
    · rw [created] at versions
      exact versioned_disabled id _ _ _ _ next versions
  | updateEdge id properties =>
    simp only [perform,updateEdgeTx,GraphRefinement.answer,plain] at versions ⊢
    rcases updated : GraphStore.updateEdge id properties store with ⟨e | _,next⟩
    · rfl
    · rw [updated] at versions
      exact congrArg (Option.map _) (versioned_disabled () _ _ _ _ next versions)
  | deleteNode id => exact absurd rfl (writes.1 id)
  | deleteEdge id => exact absurd rfl (writes.2 id)

/-- A transaction's call fails with the operation, or with the version of a node. -/
theorem perform_stops (txId : Nat) (store : GraphStore σ) (operation : Operation)
    (writes : (∀ id, operation ≠ .deleteNode id) ∧ ∀ id, operation ≠ .deleteEdge id) :
    (∃ e, (perform hash txId store operation).1 = some (.error e)) ↔
      (∃ e, GraphRefinement.answer hash store operation = .error e) ∨ VersionRefused txId store operation := by
  cases present : store.mvccManager with
  | none =>
    rw [perform_disabled hash txId store operation present writes]
    refine ⟨fun ⟨e,fails⟩ => .inl ⟨e,Option.some.inj fails⟩,?_⟩
    rintro (⟨e,fails⟩ | ⟨-,manager,enabled,-⟩)
    · exact ⟨e,congrArg some fails⟩
    · cases present.symm.trans enabled
  | some manager =>
    have enabled : store.mvccManager.isSome = true := by rw [present]; rfl
    have versions := RefusedVersions.firstPart_versions hash store operation
    have writer := (version_legal hash txId store operation).1
    rw [RefusedVersions.perform_parts hash txId store operation enabled]
    rw [RefusedVersions.firstPart_plain hash store operation writes.1] at versions ⊢
    dsimp only at versions
    rw [present] at versions
    have locked : VersionRefused txId store operation ↔ RefusedVersions.refusal operation ≠ none ∧
        (RefusedVersions.asked (operation.key store) (operation.version hash txId store) manager).1 =
          .refused := by
      unfold VersionRefused RefusedVersions.asked
      rw [writer,present]
      simp
    rw [locked]
    cases answered : GraphRefinement.answer hash store operation with
    | error e => exact ⟨fun _ => .inl ⟨e,rfl⟩,fun _ => ⟨e,rfl⟩⟩
    | ok key =>
      dsimp only
      cases outcome : (RefusedVersions.asked (operation.key store) (operation.version hash txId store) manager).1 with
      | waiting =>
        rw [RefusedVersions.versioned_waiting _ _ _ _ _ _ manager versions outcome]
        exact ⟨fun ⟨_,absurd⟩ => (nomatch absurd),fun stops => stops.elim (fun ⟨_,absurd⟩ => (nomatch absurd))
          fun ⟨_,absurd⟩ => (nomatch absurd)⟩
      | granted =>
        obtain ⟨later,wal,-,same⟩ := RefusedVersions.versioned_granted (operation.key store)
          (RefusedVersions.refusal operation) (RefusedVersions.name operation) (operation.key store)
          (operation.version hash txId store) _ manager versions outcome
        rw [same]
        exact ⟨fun ⟨_,absurd⟩ => (nomatch absurd),fun stops => stops.elim (fun ⟨_,absurd⟩ => (nomatch absurd))
          fun ⟨_,absurd⟩ => (nomatch absurd)⟩
      | refused =>
        obtain ⟨wal,same⟩ := RefusedVersions.versioned_refused (operation.key store)
          (RefusedVersions.refusal operation) (RefusedVersions.name operation) (operation.key store)
          (operation.version hash txId store) _ manager versions outcome
        rw [same]
        cases RefusedVersions.refusal operation with
        | none =>
          exact ⟨fun ⟨_,absurd⟩ => (nomatch absurd),fun stops => stops.elim (fun ⟨_,absurd⟩ => (nomatch absurd))
            fun ⟨given,_⟩ => absurd rfl given⟩
        | some message => exact ⟨fun _ => .inr ⟨Option.some_ne_none _,rfl⟩,fun _ => ⟨_,rfl⟩⟩

/-! The records that stay inside their pages. -/

theorem recordCopies_inside (properties : List Property) :
    (∀ copy ∈ recordCopies properties, copy.Inside) ↔ 48 + (48 + propertiesSize properties) ≤ pageSize := by
  have header : 48 ≤ pageSize := by decide
  refine ⟨fun inside => inside _ (.tail _ (.head _)),fun fits copy member => ?_⟩
  rcases List.mem_cons.mp member with rfl | last
  · exact header
  · rw [List.mem_singleton.mp last]
    exact fits

/-- Where an operation that copies nothing has failed, its copies are inside exactly where the record fits. -/
theorem copies_inside (store : GraphStore σ) (operation : Operation) (failed : Prop)
    (writes : (∀ id, operation ≠ .deleteNode id) ∧ ∀ id, operation ≠ .deleteEdge id)
    (fails : (∃ e, GraphRefinement.answer hash store operation = .error e) → failed) :
    (failed ∨ ∀ copy ∈ copies hash store operation, copy.Inside) ↔ RecordFits operation ∨ failed := by
  rcases operation_copies hash store operation writes with ⟨empty,stopped⟩ | whole
  · exact ⟨fun _ => .inr (fails stopped),fun _ => .inl (fails stopped)⟩
  · rw [whole,recordCopies_inside,Or.comm]
    rfl

theorem deleted_fits (operation : Operation) (empty : GraphRefinement.properties operation = []) :
    RecordFits operation := by
  rw [RecordFits,empty]
  decide +kernel

/-- Every byte that an operation copies lies in the buffer of its page, or the operation reports an error, exactly
where the record fits or a page is not read, handed out or written; in a transaction also where the
version of a node is refused. -/
theorem records_inside (store : GraphStore σ) (operation : Operation) :
    ((∃ e, GraphRefinement.answer hash store operation = .error e) ∨
        (∀ copy ∈ copies hash store operation, copy.Inside) ↔
      RecordFits operation ∨ Stops hash store operation) ∧
    ∀ txId, ((∃ e, (perform hash txId store operation).1 = some (.error e)) ∨
        (∀ copy ∈ copies hash store operation, copy.Inside) ↔
      RecordFits operation ∨ Stops hash store operation ∨ VersionRefused txId store operation) := by
  by_cases writes : (∀ id, operation ≠ .deleteNode id) ∧ ∀ id, operation ≠ .deleteEdge id
  · constructor
    · rw [copies_inside hash store operation _ writes id,answer_stops hash store operation writes]
    · intro txId
      rw [perform_stops hash txId store operation writes,
        copies_inside hash store operation _ writes Or.inl,answer_stops hash store operation writes]
  · have untouched : RecordFits operation ∧ copies hash store operation = [] := by
      cases operation with
      | deleteNode id => exact ⟨deleted_fits _ rfl,rfl⟩
      | deleteEdge id => exact ⟨deleted_fits _ rfl,rfl⟩
      | createNode properties => exact absurd ⟨fun _ => nofun,fun _ => nofun⟩ writes
      | updateNode id properties => exact absurd ⟨fun _ => nofun,fun _ => nofun⟩ writes
      | createEdge clock fromNode toNode label properties => exact absurd ⟨fun _ => nofun,fun _ => nofun⟩ writes
      | updateEdge id properties => exact absurd ⟨fun _ => nofun,fun _ => nofun⟩ writes
    rw [untouched.2]
    exact ⟨⟨fun _ => .inl untouched.1,fun _ => .inr fun _ absurd => nomatch absurd⟩,
      fun txId => ⟨fun _ => .inl untouched.1,fun _ => .inr fun _ absurd => nomatch absurd⟩⟩

end Copies

/-- A text as long as a page. -/
def pageful : List Property := [⟨[],.string (List.replicate 4096 0)⟩]

theorem pageful_created :
    GraphRefinement.answer (fun _ => 0) (GraphRefinement.fresh none none) (.createNode pageful) = .ok 1 := by
  have isOpen : OpenStores.IsOpen (GraphRefinement.fresh none none) := rfl
  obtain ⟨next,stored,-⟩ := OpenStores.createNode_opens pageful isOpen
  exact congrArg Prod.fst stored

/-- Its node is created, and the copy of its record ends behind the buffer. -/
theorem pageful_outside :
    ¬((∃ e, GraphRefinement.answer (fun _ => 0) (GraphRefinement.fresh none none) (.createNode pageful) = .error e) ∨
      ∀ copy ∈ copies (fun _ => 0) (GraphRefinement.fresh none none) (.createNode pageful), copy.Inside) := by
  rw [copies_inside _ _ (.createNode pageful) _ ⟨fun _ => nofun,fun _ => nofun⟩ id,pageful_created]
  rintro (fits | ⟨e,absurd⟩)
  · exact absurd fits (by unfold RecordFits; decide +kernel)
  · cases absurd

end LoreDB.Storage.CopiedRecords
