import LoreDB.Storage.GraphFrame
import LoreDB.Storage.FilePageStore
import LoreDB.Storage.RecordRoundTrip

/-! A record that fits a page comes back from it: the graph store puts the record behind the
page header, and the page store fills in three fields of the header only. So a read of a
node or an edge returns what was stored last under its id. -/
namespace LoreDB.Storage.GraphStore
open LoreDB.Library.ByteStream RecordSerializer FilePageStore GraphHistory LoreDB.Util

theorem field_overwrite (data : Bytes) (position : Nat) (bytes : Bytes) (offset width : Nat)
    (inside : position ≤ data.length)
    (apart : position + bytes.length ≤ offset ∨ offset + width ≤ position) :
    field (overwrite data position bytes) offset width = field data offset width := by
  rcases apart with behind | before
  · rw [field,field,overwrite_drop data position bytes offset inside behind]
  · rw [field,field,List.take_drop,List.take_drop,overwrite_take data position bytes _ inside before]

/-- The page store fills in the magic number, the page id and the checksum only. -/
theorem sealed_keeps (page : PageId) (data : Bytes) (size : data.length = pageSize) :
    field (sealed page data) 8 4 = field data 8 4 ∧ (sealed page data).drop 48 = data.drop 48 := by
  unfold pageSize at size
  unfold sealed
  dsimp only
  generalize (CRC32.calculate _).toNat = checksum
  constructor
  · rw [field_overwrite,field_overwrite,field_overwrite,field_overwrite]
    all_goals simp [overwrite_length,size]
  · rw [overwrite_drop,overwrite_drop,overwrite_drop,overwrite_drop]
    all_goals simp [overwrite_length,size]

/-- A record that the page holds behind its header. -/
def FitsPage (serialized : Bytes) : Prop := serialized.length ≤ pageSize - 48

instance (serialized : Bytes) : Decidable (FitsPage serialized) := inferInstanceAs (Decidable (_ ≤ _))

theorem headerBytes_length (header : PageHeader) : header.bytes.length = 48 := by
  simp [PageHeader.bytes]

theorem headerBytes_type (header : PageHeader) (rest : Bytes) :
    field (header.bytes ++ rest) 8 4 = header.pageType.toNat := by
  simp only [PageHeader.bytes,List.append_assoc]
  rw [field_behind _ _ 4 8 4 (by decide),field_behind _ _ 4 _ 4 (by decide)]
  exact field_front _ _ 4 header.pageType.toNat_lt

theorem pageImage_length (page : PageId) (type : PageType) (serialized : Bytes) :
    (pageImage page type serialized).length = pageSize := by
  rw [pageImage,List.length_take,List.length_append,List.length_replicate]
  exact Nat.min_eq_left (Nat.le_add_left _ _)

/-- The page store's own fields apart, the page holds the type and as much of the record as
there is room for. -/
theorem sealed_image (page : PageId) (type : PageType) (serialized : Bytes) :
    field (sealed page (pageImage page type serialized)) 8 4 = type.code ∧
      (sealed page (pageImage page type serialized)).drop 48 =
        (serialized ++ List.replicate pageSize 0).take (pageSize - 48) := by
  obtain ⟨kind,record⟩ := sealed_keeps page _ (pageImage_length page type serialized)
  have code : (UInt32.ofNat type.code).toNat = type.code := by cases type <;> rfl
  rw [kind,record]
  unfold pageImage
  dsimp only
  generalize named : PageHeader.mk _ _ _ _ _ _ _ _ _ = header
  have size := headerBytes_length header
  have front : (header.bytes ++ serialized ++ List.replicate pageSize 0).take pageSize =
      header.bytes ++ (serialized ++ List.replicate pageSize 0).take (pageSize - 48) := by
    rw [List.append_assoc,List.take_append,List.take_of_length_le (by rw [size]; decide),size]
  rw [front,headerBytes_type,List.drop_left' size,← named]
  exact ⟨code,rfl⟩

theorem fits_sized (record : Bytes) (properties : List Property)
    (fits : FitsPage (record ++ serializeProperties properties)) : Sized properties := by
  apply short_sized
  rw [FitsPage,List.length_append,pageSize] at fits
  omega

theorem fits_take (serialized : Bytes) (fits : FitsPage serialized) :
    ∃ rest, (serialized ++ List.replicate pageSize 0).take (pageSize - 48) = serialized ++ rest := by
  rw [List.take_append,List.take_of_length_le fits]
  exact ⟨_,rfl⟩

/-- On an open file a record is stored on a page that was not allocated before. -/
theorem storeRecord_open (type : PageType) (serialized : Bytes) (store : GraphStore FilePageStore)
    (isOpen : store.pageStore.isClosed = false) :
    ∃ page pages, storeRecord type serialized store = (.ok page,{store with pageStore := pages}) ∧
      pages.isClosed = false ∧ Allocated pages page ∧ PagesKept store.pageStore pages ∧
      readPage page pages = (.ok (sealed page (pageImage page type serialized)),pages) := by
  obtain ⟨closed,_⟩ | ⟨page,pages,taken,same,_⟩ := allocate_cases store.pageStore
  · rw [isOpen] at closed
    contradiction
  · have issued : Allocated pages page := by
      have fresh := (allocate_fresh store.pageStore page (by rw [taken])).2
      rwa [taken] at fresh
    rw [isOpen] at same
    have size := pageImage_length page type serialized
    let written : FilePageStore := {pages with
      file := overwrite pages.file (page * pageSize) (sealed page (pageImage page type serialized))}
    have wrote : writePage page (pageImage page type serialized) pages = (.ok (),written) := by
      rw [writePage,if_neg (not_not.mpr size),if_neg (by rw [same]; exact Bool.false_ne_true),
        if_neg (not_not.mpr issued.1)]
    have stored : storeRecord type serialized store = (.ok page,{store with pageStore := written}) := by
      unfold storeRecord
      rw [show PageStore.allocatePage store.pageStore = (.ok page,pages) from taken]
      dsimp only
      rw [show PageStore.writePage page (pageImage page type serialized) pages = (.ok (),written)
        from wrote]
    have read := write_reads page _ pages written wrote
    obtain ⟨later,kept,moved,_⟩ := storeRecord_spec type serialized store
    rw [stored] at moved
    have last : later = written := (congrArg GraphStore.pageStore moved).symm
    exact ⟨page,written,stored,same,issued,last ▸ kept,read⟩

theorem getRecord_stored {ρ : Type} (type : PageType) (missing wrongType : String)
    (deserialize : Bytes → Except Error ρ) (record : ρ) (serialized : Bytes) (page : PageId)
    (store : GraphStore FilePageStore) (fits : FitsPage serialized)
    (reads : ∀ rest, deserialize (serialized ++ rest) = .ok record)
    (stored : readPage page store.pageStore =
      (.ok (sealed page (pageImage page type serialized)),store.pageStore)) :
    getRecord (some page) type missing wrongType deserialize store = (.ok record,store) := by
  obtain ⟨kind,image⟩ := sealed_image page type serialized
  obtain ⟨rest,whole⟩ := fits_take serialized fits
  unfold getRecord
  dsimp only
  rw [show PageStore.readPage page store.pageStore = _ from stored]
  dsimp only
  rw [if_neg (not_not.mpr kind),image,whole,reads]

variable {store : GraphStore FilePageStore}

theorem storeNodeRecord_reads (nodeId : NodeId) (node : NodeRecord) (properties : List Property)
    (store : GraphStore FilePageStore) (isOpen : store.pageStore.isClosed = false)
    (fits : FitsPage (serializeNode node properties)) :
    ∃ pages page, pages.isClosed = false ∧
      storeNodeRecord nodeId node properties store = (.ok (),{store with
        pageStore := pages
        nodePageIndex := Function.update store.nodePageIndex nodeId (some page)}) ∧
      (getNode nodeId {store with
        pageStore := pages
        nodePageIndex := Function.update store.nodePageIndex nodeId (some page)}).1 =
          .ok (node,properties) := by
  obtain ⟨page,pages,stored,isOpen,_,_,read⟩ :=
    storeRecord_open .node (serializeNode node properties) store isOpen
  have back := getRecord_stored .node "Node not found" "Invalid page type for node"
    deserializeNode (node,properties) _ page {store with
      pageStore := pages
      nodePageIndex := Function.update store.nodePageIndex nodeId (some page)} fits
    (fun rest => deserializeNode_written node properties rest (fits_sized _ _ fits)) read
  refine ⟨pages,page,isOpen,?_,?_⟩
  · rw [storeNodeRecord,stored]
  · simp only [getNode,Function.update_self,back]

theorem storeEdgeRecord_reads (edgeId : EdgeId) (edge : EdgeRecord) (properties : List Property)
    (store : GraphStore FilePageStore) (isOpen : store.pageStore.isClosed = false)
    (fits : FitsPage (serializeEdge edge properties)) :
    ∃ pages page, pages.isClosed = false ∧
      storeEdgeRecord edgeId edge properties store = (.ok (),{store with
        pageStore := pages
        edgePageIndex := Function.update store.edgePageIndex edgeId (some page)}) ∧
      (getEdge edgeId {store with
        pageStore := pages
        edgePageIndex := Function.update store.edgePageIndex edgeId (some page)}).1 =
          .ok (edge,properties) := by
  obtain ⟨page,pages,stored,isOpen,_,_,read⟩ :=
    storeRecord_open .edge (serializeEdge edge properties) store isOpen
  have back := getRecord_stored .edge "Edge not found" "Invalid page type for edge"
    deserializeEdge (edge,properties) _ page {store with
      pageStore := pages
      edgePageIndex := Function.update store.edgePageIndex edgeId (some page)} fits
    (fun rest => deserializeEdge_written edge properties rest (fits_sized _ _ fits)) read
  refine ⟨pages,page,isOpen,?_,?_⟩
  · rw [storeEdgeRecord,stored]
  · simp only [getEdge,Function.update_self,back]

theorem createNode_reads (properties : List Property) (isOpen : store.pageStore.isClosed = false)
    (fits : FitsPage (serializeNode
      {id := store.nextNodeId, propertyCount := UInt32.ofNat properties.length} properties)) :
    (getNode store.nextNodeId (createNode properties store).2).1 =
      .ok ({id := store.nextNodeId, propertyCount := UInt32.ofNat properties.length},properties) := by
  obtain ⟨pages,page,_,stored,read⟩ := storeNodeRecord_reads store.nextNodeId _ properties
    {store with nextNodeId := store.nextNodeId + 1} isOpen fits
  unfold createNode
  dsimp only
  rw [stored,← read]
  exact get_same .node _ _ _ rfl rfl

theorem createEdge_reads (hash : Bytes → UInt64) (clock : UInt64) (fromNode toNode : NodeId)
    (label : Bytes) (properties : List Property) (isOpen : store.pageStore.isClosed = false)
    (edge : EdgeRecord) (filled : edge = {
      id := store.nextEdgeId
      fromNode := fromNode
      toNode := toNode
      labelId := (hash label).toUInt32
      propertyCount := UInt32.ofNat properties.length
      timestamp := clock})
    (fits : FitsPage (serializeEdge edge properties)) :
    (getEdge store.nextEdgeId (createEdge hash clock fromNode toNode label properties store).2).1 =
      .ok (edge,properties) := by
  obtain ⟨pages,page,_,stored,read⟩ := storeEdgeRecord_reads store.nextEdgeId edge properties
    {store with nextEdgeId := store.nextEdgeId + 1} isOpen fits
  unfold createEdge
  dsimp only
  rw [← filled,stored,← read]
  exact get_same .edge _ _ _ rfl rfl

/-- A deletion takes the edge off the list of the node that its page names. -/
theorem deleteEdge_unlists (id : EdgeId) (edge : EdgeRecord) (properties : List Property)
    (read : (getEdge id store).1 = .ok (edge,properties)) :
    id ∉ (deleteEdge id store).2.outgoingEdges edge.fromNode := by
  unfold deleteEdge
  cases found : getEdge id store with
  | mk result next =>
    rw [found] at read
    cases read
    simp [updateAdjacencyLists]

def nodeNotFound : Except Error (NodeRecord × List Property) := .error ⟨.notFound,"Node not found"⟩

def edgeNotFound : Except Error (EdgeRecord × List Property) := .error ⟨.notFound,"Edge not found"⟩

/-- What reads of an open store return. -/
structure Tells (store : GraphStore FilePageStore)
    (nodes : NodeId → Except Error (NodeRecord × List Property))
    (edges : EdgeId → Except Error (EdgeRecord × List Property)) : Prop where
  isOpen : store.pageStore.isClosed = false
  placed : Placed store
  indexed : ∀ id, edges id = edgeNotFound → store.edgePageIndex id = none
  nodes : ∀ id, (getNode id store).1 = nodes id
  edges : ∀ id, (getEdge id store).1 = edges id

variable {nodes : NodeId → Except Error (NodeRecord × List Property)}
  {edges : EdgeId → Except Error (EdgeRecord × List Property)}

/-- Counters, lists and versions play no part in a read. -/
theorem Tells.congr (later : GraphStore FilePageStore) (tells : Tells store nodes edges)
    (pages : later.pageStore = store.pageStore)
    (nodeIndex : later.nodePageIndex = store.nodePageIndex)
    (edgeIndex : later.edgePageIndex = store.edgePageIndex) : Tells later nodes edges := by
  have index (kind : Kind) (id : UInt64) : pageIndex later kind id = pageIndex store kind id := by
    cases kind with
    | node => exact congrFun nodeIndex id
    | edge => exact congrFun edgeIndex id
  have kept : PagesKept store.pageStore later.pageStore := pages ▸ pages_refl _
  refine ⟨by rw [pages,tells.isOpen],fun kind id page found => ?_,
    by rw [edgeIndex]; exact tells.indexed,fun id => ?_,fun id => ?_⟩
  · rw [pages]
    exact tells.placed kind id page (index kind id ▸ found)
  · rw [← tells.nodes]
    exact get_congr .node id store later tells.placed kept (index .node id)
  · rw [← tells.edges]
    exact get_congr .edge id store later tells.placed kept (index .edge id)

theorem getRecord_keeps {ρ : Type} (entry : Option PageId) (type : PageType)
    (missing wrongType : String) (deserialize : Bytes → Except Error ρ)
    (store : GraphStore FilePageStore) :
    (getRecord entry type missing wrongType deserialize store).2 = store := by
  cases entry with
  | none => rfl
  | some page =>
    have keeps := FilePageStore.read_keeps store.pageStore page
    unfold getRecord
    dsimp only
    cases found : PageStore.readPage page store.pageStore with
    | mk result pages =>
      have same : pages = store.pageStore := by rw [← keeps]; exact (congrArg Prod.snd found).symm
      rw [same]
      cases result <;> rfl

theorem getNode_tells (tells : Tells store nodes edges) (id : NodeId) :
    getNode id store = (nodes id,store) :=
  Prod.ext (tells.nodes id) (getRecord_keeps ..)

theorem getEdge_tells (tells : Tells store nodes edges) (id : EdgeId) :
    getEdge id store = (edges id,store) :=
  Prod.ext (tells.edges id) (getRecord_keeps ..)

theorem storeNodeRecord_tells (nodeId : NodeId) (node : NodeRecord) (properties : List Property)
    (tells : Tells store nodes edges) (fits : FitsPage (serializeNode node properties)) :
    ∃ pages index, storeNodeRecord nodeId node properties store =
        (.ok (),{store with pageStore := pages, nodePageIndex := index}) ∧
      Tells {store with pageStore := pages, nodePageIndex := index}
        (Function.update nodes nodeId (.ok (node,properties))) edges := by
  obtain ⟨pages,page,isOpen,wrote,read⟩ :=
    storeNodeRecord_reads nodeId node properties store tells.isOpen fits
  have touched := storeNodeRecord_touches nodeId node properties store
  rw [wrote] at touched
  refine ⟨pages,_,wrote,isOpen,touched.keeps_placed tells.placed,tells.indexed,fun id => ?_,
    fun id => ?_⟩
  · by_cases here : id = nodeId
    · subst here
      rw [Function.update_self,read]
    · have apart : (Kind.node,id) ≠ (Kind.node,nodeId) := fun same => here (congrArg Prod.snd same)
      rw [Function.update_of_ne here,← tells.nodes id]
      exact get_congr .node id store _ tells.placed touched.pages (touched.index .node id apart)
  · have apart : (Kind.edge,id) ≠ (Kind.node,nodeId) := fun same => nomatch same
    rw [← tells.edges id]
    exact get_congr .edge id store _ tells.placed touched.pages (touched.index .edge id apart)

theorem storeEdgeRecord_tells (edgeId : EdgeId) (edge : EdgeRecord) (properties : List Property)
    (tells : Tells store nodes edges) (fits : FitsPage (serializeEdge edge properties)) :
    ∃ pages index, storeEdgeRecord edgeId edge properties store =
        (.ok (),{store with pageStore := pages, edgePageIndex := index}) ∧
      Tells {store with pageStore := pages, edgePageIndex := index}
        nodes (Function.update edges edgeId (.ok (edge,properties))) := by
  obtain ⟨pages,page,isOpen,wrote,read⟩ :=
    storeEdgeRecord_reads edgeId edge properties store tells.isOpen fits
  have touched := storeEdgeRecord_touches edgeId edge properties store
  rw [wrote] at touched
  refine ⟨pages,_,wrote,isOpen,touched.keeps_placed tells.placed,fun id missing => ?_,fun id => ?_,
    fun id => ?_⟩
  · by_cases here : id = edgeId
    · rw [here,Function.update_self] at missing
      exact nomatch missing
    · rw [Function.update_of_ne here] at missing
      exact (Function.update_of_ne here _ _).trans (tells.indexed id missing)
  · have apart : (Kind.node,id) ≠ (Kind.edge,edgeId) := fun same => nomatch same
    rw [← tells.nodes id]
    exact get_congr .node id store _ tells.placed touched.pages (touched.index .node id apart)
  · by_cases here : id = edgeId
    · subst here
      rw [Function.update_self,read]
    · have apart : (Kind.edge,id) ≠ (Kind.edge,edgeId) := fun same => here (congrArg Prod.snd same)
      rw [Function.update_of_ne here,← tells.edges id]
      exact get_congr .edge id store _ tells.placed touched.pages (touched.index .edge id apart)

theorem dropNode_tells (nodeId : NodeId) (tells : Tells store nodes edges) :
    Tells {store with nodePageIndex := Function.update store.nodePageIndex nodeId none}
      (Function.update nodes nodeId nodeNotFound) edges := by
  have kept := pages_refl store.pageStore
  refine ⟨tells.isOpen,fun kind id page found => ?_,tells.indexed,fun id => ?_,fun id => ?_⟩
  · cases kind with
    | node =>
      by_cases here : id = nodeId
      · subst here
        simp [pageIndex] at found
      · exact tells.placed .node id page (by simpa [pageIndex,here] using found)
    | edge => exact tells.placed .edge id page found
  · by_cases here : id = nodeId
    · subst here
      simp only [getNode,Function.update_self]
      rfl
    · rw [Function.update_of_ne here,← tells.nodes id]
      exact get_congr .node id store _ tells.placed kept (Function.update_of_ne here _ _)
  · rw [← tells.edges id]
    exact get_congr .edge id store _ tells.placed kept rfl

theorem dropEdge_tells (edgeId : EdgeId) (tells : Tells store nodes edges) :
    Tells {store with edgePageIndex := Function.update store.edgePageIndex edgeId none}
      nodes (Function.update edges edgeId edgeNotFound) := by
  have kept := pages_refl store.pageStore
  refine ⟨tells.isOpen,fun kind id page found => ?_,fun id missing => ?_,fun id => ?_,fun id => ?_⟩
  · cases kind with
    | node => exact tells.placed .node id page found
    | edge =>
      by_cases here : id = edgeId
      · subst here
        simp [pageIndex] at found
      · exact tells.placed .edge id page (by simpa [pageIndex,here] using found)
  · by_cases here : id = edgeId
    · rw [here]
      exact Function.update_self ..
    · rw [Function.update_of_ne here] at missing
      exact (Function.update_of_ne here _ _).trans (tells.indexed id missing)
  · rw [← tells.nodes id]
    exact get_congr .node id store _ tells.placed kept rfl
  · by_cases here : id = edgeId
    · subst here
      simp only [getEdge,Function.update_self]
      rfl
    · rw [Function.update_of_ne here,← tells.edges id]
      exact get_congr .edge id store _ tells.placed kept (Function.update_of_ne here _ _)

end LoreDB.Storage.GraphStore
