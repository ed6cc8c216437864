import LoreDB.Storage.WrittenVersions

/-! One page for each record. A record that is written goes to a page that nothing was on, so no page is ever
written again and no two records are on one page. -/
namespace LoreDB.Storage.SeparatePages
open LoreDB.Library.History GraphStore GraphHistory PageStore LawfulPageStore

variable {σ : Type} [LawfulPageStore σ]

/-- The page of the record has not changed, or has not been in use before. -/
def Fresh (kind : Kind) (id : UInt64) (before later : GraphStore σ) : Prop :=
  ∀ page, pageIndex later kind id = some page →
    pageIndex before kind id = some page ∨ ¬allocated before.pageStore page

/-- What a call on one record does to the pages. -/
structure Places (kind : Kind) (id : UInt64) (before later : GraphStore σ) : Prop where
  pages : PagesKept before.pageStore later.pageStore
  index : ∀ other key, (other,key) ≠ (kind,id) → pageIndex later other key = pageIndex before other key
  placed : ∀ page, pageIndex later kind id = some page →
    pageIndex before kind id = some page ∨ allocated later.pageStore page
  fresh : Fresh kind id before later

/-- The records have their own pages. -/
structure Separate (store : GraphStore σ) : Prop where
  placed : Placed store
  apart : ∀ kind id other key page, pageIndex store kind id = some page → pageIndex store other key = some page →
    kind = other ∧ id = key

theorem touched_places {kind : Kind} {id : UInt64} {before later : GraphStore σ}
    (touched : Touches kind id before later) (fresh : Fresh kind id before later) : Places kind id before later :=
  ⟨touched.pages,touched.index,touched.placed,fresh⟩

theorem Places.separate {kind : Kind} {id : UInt64} {before later : GraphStore σ}
    (places : Places kind id before later) (separate : Separate before) : Separate later := by
  have old (other : Kind) (key : UInt64) (page : PageId) (found : pageIndex later other key = some page) :
      pageIndex before other key = some page ∨ (other,key) = (kind,id) := by
    by_cases here : (other,key) = (kind,id)
    · exact .inr here
    · exact .inl ((places.index other key here).symm.trans found)
  have new (page : PageId) (found : pageIndex later kind id = some page) (other : Kind) (key : UInt64)
      (named : pageIndex later other key = some page) : kind = other ∧ id = key := by
    rcases old other key page named with earlier | same
    · rcases places.fresh page found with before | unused
      · exact separate.apart kind id other key page before earlier
      · exact absurd (separate.placed other key page earlier) unused
    · cases same
      exact ⟨rfl,rfl⟩
  refine ⟨fun other key page found => ?_,fun first i second j page one two => ?_⟩
  · rcases old other key page found with earlier | same
    · exact (places.pages page (separate.placed other key page earlier)).1
    · cases same
      rcases places.placed page found with before | held
      · exact (places.pages page (separate.placed kind id page before)).1
      · exact held
  · rcases old first i page one with earlier | same
    · rcases old second j page two with before | same
      · exact separate.apart first i second j page earlier before
      · cases same
        obtain ⟨rfl,rfl⟩ := new page two first i one
        exact ⟨rfl,rfl⟩
    · cases same
      exact new page one second j two

/-! Records. -/

theorem storeRecord_fresh (type : PageType) (serialized : Bytes) (store : GraphStore σ) (page : PageId)
    (stored : (storeRecord type serialized store).1 = .ok page) : ¬allocated store.pageStore page := by
  have fresh := allocate_fresh store.pageStore
  unfold storeRecord at stored
  cases taken : allocatePage store.pageStore with
  | mk result pages =>
    rw [taken] at fresh stored
    cases result with
    | error e => cases stored
    | ok other =>
      dsimp only at stored
      have same : other = page := by
        cases wrote : writePage other (pageImage other type serialized) pages with
        | mk result last =>
          rw [wrote] at stored
          cases result with
          | error e => cases stored
          | ok _ => exact Except.ok.inj stored
      exact same ▸ (fresh other rfl).1

theorem storeNodeRecord_fresh (nodeId : NodeId) (node : NodeRecord) (properties : List Property)
    (store : GraphStore σ) : Fresh .node nodeId store (storeNodeRecord nodeId node properties store).2 := by
  have unused := storeRecord_fresh .node (RecordSerializer.serializeNode node properties) store
  have moved := storeRecord_spec .node (RecordSerializer.serializeNode node properties) store
  unfold storeNodeRecord
  cases stored : storeRecord .node (RecordSerializer.serializeNode node properties) store with
  | mk result next =>
    rw [stored] at unused moved
    obtain ⟨pages,_,rfl,_⟩ := moved
    cases result with
    | error e => exact fun page => .inl
    | ok target =>
      intro page found
      have named : target = page := by simpa [pageIndex] using found
      exact .inr (named ▸ unused target rfl)

theorem storeEdgeRecord_fresh (edgeId : EdgeId) (edge : EdgeRecord) (properties : List Property)
    (store : GraphStore σ) : Fresh .edge edgeId store (storeEdgeRecord edgeId edge properties store).2 := by
  have unused := storeRecord_fresh .edge (RecordSerializer.serializeEdge edge properties) store
  have moved := storeRecord_spec .edge (RecordSerializer.serializeEdge edge properties) store
  unfold storeEdgeRecord
  cases stored : storeRecord .edge (RecordSerializer.serializeEdge edge properties) store with
  | mk result next =>
    rw [stored] at unused moved
    obtain ⟨pages,_,rfl,_⟩ := moved
    cases result with
    | error e => exact fun page => .inl
    | ok target =>
      intro page found
      have named : target = page := by simpa [pageIndex] using found
      exact .inr (named ▸ unused target rfl)

/-- Reading pages puts none of them into use that were in use before. -/
theorem fresh_read {kind : Kind} {id : UInt64} {store later : GraphStore σ} {pages : σ}
    (kept : PagesKept store.pageStore pages) (fresh : Fresh kind id {store with pageStore := pages} later) :
    Fresh kind id store later := by
  intro page found
  rcases fresh page found with same | unused
  · cases kind <;> exact .inl same
  · exact .inr fun held => unused (kept page held).1

/-! Operations. -/

theorem plain_fresh (hash : Bytes → UInt64) (store : GraphStore σ) (operation : Operation) :
    Fresh operation.kind (operation.key store) store (plain hash store operation) := by
  cases operation with
  | createNode properties =>
    have fresh := storeNodeRecord_fresh store.nextNodeId
      {id := store.nextNodeId, propertyCount := UInt32.ofNat properties.length} properties
      {store with nextNodeId := store.nextNodeId + 1}
    simp only [plain,createNode,Operation.kind,Operation.key]
    split
    · rename_i e next stored
      rw [stored] at fresh
      exact fresh
    · rename_i next stored
      rw [stored] at fresh
      exact fresh
  | updateNode nodeId properties =>
    obtain ⟨pages,kept,same⟩ := get_spec .node nodeId store
    simp only [plain,updateNode,Operation.kind,Operation.key]
    cases found : getNode nodeId store with
    | mk result next =>
      have moved : next = {store with pageStore := pages} := by simpa [GraphHistory.get,found] using same
      subst moved
      cases result with
      | error e => exact fun page => .inl
      | ok record => exact fresh_read kept (storeNodeRecord_fresh nodeId _ properties _)
  | deleteNode nodeId =>
    simp only [plain,deleteNode,Operation.kind,Operation.key]
    split
    · exact fun page => .inl
    · split
      · exact fun page => .inl
      · intro page found
        simp [pageIndex] at found
  | createEdge clock fromNode toNode label properties =>
    simp only [plain,createEdge,Operation.kind,Operation.key]
    generalize ({
      id := store.nextEdgeId
      fromNode := fromNode
      toNode := toNode
      labelId := (hash label).toUInt32
      propertyCount := UInt32.ofNat properties.length
      timestamp := clock} : EdgeRecord) = edge
    have fresh := storeEdgeRecord_fresh store.nextEdgeId edge properties {store with nextEdgeId := store.nextEdgeId + 1}
    split
    · rename_i e next stored
      rw [stored] at fresh
      exact fresh
    · rename_i next stored
      rw [stored] at fresh
      exact fresh
  | updateEdge edgeId properties =>
    obtain ⟨pages,kept,same⟩ := get_spec .edge edgeId store
    simp only [plain,updateEdge,Operation.kind,Operation.key]
    cases found : getEdge edgeId store with
    | mk result next =>
      have moved : next = {store with pageStore := pages} := by simpa [GraphHistory.get,found] using same
      subst moved
      cases result with
      | error e => exact fun page => .inl
      | ok record => exact fresh_read kept (storeEdgeRecord_fresh edgeId _ properties _)
  | deleteEdge edgeId =>
    obtain ⟨pages,kept,same⟩ := get_spec .edge edgeId store
    simp only [plain,deleteEdge,Operation.kind,Operation.key]
    cases found : getEdge edgeId store with
    | mk result next =>
      have moved : next = {store with pageStore := pages} := by simpa [GraphHistory.get,found] using same
      subst moved
      cases result with
      | error e => exact fun page => .inl
      | ok record =>
        intro page found
        simp [pageIndex] at found

theorem plain_places (hash : Bytes → UInt64) (store : GraphStore σ) (operation : Operation) :
    Places operation.kind (operation.key store) store (plain hash store operation) :=
  touched_places (plain_touches hash store operation) (plain_fresh hash store operation)

omit [LawfulPageStore σ] in
/-- A version is on no page. -/
theorem versioned_index {α : Type} (result : α) (refused : Option String) (op : String) (key : UInt64)
    (version : Transaction.Version) (store : GraphStore σ) :
    pageIndex (versioned result refused op key version store).2 = pageIndex store := by
  obtain ⟨mvcc,wal,same⟩ := versioned_keeps result refused op key version store
  rw [same]
  funext kind
  cases kind <;> rfl

/-- With a transaction the record is placed as without one, or it is left where it is. -/
theorem perform_index (hash : Bytes → UInt64) (txId : Nat) (store : GraphStore σ) (operation : Operation) :
    pageIndex (perform hash txId store operation).2 = pageIndex (plain hash store operation) ∨
      pageIndex (perform hash txId store operation).2 = pageIndex store := by
  cases operation with
  | createNode properties =>
    refine .inl ?_
    simp only [perform,createNodeTx,plain]
    cases createNode properties store with
    | mk result next =>
      cases result with
      | error e => rfl
      | ok id =>
        dsimp only
        split
        · rfl
        · exact versioned_index ..
  | updateNode nodeId properties =>
    refine .inl ?_
    simp only [perform,perform.keyed,updateNodeTx,plain]
    cases updateNode nodeId properties store with
    | mk result next =>
      cases result with
      | error e => rfl
      | ok _ => exact versioned_index ..
  | deleteNode nodeId =>
    obtain ⟨pages,_,same⟩ := get_spec .node nodeId store
    simp only [perform,perform.keyed,deleteNodeTx,plain]
    cases found : getNode nodeId store with
    | mk result next =>
      have moved : next = {store with pageStore := pages} := by simpa [GraphHistory.get,found] using same
      have index : pageIndex next = pageIndex store := by
        rw [moved]
        funext kind
        cases kind <;> rfl
      cases result with
      | error e => exact .inr index
      | ok record =>
        dsimp only
        split
        · exact .inr ((versioned_index ..).trans index)
        · refine .inl ?_
          rw [moved]
          unfold deleteNode
          by_cases leaving : store.getOutgoingEdges nodeId ≠ []
          · rw [if_pos leaving,if_pos (by exact leaving)]
            funext kind
            cases kind <;> rfl
          · rw [if_neg leaving,if_neg (by exact leaving)]
            by_cases entering : store.getIncomingEdges nodeId ≠ []
            · rw [if_pos entering,if_pos (by exact entering)]
              funext kind
              cases kind <;> rfl
            · rw [if_neg entering,if_neg (by exact entering)]
              funext kind
              cases kind <;> rfl
  | createEdge clock fromNode toNode label properties =>
    refine .inl ?_
    simp only [perform,createEdgeTx,plain]
    cases createEdge hash clock fromNode toNode label properties store with
    | mk result next =>
      cases result with
      | error e => rfl
      | ok id => exact versioned_index ..
  | updateEdge edgeId properties =>
    refine .inl ?_
    simp only [perform,perform.keyed,updateEdgeTx,plain]
    cases updateEdge edgeId properties store with
    | mk result next =>
      cases result with
      | error e => rfl
      | ok _ => exact versioned_index ..
  | deleteEdge edgeId =>
    refine .inl ?_
    simp only [perform,perform.keyed,deleteEdgeTx,plain]
    cases deleteEdge edgeId store with
    | mk result next =>
      cases result with
      | error e => rfl
      | ok _ => exact versioned_index ..

theorem perform_places (hash : Bytes → UInt64) (txId : Nat) (store : GraphStore σ) (operation : Operation) :
    Places operation.kind (operation.key store) store (perform hash txId store operation).2 := by
  obtain ⟨⟨next,touched,mvcc,wal,same⟩,_⟩ := perform_carried hash txId store operation
  have fresh : Fresh operation.kind (operation.key store) store (perform hash txId store operation).2 := by
    rcases perform_index hash txId store operation with plainly | kept
    · intro page found
      exact plain_fresh hash store operation page ((congrFun (congrFun plainly _) _).symm.trans found)
    · exact fun page found => .inl ((congrFun (congrFun kept _) _).symm.trans found)
  have index : pageIndex (perform hash txId store operation).2 = pageIndex next := by
    rw [same]
    funext kind
    cases kind <;> rfl
  have pages : (perform hash txId store operation).2.pageStore = next.pageStore := by rw [same]
  refine ⟨pages ▸ touched.pages,fun other key apart => ?_,fun page found => ?_,fresh⟩
  · rw [index]
    exact touched.index other key apart
  · rw [index] at found
    rw [pages]
    exact touched.placed page found

/-- The records are separate, and the pages that were in use before are as they were. -/
structure Lasts (origin : σ) (store : GraphStore σ) : Prop where
  separate : Separate store
  pages : PagesKept origin store.pageStore

section Lasting

variable {origin : σ} {store : GraphStore σ} (lasts : Lasts origin store)
include lasts

theorem places_lasts {kind : Kind} {id : UInt64} {later : GraphStore σ} (places : Places kind id store later) :
    Lasts origin later := ⟨places.separate lasts.separate,pages_trans lasts.pages places.pages⟩

/-- Versions, locks and the log are on no page. -/
theorem swapped_lasts (mvcc : Option Transaction.MVCCManager) (wal : Option WALManager) :
    Lasts origin {store with mvccManager := mvcc, walManager := wal} := by
  refine ⟨⟨fun kind id page found => ?_,fun kind id other key page first second => ?_⟩,lasts.pages⟩
  · exact lasts.separate.placed kind id page (by cases kind <;> exact found)
  · exact lasts.separate.apart kind id other key page (by cases kind <;> exact first) (by cases other <;> exact second)

theorem read_lasts (kind : Kind) (id : UInt64) : Lasts origin (GraphHistory.get kind id store).2 := by
  obtain ⟨pages,kept,same⟩ := get_spec kind id store
  rw [same]
  refine ⟨⟨fun kind id page found => ?_,fun kind id other key page first second => ?_⟩,pages_trans lasts.pages kept⟩
  · exact (kept page (lasts.separate.placed kind id page (by cases kind <;> exact found))).1
  · exact lasts.separate.apart kind id other key page (by cases kind <;> exact first) (by cases other <;> exact second)

theorem step_lasts (hash : Bytes → UInt64) (call : Call) : Lasts origin (GraphHistory.step hash store call) := by
  cases call with
  | begin | commit _ | abort _ | collect _ => exact swapped_lasts lasts _ store.walManager
  | perform txId operation => exact places_lasts lasts (perform_places hash txId store operation)
  | plain operation => exact places_lasts lasts (plain_places hash store operation)
  | get kind id => exact read_lasts lasts kind id
  | getTx kind txId id =>
    rcases getTx_reads kind txId id store with same | same
    · rw [GraphHistory.step,same]
      exact lasts
    · rw [GraphHistory.step,same]
      exact read_lasts lasts kind id

end Lasting

theorem opened_lasts (pages : σ) (mvcc : Option Transaction.MVCCManager) (wal : Option WALManager) :
    Lasts pages ({pageStore := pages, mvccManager := mvcc, walManager := wal} : GraphStore σ) where
  separate := {
    placed := fun kind _ _ found => by cases kind <;> cases found
    apart := fun kind _ _ _ _ found => by cases kind <;> cases found}
  pages := pages_refl pages

end LoreDB.Storage.SeparatePages
