import LoreDB.Query.Cypher.PlainSessions
import LoreDB.Storage.SerialStores

/-! Queries on a new store with versions, one after the other. They get the answers of a property graph of which
deleted nodes go on being counted. -/
namespace LoreDB.Query.Cypher
open LoreDB.Storage LoreDB.Storage.GraphHistory LoreDB.Storage.GraphRefinement LoreDB.Storage.SerialStores
  LoreDB.Storage.RefusedVersions LoreDB.Transaction LoreDB.Library.History GraphStore
open SerialHistory (current Follows)

/-- The last live versions are the nodes of the graph. -/
def Holding (contents : UInt64 → Option Version) (state : QueryGraph) : Prop :=
  ∀ id, match state.model.graph.nodes id with
    | none => contents id = none
    | some properties => ∃ version, contents id = some version ∧ version.data = .node (nodeRecord id properties) ∧
      version.properties = properties

/-- The pages keep a node for every id that was ever given out, deleted or not. -/
structure Paged (store : Graph) (pages : CountedGraph) (state : QueryGraph) : Prop where
  represents : Represents store pages
  edgeless : pages.graph.edges = []
  next : pages.nextNodeId = state.model.nextNodeId
  created : ∀ id, pages.graph.nodes id ≠ none ↔ state.Created id

/-- A store with versions that shows a graph. -/
structure ShowsVersions (store : Graph) (state : QueryGraph) : Prop where
  versioned : state.versions = true
  sound : Sound store
  follows : ∃ contents, Follows (mvcc store) contents ∧ Holding contents state
  paged : ∃ pages, Paged store pages state
  edgeless : state.model.graph.edges = []
  created : ∀ id, state.model.graph.nodes id ≠ none → state.Created id
  started : 0 < state.model.nextNodeId
  counted : store.nodeCount = state.count

/-- The transaction of a query runs, and no other. -/
def Underway (t : Nat) (store : Graph) : Prop :=
  t = current (mvcc store).txnManager ∧ (mvcc store).txnManager.activeTransactions t = true

variable {store : Graph} {state : QueryGraph}

theorem ShowsVersions.isVersioned (shows : ShowsVersions store state) : Versioned store := by
  obtain ⟨pages,paged⟩ := shows.paged
  exact ⟨shows.sound,paged.represents.tells.isOpen⟩

/-- The pages without versions and log. -/
theorem represents_congr {model : CountedGraph} (represents : Represents store model)
    (manager : Option MVCCManager) (wal : Option WALManager) :
    Represents {store with mvccManager := manager, walManager := wal} model :=
  ⟨represents.tells.congr _ rfl rfl rfl,represents.nodeIds,represents.edgeIds,represents.outgoing,represents.incoming,
    represents.issued,represents.few,represents.count⟩

theorem edgeless_attached {model : CountedGraph} (edgeless : model.graph.edges = []) (tip : LoreDB.Library.PropertyGraph.End)
    (node : NodeId) : model.graph.attached tip node = [] := by
  rw [LoreDB.Library.PropertyGraph.attached,edgeless]
  rfl

theorem edgeless_reads {model : CountedGraph} (edgeless : model.graph.edges = []) (id : EdgeId) :
    readEdge model.graph id = edgeNotFound := by
  rw [readEdge,LoreDB.Library.PropertyGraph.edge?,edgeless]
  rfl

/-- A node's version says nothing of the edge with its id. -/
theorem told_other (page : Except Error (EdgeRecord × List Property)) (version : Version) (record : NodeRecord)
    (data : version.data = .node record) : told .edge page (some version) = page := by
  obtain ⟨_,_,_,_⟩ := version
  cases data
  rfl

/-- The running transaction sees the graph. -/
theorem view_versions (shows : ShowsVersions store state) :
    ExecutionContext.view (current (mvcc store).txnManager) store = state.view := by
  obtain ⟨_,sound,⟨contents,follows,holding⟩,⟨pages,paged⟩,edgeless,_,_,counted⟩ := shows
  have versions : ExecutionContext.hasMvcc store = true := by
    rw [ExecutionContext.hasMvcc,sound.enabled]
    rfl
  have nodes (id : NodeId) : (getNodeTx (current (mvcc store).txnManager) id store).1.toOption =
      (readNode state.model.graph id).toOption := by
    have read := getTx_current sound follows .node id
    have held := holding id
    change (getTx .node _ id store).1.toOption = _
    rw [read,readNode]
    cases found : state.model.graph.nodes id with
    | none =>
      rw [found] at held
      rw [show contents id = none from held]
      rfl
    | some properties =>
      rw [found] at held
      obtain ⟨version,bound,data,same⟩ := held
      rw [bound,told,data,same]
      rfl
  have edges (id : EdgeId) : (getEdgeTx (current (mvcc store).txnManager) id store).1.toOption =
      (readEdge state.model.graph id).toOption := by
    have read := getTx_current sound follows .edge id
    have held := holding id
    have page : (GraphHistory.get .edge id store).1 = edgeNotFound :=
      (paged.represents.tells.edges id).trans (edgeless_reads paged.edgeless id)
    change (getTx .edge _ id store).1.toOption = _
    rw [read,page,edgeless_reads edgeless]
    cases found : state.model.graph.nodes id with
    | none =>
      rw [found] at held
      rw [show contents id = none from held]
      rfl
    | some properties =>
      rw [found] at held
      obtain ⟨version,bound,data,_⟩ := held
      rw [bound]
      exact congrArg Except.toOption (told_other edgeNotFound version _ data)
  have outgoing (node : NodeId) : store.getOutgoingEdges node = state.model.graph.attached .source node :=
    (paged.represents.outgoing node).trans
      ((edgeless_attached paged.edgeless .source node).trans (edgeless_attached edgeless .source node).symm)
  have incoming (node : NodeId) : store.getIncomingEdges node = state.model.graph.attached .target node :=
    (paged.represents.incoming node).trans
      ((edgeless_attached paged.edgeless .target node).trans (edgeless_attached edgeless .target node).symm)
  simp only [ExecutionContext.view,ExecutionContext.getNode,ExecutionContext.getEdge,versions,if_true,nodes,edges,
    outgoing,incoming,QueryGraph.view,graphView,counted]

section Operations

variable (hash : Bytes → UInt64) {t : Nat}

/-- An operation that the pages allow writes its version over them. -/
theorem perform_written (operation : Operation) (sound : Sound store) (key : UInt64) (next : Graph)
    (first : firstPart hash store operation = (.ok key,next)) :
    ∃ wal, perform hash t store operation = (some (.ok (operation.key store)),{next with
      mvccManager := some (MvccHistory.step (mvcc store) (.write (operation.key store) (operation.version hash t store)))
      walManager := wal}) := by
  have kept : next.mvccManager = some (mvcc store) := by
    have versions := firstPart_versions hash store operation
    rw [first] at versions
    exact versions.trans sound.enabled
  obtain ⟨wal,wrote⟩ := versioned_spec (operation.key store) (refusal operation) (name operation) (operation.key store)
    (operation.version hash t store) next (mvcc store) kept sound.versions.free
  refine ⟨wal,?_⟩
  rw [perform_parts hash t store operation (by rw [sound.enabled]; rfl),first]
  exact wrote

theorem written_follows (operation : Operation) {contents : UInt64 → Option Version} (sound : Sound store)
    (follows : Follows (mvcc store) contents) (running : Underway t store) :
    Follows (MvccHistory.step (mvcc store) (.write (operation.key store) (operation.version hash t store)))
        (Function.update contents (operation.key store) (lastWritten (operation.version hash t store))) ∧
      (MvccHistory.step (mvcc store) (.write (operation.key store) (operation.version hash t store))).txnManager =
        (mvcc store).txnManager := by
  obtain ⟨created,deleted⟩ := version_legal hash t store operation
  obtain ⟨tables,_⟩ := MvccHistory.write_step (mvcc store) sound.versions.free (operation.key store)
    (operation.version hash t store)
  exact ⟨SerialHistory.step_follows _ contents (.write _ _)
    ⟨created.trans running.1,created.symm ▸ running.2,created.symm ▸ deleted⟩ follows,tables⟩

theorem Holding.bound {contents : UInt64 → Option Version} (holding : Holding contents state) (id : NodeId)
    (properties : List Property) (version : Version) (live : version.deletedTxId = 0)
    (data : version.data = .node (nodeRecord id properties)) (same : version.properties = properties)
    (next : QueryGraph) (nodes : next.model.graph.nodes = Function.update state.model.graph.nodes id (some properties)) :
    Holding (Function.update contents id (lastWritten version)) next := by
  intro other
  rw [nodes]
  by_cases here : other = id
  · subst here
    rw [Function.update_self,Function.update_self,lastWritten,if_pos live]
    exact ⟨version,rfl,data,same⟩
  · rw [Function.update_of_ne here,Function.update_of_ne here]
    exact holding other

theorem Holding.unbound {contents : UInt64 → Option Version} (holding : Holding contents state) (id : NodeId)
    (version : Version) (deleted : version.deletedTxId ≠ 0) (next : QueryGraph)
    (nodes : next.model.graph.nodes = Function.update state.model.graph.nodes id none) :
    Holding (Function.update contents id (lastWritten version)) next := by
  intro other
  rw [nodes]
  by_cases here : other = id
  · subst here
    rw [Function.update_self,Function.update_self,lastWritten,if_neg deleted]
  · rw [Function.update_of_ne here,Function.update_of_ne here]
    exact holding other

/-- What the store shows after an operation that the pages allow. -/
theorem perform_shows (operation : Operation) (shows : ShowsVersions store state) (running : Underway t store)
    (key : UInt64) (next : Graph) (first : firstPart hash store operation = (.ok key,next)) (after : QueryGraph)
    (versioned : after.versions = true) (pages : CountedGraph) (paged : Paged next pages after)
    (holding : ∀ contents, Holding contents state →
      Holding (Function.update contents (operation.key store) (lastWritten (operation.version hash t store))) after)
    (edgeless : after.model.graph.edges = []) (created : ∀ id, after.model.graph.nodes id ≠ none → after.Created id)
    (started : 0 < after.model.nextNodeId) (counted : next.nodeCount = after.count) :
    (perform hash t store operation).1 = some (.ok (operation.key store)) ∧
      ShowsVersions (perform hash t store operation).2 after ∧ Underway t (perform hash t store operation).2 := by
  obtain ⟨contents,follows,held⟩ := shows.follows
  obtain ⟨wal,done⟩ := perform_written hash (t := t) operation shows.sound key next first
  obtain ⟨followed,tables⟩ := written_follows hash operation shows.sound follows running
  have kept := step_sound hash store (.perform t operation)
    (SerialHistory.active_issued shows.sound.versions.wellformed running.2) shows.sound
  rw [GraphHistory.step] at kept
  rw [done] at kept ⊢
  refine ⟨rfl,⟨versioned,kept,⟨_,followed,holding contents held⟩,⟨pages,?_⟩,edgeless,created,started,counted⟩,?_⟩
  · exact ⟨represents_congr paged.represents _ _,paged.edgeless,paged.next,paged.created⟩
  · unfold Underway
    rw [mvcc,Option.getD_some,tables]
    exact running

theorem createNode_shows (properties : List Property) (shows : ShowsVersions store state) (running : Underway t store)
    (fits : state.Fits (.createNode properties)) :
    (perform hash t store (.createNode properties)).1 = some (state.answer (.createNode properties)) ∧
      ShowsVersions (perform hash t store (.createNode properties)).2 (state.perform hash (.createNode properties)) ∧
      Underway t (perform hash t store (.createNode properties)).2 := by
  obtain ⟨pages,represents,edgeless,same,created⟩ := shows.paged
  have room := short_fits hash (.createNode properties) represents ⟨by rw [same]; exact fits.1,fits.2⟩
  obtain ⟨answered,later⟩ := step_simulates hash (.createNode properties) represents room
  obtain ⟨next,stored,_,counts⟩ := OpenStores.createNode_opens properties shows.isVersioned.2
  have key : store.nextNodeId = state.model.nextNodeId := represents.nodeIds.trans same
  have first : firstPart hash store (.createNode properties) = (.ok store.nextNodeId,next) := stored
  have grown : plain hash store (.createNode properties) = next := congrArg Prod.snd stored
  have wraps : state.model.nextNodeId + 1 ≠ 0 := fits.1
  have issued (id : NodeId) : (state.perform hash (.createNode properties)).Created id ↔
      state.Created id ∨ id = state.model.nextNodeId := by
    have started : (0 : UInt64) < state.model.nextNodeId := shows.started
    have follows := next_toNat _ wraps
    change 0 < id ∧ id < state.model.nextNodeId + 1 ↔ (0 < id ∧ id < state.model.nextNodeId) ∨ id = state.model.nextNodeId
    rw [UInt64.lt_iff_toNat_lt] at started
    rw [UInt64.lt_iff_toNat_lt,UInt64.lt_iff_toNat_lt,UInt64.lt_iff_toNat_lt,← UInt64.toNat_inj,follows]
    change 0 < _ ∧ _ ↔ (0 < _ ∧ _) ∨ _
    change 0 < _ at started
    omega
  rw [grown] at later
  have paged (id : NodeId) : (pages.step hash (.createNode properties)).graph.nodes id ≠ none ↔
      (state.perform hash (.createNode properties)).Created id := by
    rw [issued,← created,← same]
    by_cases here : id = pages.nextNodeId
    · simp [here,CountedGraph.step,LoreDB.Library.PropertyGraph.setNode]
    · simp [here,CountedGraph.step,LoreDB.Library.PropertyGraph.setNode]
  have shown (id : NodeId) (present : (state.perform hash (.createNode properties)).model.graph.nodes id ≠ none) :
      (state.perform hash (.createNode properties)).Created id := by
    rw [issued]
    by_cases here : id = state.model.nextNodeId
    · exact .inr here
    · refine .inl (shows.created id ?_)
      simpa [here,QueryGraph.perform,CountedGraph.step,LoreDB.Library.PropertyGraph.setNode] using present
  have next_started : 0 < state.model.nextNodeId + 1 := by
    rw [UInt64.lt_iff_toNat_lt,next_toNat _ wraps]
    exact Nat.succ_pos _
  have answer : state.answer (.createNode properties) = .ok (Operation.key store (.createNode properties)) :=
    congrArg Except.ok key.symm
  rw [answer]
  exact perform_shows hash (.createNode properties) shows running _ next first
    (state.perform hash (.createNode properties)) shows.versioned (pages.step hash (.createNode properties))
    ⟨later,edgeless,by rw [QueryGraph.perform,CountedGraph.step,CountedGraph.step,same],paged⟩
    (fun contents holding => holding.bound store.nextNodeId properties _ rfl rfl rfl _ (by rw [key]; rfl))
    shows.edgeless shown next_started (counts.trans (congrArg (· + 1) shows.counted))

theorem updateNode_shows (id : NodeId) (properties old : List Property) (shows : ShowsVersions store state)
    (running : Underway t store) (held : state.model.graph.nodes id = some old)
    (fits : state.Fits (.updateNode id properties)) :
    (perform hash t store (.updateNode id properties)).1 = some (.ok id) ∧
      ShowsVersions (perform hash t store (.updateNode id properties)).2
        (state.perform hash (.updateNode id properties)) ∧
      Underway t (perform hash t store (.updateNode id properties)).2 := by
  obtain ⟨pages,represents,edgeless,same,created⟩ := shows.paged
  have present : pages.graph.nodes id ≠ none := (created id).mpr (shows.created id (by simp [held]))
  have room := short_fits hash (.updateNode id properties) represents fits
  obtain ⟨answered,later⟩ := step_simulates hash (.updateNode id properties) represents room
  have found : pages.answer (.updateNode id properties) = .ok id := by
    obtain ⟨found,bound⟩ := Option.ne_none_iff_exists'.mp present
    simp [CountedGraph.answer,readNode,bound,Except.map]
  have counts : (plain hash store (.updateNode id properties)).nodeCount = store.nodeCount := by
    obtain ⟨e,_,failed⟩ | ⟨_,next,updated,_,kept⟩ := OpenStores.updateNode_opens id properties shows.isVersioned.2
    · exact congrArg (fun result => result.2.nodeCount) failed
    · exact (congrArg (fun result => result.2.nodeCount) updated).trans kept
  have first : firstPart hash store (.updateNode id properties) = (.ok id,plain hash store (.updateNode id properties)) := by
    rw [firstPart_plain hash store _ (fun other absurd => by cases absurd),answered,found]
  have paged : pages.step hash (.updateNode id properties) = {pages with graph := pages.graph.setNode id properties} :=
    if_neg present
  have moved : (state.perform hash (.updateNode id properties)).model =
      {state.model with graph := state.model.graph.setNode id properties} := if_neg (by simp [held])
  rw [paged] at later
  refine perform_shows hash (.updateNode id properties) shows running id _ first _ shows.versioned _
    ⟨later,edgeless,same.trans (by rw [moved]),fun other => ?_⟩
    (fun contents holding => holding.bound id properties _ rfl rfl rfl _ (by rw [moved]; rfl))
    (by rw [moved]; exact shows.edgeless) (fun other bound => ?_) (by rw [moved]; exact shows.started) (counts.trans shows.counted)
  · have known := created other
    rw [QueryGraph.Created,moved]
    by_cases here : other = id
    · subst here
      simpa [LoreDB.Library.PropertyGraph.setNode,present,QueryGraph.Created] using known
    · simpa [LoreDB.Library.PropertyGraph.setNode,here,QueryGraph.Created] using known
  · rw [moved] at bound
    rw [QueryGraph.Created,moved]
    by_cases here : other = id
    · subst here
      exact shows.created other (by simp [held])
    · exact shows.created other (by simpa [LoreDB.Library.PropertyGraph.setNode,here] using bound)

theorem deleteNode_shows (id : NodeId) (shows : ShowsVersions store state) (running : Underway t store) :
    (perform hash t store (.deleteNode id)).1 = some (state.answer (.deleteNode id)) ∧
      ShowsVersions (perform hash t store (.deleteNode id)).2 (state.perform hash (.deleteNode id)) ∧
      Underway t (perform hash t store (.deleteNode id)).2 := by
  obtain ⟨pages,represents,edgeless,same,created⟩ := shows.paged
  have page : (GraphHistory.get .node id store).1 = readNode pages.graph id := represents.tells.nodes id
  have erased : (state.perform hash (.deleteNode id)).model =
      {state.model with graph := state.model.graph.eraseNode id} :=
    if_neg (by simp [edgeless_attached shows.edgeless])
  have counted : (state.perform hash (.deleteNode id)).count = state.count := by
    unfold QueryGraph.perform
    dsimp only
    split <;> simp_all [shows.versioned]
  have unerased (other : NodeId) (bound : (state.model.graph.eraseNode id).nodes other ≠ none) :
      other ≠ id ∧ state.model.graph.nodes other ≠ none := by
    by_cases here : other = id
    · subst here
      simp [LoreDB.Library.PropertyGraph.eraseNode] at bound
    · exact ⟨here,by simpa [LoreDB.Library.PropertyGraph.eraseNode,here] using bound⟩
  by_cases known : state.Created id
  · have answered : state.answer (.deleteNode id) = .ok id := by
      rw [QueryGraph.answer,if_neg (fun both => both.2 known),CountedGraph.answer,
        if_neg (by simp [edgeless_attached shows.edgeless]),if_neg (by simp [edgeless_attached shows.edgeless])]
    have present := (created id).mpr known
    obtain ⟨properties,bound⟩ := Option.ne_none_iff_exists'.mp present
    have first : firstPart hash store (.deleteNode id) = (.ok id,store) := by
      refine Prod.ext ?_ (get_store .node id store)
      change (GraphHistory.get .node id store).1.map _ = _
      rw [page,readNode,bound]
      rfl
    rw [answered]
    refine perform_shows hash (.deleteNode id) shows running id _ first _ shows.versioned pages
      ⟨represents,edgeless,same.trans (by rw [erased]),fun other => ?_⟩ (fun contents holding => ?_)
      (by rw [erased]; exact shows.edgeless) (fun other bound => ?_) (by rw [erased]; exact shows.started)
      (shows.counted.trans counted.symm)
    · rw [created,QueryGraph.Created,QueryGraph.Created,erased]
    · refine holding.unbound id _ ?_ _ (by rw [erased]; rfl)
      have positive := (SerialHistory.active_issued shows.sound.versions.wellformed running.2).1
      exact Nat.ne_of_gt positive
    · rw [erased] at bound
      have before := shows.created other (unerased other bound).2
      rwa [QueryGraph.Created,erased]
  · have answered : state.answer (.deleteNode id) = .error ⟨.notFound,"Node not found"⟩ := by
      rw [QueryGraph.answer,if_pos ⟨shows.versioned,known⟩]
    have missing : pages.graph.nodes id = none := by
      by_contra present
      exact known ((created id).mp present)
    have first : firstPart hash store (.deleteNode id) = (.error ⟨.notFound,"Node not found"⟩,store) := by
      refine Prod.ext ?_ (get_store .node id store)
      change (GraphHistory.get .node id store).1.map _ = _
      rw [page,readNode,missing]
      rfl
    have failed : perform hash t store (.deleteNode id) = (some (.error ⟨.notFound,"Node not found"⟩),store) := by
      rw [perform_parts hash t store _ (by rw [shows.sound.enabled]; rfl),first]
    rw [failed,answered]
    refine ⟨rfl,⟨shows.versioned,shows.sound,?_,⟨pages,represents,edgeless,same.trans (by rw [erased]),fun other => ?_⟩,
      by rw [erased]; exact shows.edgeless,fun other bound => ?_,by rw [erased]; exact shows.started,
      shows.counted.trans counted.symm⟩,running⟩
    · obtain ⟨contents,follows,holding⟩ := shows.follows
      refine ⟨contents,follows,fun other => ?_⟩
      have gone : state.model.graph.nodes id = none := by
        by_contra present
        exact known (shows.created id present)
      have unchanged : (state.perform hash (.deleteNode id)).model.graph.nodes = state.model.graph.nodes := by
        rw [erased]
        exact Function.update_eq_self_iff.mpr gone.symm
      rw [unchanged]
      exact holding other
    · rw [created,QueryGraph.Created,QueryGraph.Created,erased]
    · rw [erased] at bound
      have before := shows.created other (unerased other bound).2
      rwa [QueryGraph.Created,erased]

theorem deleteEdge_shows (id : EdgeId) (shows : ShowsVersions store state) (running : Underway t store) :
    (perform hash t store (.deleteEdge id)).1 = some (state.answer (.deleteEdge id)) ∧
      ShowsVersions (perform hash t store (.deleteEdge id)).2 (state.perform hash (.deleteEdge id)) ∧
      Underway t (perform hash t store (.deleteEdge id)).2 := by
  obtain ⟨pages,represents,edgeless,same,created⟩ := shows.paged
  have missing : (GraphHistory.get .edge id store).1 = edgeNotFound :=
    (represents.tells.edges id).trans (edgeless_reads edgeless id)
  have answered : state.answer (.deleteEdge id) = .error ⟨.notFound,"Edge not found"⟩ := by
    change (readEdge state.model.graph id).map _ = _
    rw [edgeless_reads shows.edgeless]
    rfl
  have moved : (state.perform hash (.deleteEdge id)).model = state.model := by
    change {state.model with graph := state.model.graph.eraseEdge id} = state.model
    rw [LoreDB.Library.PropertyGraph.eraseEdge_absent id _ (by rw [LoreDB.Library.PropertyGraph.edge?,shows.edgeless]; rfl)]
  have first : firstPart hash store (.deleteEdge id) = (.error ⟨.notFound,"Edge not found"⟩,store) := by
    have read : getEdge id store = (edgeNotFound,store) := Prod.ext missing (get_store .edge id store)
    simp only [firstPart,GraphRefinement.answer,GraphHistory.plain,deleteEdge,read]
    rfl
  have failed : perform hash t store (.deleteEdge id) = (some (.error ⟨.notFound,"Edge not found"⟩),store) := by
    rw [perform_parts hash t store _ (by rw [shows.sound.enabled]; rfl),first]
  have same : state.perform hash (.deleteEdge id) = state := by
    have whole : state.perform hash (.deleteEdge id) = {state with model := (state.perform hash (.deleteEdge id)).model} := rfl
    rw [whole,moved]
  rw [failed,answered,same]
  exact ⟨rfl,shows,running⟩

end Operations

end LoreDB.Query.Cypher
