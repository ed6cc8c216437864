import LoreDB.Storage.FilePageStore
import LoreDB.Storage.GraphHistory

/-! The operations with a transaction id as the sequence of their atomic effects. A crash
can come between any two of them, and what is on the pages then should be in the log. -/
namespace LoreDB.Storage.WriteAhead
open LoreDB.Transaction LoreDB.Library GraphStore GraphHistory

def pageType : Kind → PageType
  | .node => .node
  | .edge => .edge

inductive Effect where
  | takeId (kind : Kind)
  | readPage (page : PageId)
  | allocatePage
  | writePage (kind : Kind) (id : UInt64) (page : PageId) (image : Bytes)
  | refusedWrite (page : PageId) (image : Bytes)
  | index (kind : Kind) (id : UInt64) (entry : Option PageId)
  | adjacency (fromNode toNode : NodeId) (edgeId : EdgeId) (add : Bool)
  | eraseLists (nodeId : NodeId)
  | count (kind : Kind) (up : Bool)
  | version (key : UInt64) (version : Version)
  | log (op : String) (id : UInt64)
  | manage (call : MvccHistory.Call)

inductive Call where
  | perform (txId : Nat) (operation : Operation)
  | manage (call : MvccHistory.Call)

section Model

variable {σ : Type} [PageStore σ]

def setIndex (kind : Kind) (id : UInt64) (entry : Option PageId) (store : GraphStore σ) : GraphStore σ :=
  match kind with
  | .node => {store with nodePageIndex := Function.update store.nodePageIndex id entry}
  | .edge => {store with edgePageIndex := Function.update store.edgePageIndex id entry}

def Effect.apply (store : GraphStore σ) : Effect → GraphStore σ
  | .takeId .node => {store with nextNodeId := store.nextNodeId + 1}
  | .takeId .edge => {store with nextEdgeId := store.nextEdgeId + 1}
  | .readPage page => {store with pageStore := (PageStore.readPage page store.pageStore).2}
  | .allocatePage => {store with pageStore := (PageStore.allocatePage store.pageStore).2}
  | .writePage _ _ page image | .refusedWrite page image =>
    {store with pageStore := (PageStore.writePage page image store.pageStore).2}
  | .index kind id entry => setIndex kind id entry store
  | .adjacency fromNode toNode edgeId add => updateAdjacencyLists fromNode toNode edgeId add store
  | .eraseLists nodeId => {store with
    outgoingEdges := Function.update store.outgoingEdges nodeId []
    incomingEdges := Function.update store.incomingEdges nodeId []}
  | .count .node up =>
    {store with nodeCount := if up then store.nodeCount + 1 else store.nodeCount - 1}
  | .count .edge up =>
    {store with edgeCount := if up then store.edgeCount + 1 else store.edgeCount - 1}
  | .version key written => (store.writeVersion key written).2
  | .log op id => store.logOperation op id
  | .manage call => GraphHistory.manage call store

/-- The store at a crash behind these effects. -/
def crashed (store : GraphStore σ) (effects : List Effect) : GraphStore σ :=
  effects.foldl Effect.apply store

/-- A page is written before the index leads to it. -/
def storeEffects (kind : Kind) (id : UInt64) (serialized : Bytes) (store : GraphStore σ) : List Effect :=
  match PageStore.allocatePage store.pageStore with
  | (.error _,_) => [.allocatePage]
  | (.ok page,pages) =>
    let image := pageImage page (pageType kind) serialized
    match PageStore.writePage page image pages with
    | (.error _,_) => [.allocatePage,.refusedWrite page image]
    | (.ok (),_) => [.allocatePage,.writePage kind id page image,.index kind id (some page)]

def readEffects : Option PageId → List Effect
  | none => []
  | some page => [.readPage page]

/-- The log line is appended behind the version, unless the call waits or reports that
the version was refused. -/
def versionEffects (refused : Option String) (op : String) (key : UInt64) (version : Version)
    (store : GraphStore σ) : List Effect :=
  .version key version::
    match store.writeVersion key version with
    | (none,_) => []
    | (some (.error _),_) => if refused.isSome then [] else [.log op key]
    | (some (.ok ()),_) => [.log op key]

variable (hash : Bytes → UInt64)

def effects (txId : Nat) (store : GraphStore σ) (operation : Operation) : List Effect :=
  let version := operation.version hash txId store
  match operation with
  | .createNode properties =>
    let node : NodeRecord := {
      id := store.nextNodeId, propertyCount := UInt32.ofNat properties.length}
    let taken := {store with nextNodeId := store.nextNodeId + 1}
    .takeId .node::storeEffects .node store.nextNodeId
        (RecordSerializer.serializeNode node properties) taken ++
      match createNode properties store with
      | (.error _,_) => []
      | (.ok nodeId,stored) => .count .node true::
        if stored.mvccManager.isNone then []
        else versionEffects (some "MVCC write failed") "create_node" nodeId version stored
  | .updateNode id properties =>
    readEffects (store.nodePageIndex id) ++
      match getNode id store with
      | (.error _,_) => []
      | (.ok (node,_),found) =>
        storeEffects .node id (RecordSerializer.serializeNode
            {node with propertyCount := UInt32.ofNat properties.length} properties) found ++
          match updateNode id properties store with
          | (.error _,_) => []
          | (.ok (),stored) =>
            versionEffects (some "MVCC write failed") "update_node" id version stored
  | .deleteNode id =>
    readEffects (store.nodePageIndex id) ++
      match getNode id store with
      | (.error _,_) => []
      | (.ok _,found) =>
        if found.mvccManager.isSome then
          versionEffects (some "Failed to write tombstone version") "delete_node" id version found
        else
          match deleteNode id found with
          | (.error _,_) => []
          | (.ok (),_) => [.index .node id none,.eraseLists id,.count .node false,.log "delete_node" id]
  | .createEdge clock fromNode toNode label properties =>
    let edge : EdgeRecord := {
      id := store.nextEdgeId
      fromNode := fromNode
      toNode := toNode
      labelId := (hash label).toUInt32
      propertyCount := UInt32.ofNat properties.length
      timestamp := clock}
    let taken := {store with nextEdgeId := store.nextEdgeId + 1}
    .takeId .edge::storeEffects .edge store.nextEdgeId
        (RecordSerializer.serializeEdge edge properties) taken ++
      match createEdge hash clock fromNode toNode label properties store with
      | (.error _,_) => []
      | (.ok edgeId,stored) => .adjacency fromNode toNode edgeId true::.count .edge true::
        versionEffects none "create_edge" edgeId version stored
  | .updateEdge id properties =>
    readEffects (store.edgePageIndex id) ++
      match getEdge id store with
      | (.error _,_) => []
      | (.ok (edge,_),found) =>
        storeEffects .edge id (RecordSerializer.serializeEdge
            {edge with propertyCount := UInt32.ofNat properties.length} properties) found ++
          match updateEdge id properties store with
          | (.error _,_) => []
          | (.ok (),stored) => versionEffects none "update_edge" id version stored
  | .deleteEdge id =>
    readEffects (store.edgePageIndex id) ++
      match getEdge id store with
      | (.error _,_) => []
      | (.ok (edge,_),_) =>
        .adjacency edge.fromNode edge.toNode id false::.index .edge id none::.count .edge false::
          match deleteEdge id store with
          | (.error _,_) => []
          | (.ok (),stored) => versionEffects none "delete_edge" id version stored

def callEffects (store : GraphStore σ) : Call → List Effect
  | .perform txId operation => effects hash txId store operation
  | .manage call => [.manage call]

def step (store : GraphStore σ) : Call → GraphStore σ
  | .perform txId operation => (perform hash txId store operation).2
  | .manage call => GraphHistory.manage call store

/-- The effects of a run in their order, each with the number of its call. -/
def trace : Nat → GraphStore σ → List Call → List (Nat × Effect)
  | _, _, [] => []
  | number, store, call::rest =>
    (callEffects hash store call).map (fun effect => (number,effect)) ++
      trace (number + 1) (step hash store call) rest

end Model

/-- At every crash point each page write made so far has its log entry. -/
def Ahead (effects : List (Nat × Effect)) : Prop :=
  ∀ crash number kind id page image, (number,.writePage kind id page image) ∈ effects.take crash →
    ∃ op, (number,.log op id) ∈ effects.take crash

section Connection

variable {σ : Type} [PageStore σ]

@[simp] theorem crashed_nil (store : GraphStore σ) : crashed store [] = store := rfl

@[simp] theorem crashed_cons (store : GraphStore σ) (effect : Effect) (rest : List Effect) :
    crashed store (effect::rest) = crashed (effect.apply store) rest := rfl

@[simp] theorem crashed_append (store : GraphStore σ) (first second : List Effect) :
    crashed store (first ++ second) = crashed (crashed store first) second := List.foldl_append

theorem getRecord_effects {ρ : Type} (entry : Option PageId) (type : PageType)
    (missing wrongType : String) (deserialize : Bytes → Except Error ρ) (store : GraphStore σ) :
    crashed store (readEffects entry) = (getRecord entry type missing wrongType deserialize store).2 := by
  unfold getRecord
  cases entry with
  | none => rfl
  | some page =>
    simp only [readEffects,crashed_cons,crashed_nil,Effect.apply]
    cases PageStore.readPage page store.pageStore with
    | mk result pages =>
      cases result with
      | error e => rfl
      | ok data => rfl

theorem storeNode_effects (id : NodeId) (node : NodeRecord) (properties : List Property)
    (store : GraphStore σ) :
    crashed store (storeEffects .node id (RecordSerializer.serializeNode node properties) store) =
      (storeNodeRecord id node properties store).2 := by
  unfold storeEffects storeNodeRecord storeRecord
  cases allocates : PageStore.allocatePage store.pageStore with
  | mk result pages =>
    cases result with
    | error e => simp [Effect.apply,allocates]
    | ok page =>
      dsimp only [pageType]
      cases writes : PageStore.writePage page
          (pageImage page .node (RecordSerializer.serializeNode node properties)) pages with
      | mk result written =>
        cases result with
        | error e => simp [Effect.apply,allocates,writes]
        | ok _ => simp [Effect.apply,setIndex,allocates,writes]

theorem storeEdge_effects (id : EdgeId) (edge : EdgeRecord) (properties : List Property)
    (store : GraphStore σ) :
    crashed store (storeEffects .edge id (RecordSerializer.serializeEdge edge properties) store) =
      (storeEdgeRecord id edge properties store).2 := by
  unfold storeEffects storeEdgeRecord storeRecord
  cases allocates : PageStore.allocatePage store.pageStore with
  | mk result pages =>
    cases result with
    | error e => simp [Effect.apply,allocates]
    | ok page =>
      dsimp only [pageType]
      cases writes : PageStore.writePage page
          (pageImage page .edge (RecordSerializer.serializeEdge edge properties)) pages with
      | mk result written =>
        cases result with
        | error e => simp [Effect.apply,allocates,writes]
        | ok _ => simp [Effect.apply,setIndex,allocates,writes]

theorem versioned_effects {α : Type} (result : α) (refused : Option String) (op : String)
    (key : UInt64) (written : Version) (store : GraphStore σ) :
    crashed store (versionEffects refused op key written store) =
      (versioned result refused op key written store).2 := by
  unfold versionEffects versioned
  cases writes : store.writeVersion key written with
  | mk outcome next =>
    rcases outcome with _ | _ | _
    · simp [Effect.apply,writes]
    · cases refused with
      | none => simp [Effect.apply,writes]
      | some message => simp [Effect.apply,writes]
    · simp [Effect.apply,writes]

theorem perform_effects (hash : Bytes → UInt64) (txId : Nat) (store : GraphStore σ)
    (operation : Operation) :
    crashed store (effects hash txId store operation) = (perform hash txId store operation).2 := by
  cases operation with
  | createNode properties =>
    simp only [effects,perform,createNodeTx,createNode,crashed_cons,crashed_append,Effect.apply,
      storeNode_effects]
    cases storeNodeRecord store.nextNodeId
        {id := store.nextNodeId, propertyCount := UInt32.ofNat properties.length} properties
        {store with nextNodeId := store.nextNodeId + 1} with
    | mk result stored =>
      cases result with
      | error e => rfl
      | ok _ =>
        simp only [crashed_cons,Effect.apply,if_true]
        split
        · rfl
        · exact versioned_effects _ _ _ _ _ _
  | updateNode id properties =>
    have reads := getRecord_effects (store.nodePageIndex id) .node "Node not found"
      "Invalid page type for node" RecordSerializer.deserializeNode store
    simp only [effects,perform,perform.keyed,updateNodeTx,updateNode,crashed_append,reads]
    rw [← getNode]
    rcases getNode id store with ⟨_ | ⟨node,_⟩,found⟩
    · rfl
    · simp only [crashed_append,storeNode_effects]
      rcases storeNodeRecord id {node with propertyCount := UInt32.ofNat properties.length} properties
          found with ⟨_ | _,stored⟩
      · rfl
      · exact versioned_effects _ _ _ _ _ _
  | deleteNode id =>
    have reads := getRecord_effects (store.nodePageIndex id) .node "Node not found"
      "Invalid page type for node" RecordSerializer.deserializeNode store
    simp only [effects,perform,perform.keyed,deleteNodeTx,crashed_append,reads]
    rw [← getNode]
    rcases getNode id store with ⟨_ | _,found⟩
    · rfl
    · dsimp only
      split
      · exact versioned_effects _ _ _ _ _ _
      · by_cases outgoing : getOutgoingEdges id found = []
        · by_cases incoming : getIncomingEdges id found = []
          · simp only [deleteNode,outgoing,incoming,ne_eq,not_true,if_false]
            rfl
          · simp [deleteNode,outgoing,incoming]
        · simp [deleteNode,outgoing]
  | createEdge clock fromNode toNode label properties =>
    simp only [effects,perform,createEdgeTx,createEdge,crashed_cons,crashed_append,Effect.apply,
      storeEdge_effects]
    rcases storeEdgeRecord store.nextEdgeId {
        id := store.nextEdgeId
        fromNode := fromNode
        toNode := toNode
        labelId := (hash label).toUInt32
        propertyCount := UInt32.ofNat properties.length
        timestamp := clock} properties {store with nextEdgeId := store.nextEdgeId + 1} with
      ⟨_ | _,stored⟩
    · rfl
    · exact versioned_effects _ _ _ _ _ _
  | updateEdge id properties =>
    have reads := getRecord_effects (store.edgePageIndex id) .edge "Edge not found"
      "Invalid page type for edge" RecordSerializer.deserializeEdge store
    simp only [effects,perform,perform.keyed,updateEdgeTx,updateEdge,crashed_append,reads]
    rw [← getEdge]
    rcases getEdge id store with ⟨_ | ⟨edge,_⟩,found⟩
    · rfl
    · simp only [crashed_append,storeEdge_effects]
      rcases storeEdgeRecord id {edge with propertyCount := UInt32.ofNat properties.length} properties
          found with ⟨_ | _,stored⟩
      · rfl
      · exact versioned_effects _ _ _ _ _ _
  | deleteEdge id =>
    have reads := getRecord_effects (store.edgePageIndex id) .edge "Edge not found"
      "Invalid page type for edge" RecordSerializer.deserializeEdge store
    simp only [effects,perform,perform.keyed,deleteEdgeTx,deleteEdge,crashed_append,reads]
    rw [← getEdge]
    rcases getEdge id store with ⟨_ | ⟨edge,_⟩,found⟩
    · rfl
    · exact versioned_effects _ _ _ _ _ _

theorem trace_effects (hash : Bytes → UInt64) (number : Nat) (store : GraphStore σ) (calls : List Call) :
    crashed store ((trace hash number store calls).map Prod.snd) =
      History.run (step hash) store calls := by
  induction calls generalizing number store with
  | nil => rfl
  | cons call rest ih =>
    have first : crashed store (callEffects hash store call) = step hash store call := by
      cases call with
      | perform txId operation => exact perform_effects hash txId store operation
      | manage call => rfl
    rw [trace,List.map_append,List.map_map,crashed_append,History.run_cons,← ih (number + 1)]
    simp only [Function.comp_def,List.map_id']
    rw [first]

end Connection

/-- No page is written. -/
def Quiet (effects : List Effect) : Prop :=
  ∀ kind id page image, .writePage kind id page image ∉ effects

/-- A page is written, and nothing has been logged before. -/
def Exposed (effects : List Effect) : Prop :=
  ∃ before kind id page image after, effects = before ++ .writePage kind id page image::after ∧
    ∀ op key, .log op key ∉ before

theorem readEffects_quiet (entry : Option PageId) : Quiet (readEffects entry) := by
  cases entry with
  | none => simp [Quiet,readEffects]
  | some page => simp [Quiet,readEffects]

theorem readEffects_unlogged (entry : Option PageId) (op : String) (key : UInt64) :
    .log op key ∉ readEffects entry := by
  cases entry with
  | none => simp [readEffects]
  | some page => simp [readEffects]

theorem versionEffects_quiet {σ : Type} (refused : Option String) (op : String) (key : UInt64)
    (written : Version) (store : GraphStore σ) :
    Quiet (versionEffects refused op key written store) := by
  intro kind id page image
  unfold versionEffects
  split
  · simp
  · split
    · simp
    · simp
  · simp

theorem quiet_cons (effect : Effect) (rest : List Effect)
    (other : ∀ kind id page image, effect ≠ .writePage kind id page image) (later : Quiet rest) :
    Quiet (effect::rest) := by
  intro kind id page image member
  rcases List.mem_cons.mp member with same | inside
  · exact other kind id page image same.symm
  · exact later kind id page image inside

theorem quiet_append (first second : List Effect) :
    Quiet (first ++ second) ↔ Quiet first ∧ Quiet second := by
  simp only [Quiet,List.mem_append,not_or]
  exact ⟨fun both => ⟨fun kind id page image => (both kind id page image).1,
    fun kind id page image => (both kind id page image).2⟩,
    fun both kind id page image => ⟨both.1 kind id page image,both.2 kind id page image⟩⟩

section Condition

variable {σ : Type} [PageStore σ]

/-- The page store has no page for the record, or it refuses the page. -/
def Refused (kind : Kind) (serialized : Bytes) (store : GraphStore σ) : Prop :=
  (storeRecord (pageType kind) serialized store).1.isOk = false

instance (kind : Kind) (serialized : Bytes) (store : GraphStore σ) :
    Decidable (Refused kind serialized store) :=
  inferInstanceAs (Decidable (_ = _))

/-- The operation gets nothing onto the pages. -/
def Unwritten (hash : Bytes → UInt64) (store : GraphStore σ) : Operation → Prop
  | .createNode properties =>
    Refused .node (RecordSerializer.serializeNode {
      id := store.nextNodeId, propertyCount := UInt32.ofNat properties.length} properties) store
  | .updateNode id properties =>
    match getNode id store with
    | (.error _,_) => True
    | (.ok (node,_),found) => Refused .node (RecordSerializer.serializeNode
        {node with propertyCount := UInt32.ofNat properties.length} properties) found
  | .createEdge clock fromNode toNode label properties =>
    Refused .edge (RecordSerializer.serializeEdge {
      id := store.nextEdgeId
      fromNode := fromNode
      toNode := toNode
      labelId := (hash label).toUInt32
      propertyCount := UInt32.ofNat properties.length
      timestamp := clock} properties) store
  | .updateEdge id properties =>
    match getEdge id store with
    | (.error _,_) => True
    | (.ok (edge,_),found) => Refused .edge (RecordSerializer.serializeEdge
        {edge with propertyCount := UInt32.ofNat properties.length} properties) found
  | .deleteNode _ | .deleteEdge _ => True

def Harmless (hash : Bytes → UInt64) (store : GraphStore σ) : Call → Prop
  | .perform _ operation => Unwritten hash store operation
  | .manage _ => True

theorem storeEffects_cases (kind : Kind) (id : UInt64) (serialized : Bytes) (store : GraphStore σ) :
    Refused kind serialized store ∧ Quiet (storeEffects kind id serialized store) ∨
      ¬Refused kind serialized store ∧ ∃ page image, storeEffects kind id serialized store =
        [.allocatePage,.writePage kind id page image,.index kind id (some page)] := by
  unfold Refused storeRecord storeEffects
  cases PageStore.allocatePage store.pageStore with
  | mk result pages =>
    cases result with
    | error e => exact .inl ⟨rfl,by simp [Quiet]⟩
    | ok page =>
      dsimp only
      cases PageStore.writePage page (pageImage page (pageType kind) serialized) pages with
      | mk result written =>
        cases result with
        | error e => exact .inl ⟨rfl,by simp [Quiet]⟩
        | ok _ => exact .inr ⟨by simp [Except.isOk,Except.toBool],page,_,rfl⟩

theorem refused_next (kind : Kind) (serialized : Bytes) (first second : GraphStore σ)
    (same : first.pageStore = second.pageStore) :
    Refused kind serialized first ↔ Refused kind serialized second := by
  unfold Refused storeRecord
  rw [same]
  cases PageStore.allocatePage second.pageStore with
  | mk result pages =>
    cases result with
    | error e => rfl
    | ok page =>
      dsimp only
      cases PageStore.writePage page (pageImage page (pageType kind) serialized) pages with
      | mk result written =>
        cases result with
        | error e => rfl
        | ok _ => rfl

/-- Storing a record between other effects that log nothing before it. -/
theorem stored_between (kind : Kind) (id : UInt64) (serialized : Bytes) (store : GraphStore σ)
    (before after : List Effect) (silent : Quiet before) (unlogged : ∀ op key, .log op key ∉ before)
    (later : Quiet after) :
    Refused kind serialized store ∧
        Quiet (before ++ (storeEffects kind id serialized store ++ after)) ∨
      ¬Refused kind serialized store ∧
        Exposed (before ++ (storeEffects kind id serialized store ++ after)) := by
  rcases storeEffects_cases kind id serialized store with ⟨refused,quiet⟩ | ⟨stored,page,image,effects⟩
  · exact .inl ⟨refused,(quiet_append _ _).mpr ⟨silent,(quiet_append _ _).mpr ⟨quiet,later⟩⟩⟩
  · refine .inr ⟨stored,before ++ [.allocatePage],kind,id,page,image,
      .index kind id (some page)::after,?_,?_⟩
    · simp [effects]
    · simpa using unlogged

theorem effects_cases (hash : Bytes → UInt64) (txId : Nat) (store : GraphStore σ)
    (operation : Operation) :
    Unwritten hash store operation ∧ Quiet (effects hash txId store operation) ∨
      ¬Unwritten hash store operation ∧ Exposed (effects hash txId store operation) := by
  cases operation with
  | createNode properties =>
    rw [Unwritten,← refused_next _ _ {store with nextNodeId := store.nextNodeId + 1} store rfl]
    apply stored_between .node store.nextNodeId _ _ [.takeId .node] _ (by simp [Quiet]) (by simp)
    split
    · simp [Quiet]
    · apply quiet_cons
      · exact fun _ _ _ _ absurd => nomatch absurd
      · split
        · simp [Quiet]
        · exact versionEffects_quiet _ _ _ _ _
  | updateNode id properties =>
    have first := readEffects_quiet (store.nodePageIndex id)
    unfold Unwritten
    simp only [effects]
    rcases getNode id store with ⟨_ | ⟨node,_⟩,found⟩
    · exact .inl ⟨trivial,by simpa using first⟩
    · apply stored_between _ _ _ _ _ _ first (readEffects_unlogged _)
      split
      · simp [Quiet]
      · exact versionEffects_quiet _ _ _ _ _
  | deleteNode id =>
    refine .inl ⟨trivial,(quiet_append _ _).mpr ⟨readEffects_quiet _,?_⟩⟩
    split
    · simp [Quiet]
    · split
      · exact versionEffects_quiet _ _ _ _ _
      · split
        · simp [Quiet]
        · simp [Quiet]
  | createEdge clock fromNode toNode label properties =>
    rw [Unwritten,← refused_next _ _ {store with nextEdgeId := store.nextEdgeId + 1} store rfl]
    apply stored_between .edge store.nextEdgeId _ _ [.takeId .edge] _ (by simp [Quiet]) (by simp)
    split
    · simp [Quiet]
    · apply quiet_cons
      · exact fun _ _ _ _ absurd => nomatch absurd
      · apply quiet_cons
        · exact fun _ _ _ _ absurd => nomatch absurd
        · exact versionEffects_quiet _ _ _ _ _
  | updateEdge id properties =>
    have first := readEffects_quiet (store.edgePageIndex id)
    unfold Unwritten
    simp only [effects]
    rcases getEdge id store with ⟨_ | ⟨edge,_⟩,found⟩
    · exact .inl ⟨trivial,by simpa using first⟩
    · apply stored_between _ _ _ _ _ _ first (readEffects_unlogged _)
      split
      · simp [Quiet]
      · exact versionEffects_quiet _ _ _ _ _
  | deleteEdge id =>
    refine .inl ⟨trivial,(quiet_append _ _).mpr ⟨readEffects_quiet _,?_⟩⟩
    split
    · simp [Quiet]
    · apply quiet_cons
      · exact fun _ _ _ _ absurd => nomatch absurd
      · apply quiet_cons
        · exact fun _ _ _ _ absurd => nomatch absurd
        · apply quiet_cons
          · exact fun _ _ _ _ absurd => nomatch absurd
          · split
            · simp [Quiet]
            · exact versionEffects_quiet _ _ _ _ _

theorem callEffects_cases (hash : Bytes → UInt64) (store : GraphStore σ) (call : Call) :
    Harmless hash store call ∧ Quiet (callEffects hash store call) ∨
      ¬Harmless hash store call ∧ Exposed (callEffects hash store call) := by
  cases call with
  | perform txId operation => exact effects_cases hash txId store operation
  | manage call => exact .inl ⟨trivial,by simp [Quiet,callEffects]⟩

theorem trace_numbers (hash : Bytes → UInt64) (number : Nat) (store : GraphStore σ)
    (calls : List Call) : ∀ entry ∈ trace hash number store calls, number ≤ entry.1 := by
  induction calls generalizing number store with
  | nil => simp [trace]
  | cons call rest ih =>
    intro entry member
    rcases List.mem_append.mp member with inside | later
    · obtain ⟨effect,_,rfl⟩ := List.mem_map.mp inside
      exact Nat.le_refl number
    · exact Nat.le_of_succ_le (ih _ _ entry later)

/-- The rule holds at every crash point exactly if no call gets anything onto the pages. -/
theorem ahead_iff (hash : Bytes → UInt64) (number : Nat) (store : GraphStore σ) (calls : List Call) :
    Ahead (trace hash number store calls) ↔
      History.Guarded (step hash) (Harmless hash) store calls := by
  induction calls generalizing number store with
  | nil => simp [Ahead,trace]
  | cons call rest ih =>
    have later := trace_numbers hash (number + 1) (step hash store call) rest
    rw [History.guarded_cons,← ih (number + 1),trace]
    rcases callEffects_cases hash store call with ⟨harmless,quiet⟩ | ⟨harms,exposed⟩
    · have silent (kind : Kind) (id : UInt64) (page : PageId) (image : Bytes) (number' : Nat) :
          (number',Effect.writePage kind id page image) ∉
            (callEffects hash store call).map fun effect => (number,effect) := by
        intro member
        obtain ⟨effect,inside,same⟩ := List.mem_map.mp member
        cases same
        exact quiet kind id page image inside
      constructor
      · refine fun ahead => ⟨harmless,fun crash number' kind id page image member => ?_⟩
        -- the same crash point, counted from the start of the run
        have found := ahead ((callEffects hash store call).length + crash) number' kind id page image
        simp only [List.take_append,List.length_map,List.mem_append,Nat.add_sub_cancel_left] at found
        obtain ⟨op,before | after⟩ := found (.inr member)
        · obtain ⟨effect,_,same⟩ := List.mem_map.mp (List.mem_of_mem_take before)
          cases same
          exact absurd (later _ (List.mem_of_mem_take member)) (Nat.not_succ_le_self number)
        · exact ⟨op,after⟩
      · rintro ⟨_,ahead⟩ crash number' kind id page image member
        rw [List.take_append] at member ⊢
        rcases List.mem_append.mp member with before | after
        · exact absurd (List.mem_of_mem_take before) (silent kind id page image number')
        · obtain ⟨op,found⟩ := ahead _ _ _ _ _ _ after
          exact ⟨op,List.mem_append.mpr (.inr found)⟩
    · refine iff_of_false (fun ahead => ?_) (fun both => harms both.1)
      obtain ⟨before,kind,id,page,image,after,effects,unlogged⟩ := exposed
      have crash : ((callEffects hash store call).map (fun effect => (number,effect)) ++
          trace hash (number + 1) (step hash store call) rest).take (before.length + 1) =
          (before ++ [Effect.writePage kind id page image]).map fun effect => (number,effect) := by
        have shape : (callEffects hash store call).map (fun effect => (number,effect)) ++
            trace hash (number + 1) (step hash store call) rest =
            (before ++ [Effect.writePage kind id page image]).map (fun effect => (number,effect)) ++
              (after.map (fun effect => (number,effect)) ++
                trace hash (number + 1) (step hash store call) rest) := by
          simp [effects]
        rw [shape]
        exact List.take_left' (by simp)
      obtain ⟨op,logged⟩ := ahead (before.length + 1) number kind id page image (by simp [crash])
      rw [crash] at logged
      obtain ⟨effect,inside,same⟩ := List.mem_map.mp logged
      cases same
      rcases List.mem_append.mp inside with early | last
      · exact unlogged op id early
      · simp at last

/-- On a graph store with versions and a log, each page change is in the log at every
crash point exactly if no call of the run changes a page. -/
theorem write_ahead_iff (hash : Bytes → UInt64) (pages : σ) (wal : WALManager) (calls : List Call) :
    Ahead (trace hash 0 (opened pages (some wal)) calls) ↔
      History.Guarded (step hash) (Harmless hash) (opened pages (some wal)) calls :=
  ahead_iff hash 0 (opened pages (some wal)) calls

end Condition

/-- The page of the first node is written before anything is in the log. -/
theorem written_unlogged : ¬Ahead (trace (fun _ => 0) 0
    (opened ({} : FilePageStore) (some (WALManager.create 0)))
    [.manage .begin,.perform 1 (.createNode [])]) := by
  rw [ahead_iff]
  rintro ⟨_,unwritten,_⟩
  change Refused .node _ _ at unwritten
  exact absurd unwritten (by decide +kernel)

end LoreDB.Storage.WriteAhead
