import LoreDB.Storage.ConcurrentCreations

/-! However clients interleave their creations, they make the graph that the same calls make one after the other, in
the order of their ids. While calls are under way their records are missing; nothing else is. -/
namespace LoreDB.Storage.ConcurrentCreations
open LoreDB.Library LoreDB.Library.History LoreDB.Library.Linearization GraphStore GraphHistory GraphRefinement
  RecordSerializer FilePageStore

/-- The graph that whole calls make one after the other, and what they return. -/
structure Serial (Client : Type) where
  model : CountedGraph
  nodeCount : UInt64
  answers : Client → List (Call × Except Error UInt64) := fun _ => []

def countNode (nodeCount : UInt64) : Kind → UInt64
  | .node => nodeCount + 1
  | .edge => nodeCount

section Model

variable {Client : Type} [DecidableEq Client]

def serially (hash : Bytes → UInt64) (serial : Serial Client) (made : Client × Call) : Serial Client where
  model := serial.model.step hash made.2.operation
  nodeCount := countNode serial.nodeCount made.2.kind
  answers := Function.update serial.answers made.1
    (serial.answers made.1 ++ [(made.2,serial.model.answer made.2.operation)])

/-- A creation takes effect when it takes its id. -/
def effect (shared : Shared Client) : Event Client → Option (Client × Call)
  | .call _ _ => none
  | .advance client =>
    match shared.phase client with
    | .starting call => some (client,call)
    | _ => none

/-- The record fits its page and the counter does not wrap. -/
def CreationFits (hash : Bytes → UInt64) (shared : Shared Client) (event : Event Client) : Prop :=
  ∀ made ∈ effect shared event, Fits hash shared.store made.2.operation

instance (hash : Bytes → UInt64) (shared : Shared Client) (event : Event Client) :
    Decidable (CreationFits hash shared event) := inferInstanceAs (Decidable (∀ _ ∈ _, _))

end Model

/-- What the graph has to say about an id. -/
def reading (graph : Graph) : (kind : Kind) → UInt64 → Except Error (kind.Record × List Property)
  | .node => readNode graph
  | .edge => readEdge graph

def modelId (model : CountedGraph) : Kind → UInt64
  | .node => model.nextNodeId
  | .edge => model.nextEdgeId

/-- The call that a client has an id for, ... -/
def underway : Phase → Option (Call × UInt64)
  | .numbered call id | .allocated call id _ | .written call id _ | .indexed call id | .linked call id => some (call,id)
  | .idle | .starting _ => none

/-- ... the record that it has not put into the index yet, ... -/
def hidden : Phase → Option (Kind × UInt64)
  | .numbered call id | .allocated call id _ | .written call id _ => some (call.kind,id)
  | .idle | .starting _ | .indexed _ _ | .linked _ _ => none

/-- ... or not into the lists, ... -/
def unlinked : Phase → Option (Kind × UInt64)
  | .numbered call id | .allocated call id _ | .written call id _ | .indexed call id => some (call.kind,id)
  | .idle | .starting _ | .linked _ _ => none

/-- ... its page, ... -/
def reserved : Phase → Option PageId
  | .allocated _ _ page | .written _ _ page => some page
  | .idle | .starting _ | .numbered _ _ | .indexed _ _ | .linked _ _ => none

/-- ... and what is still to be counted. -/
def uncounted (kind : Kind) (phase : Phase) : ℕ := (underway phase).elim 0 fun (call,_) => if call.kind = kind then 1 else 0

theorem hidden_underway {phase : Phase} {kind : Kind} {id : UInt64} (missing : hidden phase = some (kind,id)) :
    ∃ call, underway phase = some (call,id) ∧ call.kind = kind := by
  cases phase with
  | numbered call _ | allocated call _ _ | written call _ _ =>
    cases missing
    exact ⟨call,rfl,rfl⟩
  | idle | starting _ | indexed _ _ | linked _ _ => cases missing

theorem unlinked_underway {phase : Phase} {kind : Kind} {id : UInt64} (missing : unlinked phase = some (kind,id)) :
    ∃ call, underway phase = some (call,id) ∧ call.kind = kind := by
  cases phase with
  | numbered call _ | allocated call _ _ | written call _ _ | indexed call _ =>
    cases missing
    exact ⟨call,rfl,rfl⟩
  | idle | starting _ | linked _ _ => cases missing

section Invariant

variable {Client : Type}

/-- The calls under way have ids of their own, and the graph has their records already. -/
structure Numbered (hash : Bytes → UInt64) (phase : Client → Phase) (model : CountedGraph) : Prop where
  recorded : ∀ client call id, underway (phase client) = some (call,id) →
    reading model.graph call.kind id = .ok (call.record hash id) ∧ FitsPage (call.serialized hash id) ∧
      id < modelId model call.kind
  apart : ∀ client other call another id, underway (phase client) = some (call,id) →
    underway (phase other) = some (another,id) → call.kind = another.kind → client = other

/-- Their pages are their own, and hold the records that have been written. -/
structure Paged (hash : Bytes → UInt64) (phase : Client → Phase) (store : GraphStore FilePageStore) : Prop where
  isOpen : store.pageStore.isClosed = false
  placed : Placed store
  held : ∀ client page, reserved (phase client) = some page →
    Allocated store.pageStore page ∧ ∀ kind id, pageIndex store kind id ≠ some page
  apart : ∀ client other page, reserved (phase client) = some page → reserved (phase other) = some page →
    client = other
  written : ∀ client call id page, phase client = .written call id page →
    (readPage page store.pageStore).1 = .ok (sealed page (pageImage page call.type (call.serialized hash id)))

/-- What is in the index can be read. -/
structure Told (phase : Client → Phase) (store : GraphStore FilePageStore) (graph : Graph) : Prop where
  told : ∀ kind id, (∀ client, hidden (phase client) ≠ some (kind,id)) → (get kind id store).1 = reading graph kind id
  indexed : ∀ id, readEdge graph id = edgeNotFound → store.edgePageIndex id = none

/-- The lists are those of a graph that has all edges but those that are not linked yet. -/
structure Linked (phase : Client → Phase) (store : GraphStore FilePageStore) (graph shown : Graph) : Prop where
  outgoing : ∀ node, store.outgoingEdges node = shown.attached .source node
  incoming : ∀ node, store.incomingEdges node = shown.attached .target node
  edges : ∀ edge, edge ∈ shown.edges ↔ edge ∈ graph.edges ∧ ∀ client, unlinked (phase client) ≠ some (.edge,edge.id)

/-- The counters, behind by the calls under way. -/
structure Counted [Fintype Client] (phase : Client → Phase) (store : GraphStore FilePageStore)
    (serial : Serial Client) : Prop where
  nodeIds : store.nextNodeId = serial.model.nextNodeId
  edgeIds : store.nextEdgeId = serial.model.nextEdgeId
  issued : ∀ id ∈ serial.model.graph.ids, id < serial.model.nextEdgeId
  few : serial.model.graph.edges.length < serial.model.nextEdgeId.toNat
  nodes : store.nodeCount + UInt64.ofNat (∑ client, uncounted .node (phase client)) = serial.nodeCount
  edges : store.edgeCount + UInt64.ofNat (∑ client, uncounted .edge (phase client)) =
    UInt64.ofNat serial.model.graph.edges.length

/-- Clients are told what the calls return that are made one after the other, and find it. -/
structure Answered (hash : Bytes → UInt64) (shared : Shared Client) (serial : Serial Client) : Prop where
  answers : ∀ client, serial.answers client = shared.returned client ++
    ((underway (shared.phase client)).map fun (call,id) => (call,Except.ok id)).toList
  published : ∀ client, ∀ answer ∈ shared.returned client, ∃ id, answer.2 = .ok id ∧
    reading serial.model.graph answer.1.kind id = .ok (answer.1.record hash id) ∧
      id < modelId serial.model answer.1.kind ∧ ∀ other, hidden (shared.phase other) ≠ some (answer.1.kind,id)

structure Follows [Fintype Client] (hash : Bytes → UInt64) (shared : Shared Client) (serial : Serial Client) : Prop where
  numbered : Numbered hash shared.phase serial.model
  paged : Paged hash shared.phase shared.store
  told : Told shared.phase shared.store serial.model.graph
  linked : ∃ shown, Linked shared.phase shared.store serial.model.graph shown
  counted : Counted shared.phase shared.store serial
  answered : Answered hash shared serial

end Invariant

section Frames

variable {Client : Type} [DecidableEq Client] {hash : Bytes → UInt64} {phase : Client → Phase} {client : Client}
  {next : Phase} {store later : GraphStore FilePageStore} {model : CountedGraph} {graph shown : Graph}

theorem about_same {α : Type} {about : Phase → α} (same : about next = about (phase client)) (other : Client) :
    about (Function.update phase client next other) = about (phase other) := by
  by_cases here : other = client
  · rw [here,Function.update_self,same]
  · rw [Function.update_of_ne here]

/-- What a phase tells is old, if the new phase tells nothing new. -/
theorem about_silent {α : Type} {about : Phase → Option α} {a : α} {other : Client}
    (silent : about next = none ∨ about next = about (phase client))
    (told : about (Function.update phase client next other) = some a) : about (phase other) = some a := by
  rcases silent with nothing | same
  · by_cases here : other = client
    · rw [here,Function.update_self,nothing] at told
      cases told
    · rwa [Function.update_of_ne here] at told
  · rwa [about_same same] at told

theorem Numbered.frame (numbered : Numbered hash phase model)
    (silent : underway next = none ∨ underway next = underway (phase client)) :
    Numbered hash (Function.update phase client next) model where
  recorded other call id told := numbered.recorded other call id (about_silent silent told)
  apart other another call known id told also :=
    numbered.apart other another call known id (about_silent silent told) (about_silent silent also)

theorem Paged.frame (paged : Paged hash phase store) (pages : later.pageStore = store.pageStore)
    (index : pageIndex later = pageIndex store) (page : reserved next = none) :
    Paged hash (Function.update phase client next) later where
  isOpen := by rw [pages,paged.isOpen]
  placed kind id number found := by
    rw [pages]
    exact paged.placed kind id number (by rwa [index] at found)
  held other number told := by
    rw [pages,index]
    exact paged.held other number (about_silent (.inl page) told)
  apart other another number told also :=
    paged.apart other another number (about_silent (.inl page) told) (about_silent (.inl page) also)
  written other call id number wrote := by
    rw [pages]
    by_cases here : other = client
    · rw [here,Function.update_self] at wrote
      rw [wrote] at page
      cases page
    · rw [Function.update_of_ne here] at wrote
      exact paged.written other call id number wrote

omit [DecidableEq Client] in
/-- Stores whose indexed pages read alike are read alike. -/
theorem get_alike (index : pageIndex later = pageIndex store)
    (alike : ∀ kind id page, pageIndex store kind id = some page →
      (readPage page later.pageStore).1 = (readPage page store.pageStore).1) (kind : Kind) (id : UInt64) :
    (get kind id later).1 = (get kind id store).1 := by
  have records {ρ : Type} (entry : Option PageId) (type : PageType) (missing wrongType : String)
      (deserialize : Bytes → Except Error ρ) (named : entry = pageIndex store kind id) :
      (getRecord entry type missing wrongType deserialize later).1 =
        (getRecord entry type missing wrongType deserialize store).1 := by
    unfold getRecord
    cases entry with
    | none => rfl
    | some page =>
      have same : (PageStore.readPage page later.pageStore).1 = (PageStore.readPage page store.pageStore).1 :=
        alike kind id page named.symm
      dsimp only
      cases first : PageStore.readPage page store.pageStore with
      | mk result pages =>
        cases second : PageStore.readPage page later.pageStore with
        | mk other others =>
          rw [first,second] at same
          cases same
          cases result <;> rfl
  have entry := congrFun (congrFun index kind) id
  cases kind with
  | node =>
    change later.nodePageIndex id = store.nodePageIndex id at entry
    simp only [GraphHistory.get,getNode,entry]
    exact records _ _ _ _ _ rfl
  | edge =>
    change later.edgePageIndex id = store.edgePageIndex id at entry
    simp only [GraphHistory.get,getEdge,entry]
    exact records _ _ _ _ _ rfl

theorem Told.frame (told : Told phase store graph) (index : pageIndex later = pageIndex store)
    (alike : ∀ kind id page, pageIndex store kind id = some page →
      (readPage page later.pageStore).1 = (readPage page store.pageStore).1)
    (same : hidden next = hidden (phase client)) : Told (Function.update phase client next) later graph where
  told kind id shown := by
    rw [get_alike index alike]
    exact told.told kind id fun other missing => shown other (by rw [about_same same,missing])
  indexed id missing := (congrFun (congrFun index .edge) id).trans (told.indexed id missing)

theorem Linked.frame (linked : Linked phase store graph shown) (outgoing : later.outgoingEdges = store.outgoingEdges)
    (incoming : later.incomingEdges = store.incomingEdges)
    (same : ∀ id, unlinked next = some (.edge,id) ↔ unlinked (phase client) = some (.edge,id)) :
    Linked (Function.update phase client next) later graph shown where
  outgoing := by
    rw [outgoing]
    exact linked.outgoing
  incoming := by
    rw [incoming]
    exact linked.incoming
  edges edge := by
    rw [linked.edges]
    refine and_congr_right fun _ => forall_congr' fun other => not_congr ?_
    by_cases here : other = client
    · rw [here,Function.update_self]
      exact (same edge.id).symm
    · rw [Function.update_of_ne here]

theorem Counted.frame [Fintype Client] {serial : Serial Client} (counted : Counted phase store serial)
    (same : underway next = underway (phase client)) (nodeIds : later.nextNodeId = store.nextNodeId)
    (edgeIds : later.nextEdgeId = store.nextEdgeId) (nodes : later.nodeCount = store.nodeCount)
    (edges : later.edgeCount = store.edgeCount) :
    Counted (Function.update phase client next) later serial where
  nodeIds := nodeIds.trans counted.nodeIds
  edgeIds := edgeIds.trans counted.edgeIds
  issued := counted.issued
  few := counted.few
  nodes := by
    have rest : uncounted .node next = uncounted .node (phase client) := by rw [uncounted,same,uncounted]
    rw [nodes,← counted.nodes,Finset.sum_congr rfl fun other _ => about_same rest other]
  edges := by
    have rest : uncounted .edge next = uncounted .edge (phase client) := by rw [uncounted,same,uncounted]
    rw [edges,← counted.edges,Finset.sum_congr rfl fun other _ => about_same rest other]

theorem Answered.frame {shared : Shared Client} {serial : Serial Client} (answered : Answered hash shared serial)
    (same : underway next = underway (shared.phase client))
    (silent : hidden next = none ∨ hidden next = hidden (shared.phase client)) :
    Answered hash (move client next later shared) serial where
  answers other := by
    rw [answered.answers]
    simp only [move,about_same same]
  published other answer member := by
    obtain ⟨id,result,recorded,below,shown⟩ := answered.published other answer member
    exact ⟨id,result,recorded,below,fun another missing => shown another (about_silent silent missing)⟩

end Frames

section Ids

variable {hash : Bytes → UInt64} {model : CountedGraph} {call : Call}

/-- What a creation adds to the graph, ... -/
theorem step_reading (unissued : model.nextEdgeId ∉ model.graph.ids) :
    reading (model.step hash call.operation).graph call.kind (modelId model call.kind) =
      .ok (call.record hash (modelId model call.kind)) := by
  cases call with
  | createNode properties =>
    change readNode (model.graph.setNode model.nextNodeId properties) model.nextNodeId = _
    rw [readNode_set,Function.update_self]
    rfl
  | createEdge clock fromNode toNode label properties =>
    change readEdge (model.graph.addEdge _) model.nextEdgeId = _
    rw [readEdge_add _ _ unissued,Function.update_self]
    rfl

/-- ... and what it leaves alone. -/
theorem step_others (unissued : model.nextEdgeId ∉ model.graph.ids) (kind : Kind) (id : UInt64)
    (apart : (kind,id) ≠ (call.kind,modelId model call.kind)) :
    reading (model.step hash call.operation).graph kind id = reading model.graph kind id := by
  cases call with
  | createNode properties =>
    cases kind with
    | node =>
      have other : id ≠ model.nextNodeId := fun same => apart (congrArg (Prod.mk Kind.node) same)
      change readNode (model.graph.setNode model.nextNodeId properties) id = _
      rw [readNode_set,Function.update_of_ne other]
      rfl
    | edge => rfl
  | createEdge clock fromNode toNode label properties =>
    cases kind with
    | node =>
      change readNode (model.graph.addEdge _) id = readNode model.graph id
      rw [readNode,PropertyGraph.addEdge_nodes,readNode]
    | edge =>
      have other : id ≠ model.nextEdgeId := fun same => apart (congrArg (Prod.mk Kind.edge) same)
      change readEdge (model.graph.addEdge _) id = _
      rw [readEdge_add _ _ unissued,Function.update_of_ne other]
      rfl

theorem step_answer : model.answer call.operation = .ok (modelId model call.kind) := by
  cases call <;> rfl

/-- Ids that have been taken stay below the counters. -/
theorem step_below (counts : modelId model call.kind + 1 ≠ 0) (kind : Kind) (id : UInt64)
    (below : id < modelId model kind) : id < modelId (model.step hash call.operation) kind := by
  have next := next_toNat _ counts
  rw [UInt64.lt_iff_toNat_lt] at below ⊢
  cases call with
  | createNode properties =>
    cases kind with
    | node =>
      change id.toNat < (model.nextNodeId + 1).toNat
      rw [show (model.nextNodeId + 1).toNat = model.nextNodeId.toNat + 1 from next]
      exact Nat.lt_succ_of_lt below
    | edge => exact below
  | createEdge clock fromNode toNode label properties =>
    cases kind with
    | node => exact below
    | edge =>
      change id.toNat < (model.nextEdgeId + 1).toNat
      rw [show (model.nextEdgeId + 1).toNat = model.nextEdgeId.toNat + 1 from next]
      exact Nat.lt_succ_of_lt below

theorem step_taken (counts : modelId model call.kind + 1 ≠ 0) :
    modelId model call.kind < modelId (model.step hash call.operation) call.kind := by
  have next := next_toNat _ counts
  rw [UInt64.lt_iff_toNat_lt]
  cases call with
  | createNode properties => exact Nat.lt_of_lt_of_eq (Nat.lt_succ_self _) next.symm
  | createEdge clock fromNode toNode label properties => exact Nat.lt_of_lt_of_eq (Nat.lt_succ_self _) next.symm

theorem below_apart {kind : Kind} {id : UInt64} (below : id < modelId model kind) :
    (kind,id) ≠ (call.kind,modelId model call.kind) := by
  intro same
  obtain ⟨rfl,rfl⟩ := Prod.mk.inj same
  exact UInt64.lt_irrefl _ below

end Ids

section Taking

variable {Client : Type} [DecidableEq Client] {hash : Bytes → UInt64} {phase : Client → Phase} {client : Client}
  {store : GraphStore FilePageStore} {model : CountedGraph} {call : Call} {graph shown : Graph}

theorem takeId_index (kind : Kind) : pageIndex (takeId store kind) = pageIndex store := by
  cases kind <;> rfl

theorem Numbered.taken (numbered : Numbered hash phase model) (unissued : model.nextEdgeId ∉ model.graph.ids)
    (counts : modelId model call.kind + 1 ≠ 0) (fits : FitsPage (call.serialized hash (modelId model call.kind))) :
    Numbered hash (Function.update phase client (.numbered call (modelId model call.kind)))
      (model.step hash call.operation) where
  recorded other another id told := by
    by_cases here : other = client
    · rw [here,Function.update_self] at told
      cases told
      exact ⟨step_reading unissued,fits,step_taken counts⟩
    · rw [Function.update_of_ne here] at told
      obtain ⟨recorded,room,below⟩ := numbered.recorded other another id told
      exact ⟨(step_others unissued _ _ (below_apart below)).trans recorded,room,step_below counts _ _ below⟩
  apart other another first second id told also kinds := by
    by_cases here : other = client
    · by_cases there : another = client
      · rw [here,there]
      · rw [here,Function.update_self] at told
        rw [Function.update_of_ne there] at also
        cases told
        have below := (numbered.recorded another second _ also).2.2
        rw [← kinds] at below
        exact absurd below (UInt64.lt_irrefl _)
    · rw [Function.update_of_ne here] at told
      by_cases there : another = client
      · rw [there,Function.update_self] at also
        cases also
        have below := (numbered.recorded other first _ told).2.2
        rw [kinds] at below
        exact absurd below (UInt64.lt_irrefl _)
      · rw [Function.update_of_ne there] at also
        exact numbered.apart other another first second id told also kinds

theorem Told.taken (told : Told phase store model.graph) (placed : Placed store)
    (unissued : model.nextEdgeId ∉ model.graph.ids) (started : phase client = .starting call) :
    Told (Function.update phase client (.numbered call (modelId model call.kind))) (takeId store call.kind)
      (model.step hash call.operation).graph where
  told kind id shown := by
    have apart : (kind,id) ≠ (call.kind,modelId model call.kind) := by
      intro same
      apply shown client
      rw [Function.update_self,same]
      rfl
    rw [step_others unissued kind id apart,get_congr kind id store (takeId store call.kind) placed
      (takeId_pages store call.kind ▸ pages_refl _) (by rw [takeId_index])]
    refine told.told kind id fun other missing => ?_
    by_cases here : other = client
    · rw [here,started] at missing
      cases missing
    · apply shown other
      rwa [Function.update_of_ne here]
  indexed id missing := by
    change pageIndex (takeId store call.kind) .edge id = none
    rw [takeId_index]
    apply told.indexed
    by_cases here : (Kind.edge,id) = (call.kind,modelId model call.kind)
    · have present : reading (model.step hash call.operation).graph call.kind (modelId model call.kind) =
          .ok (call.record hash (modelId model call.kind)) := step_reading unissued
      obtain ⟨kind,named⟩ := Prod.mk.inj here
      rw [← named] at present
      cases call with
      | createNode properties => cases kind
      | createEdge clock fromNode toNode label properties =>
        have found : readEdge _ id = .ok _ := present
        rw [missing] at found
        cases found
    · exact (step_others unissued .edge id here).symm.trans missing

theorem Linked.taken (linked : Linked phase store model.graph shown)
    (unissued : model.nextEdgeId ∉ model.graph.ids) (started : phase client = .starting call) :
    Linked (Function.update phase client (.numbered call (modelId model call.kind))) (takeId store call.kind)
      (model.step hash call.operation).graph shown := by
  have lists : ∀ kind, (takeId store kind).outgoingEdges = store.outgoingEdges ∧
      (takeId store kind).incomingEdges = store.incomingEdges := fun kind => by cases kind <;> exact ⟨rfl,rfl⟩
  cases call with
  | createNode properties =>
    have still : Linked (Function.update phase client (.numbered (.createNode properties) model.nextNodeId))
        (takeId store .node) model.graph shown :=
      linked.frame (lists .node).1 (lists .node).2 fun id => by rw [started]; simp [unlinked,Call.kind]
    exact ⟨still.outgoing,still.incoming,still.edges⟩
  | createEdge clock fromNode toNode label properties =>
    refine ⟨linked.outgoing,linked.incoming,fun edge => ?_⟩
    change _ ↔ edge ∈ (model.graph.addEdge _).edges ∧ _
    rw [PropertyGraph.addEdge_edges _ _ unissued,List.mem_append,List.mem_singleton]
    constructor
    · intro member
      obtain ⟨held,linked⟩ := (linked.edges edge).mp member
      refine ⟨.inl held,fun other missing => ?_⟩
      by_cases here : other = client
      · rw [here,Function.update_self] at missing
        have same : model.nextEdgeId = edge.id := (Prod.mk.inj (Option.some.inj missing)).2
        exact unissued (same ▸ List.mem_map_of_mem held)
      · rw [Function.update_of_ne here] at missing
        exact linked other missing
    · rintro ⟨held | rfl,unlinking⟩
      · refine (linked.edges edge).mpr ⟨held,fun other missing => ?_⟩
        by_cases here : other = client
        · rw [here,started] at missing
          cases missing
        · apply unlinking other
          rwa [Function.update_of_ne here]
      · exact absurd (by rw [Function.update_self]; rfl) (unlinking client)

end Taking

section Counting

variable {Client : Type} [DecidableEq Client] [Fintype Client] {hash : Bytes → UInt64} {phase : Client → Phase}
  {client : Client} {next : Phase} {store : GraphStore FilePageStore} {serial : Serial Client} {call : Call}

theorem uncounted_update (phase : Client → Phase) (client : Client) (next : Phase) (kind : Kind) :
    ∑ other, uncounted kind (Function.update phase client next other) + uncounted kind (phase client) =
      ∑ other, uncounted kind (phase other) + uncounted kind next := by
  rw [← Finset.add_sum_erase _ _ (Finset.mem_univ client),
    ← Finset.add_sum_erase _ (fun other => uncounted kind (phase other)) (Finset.mem_univ client)]
  have rest : ∑ other ∈ Finset.univ.erase client, uncounted kind (Function.update phase client next other) =
      ∑ other ∈ Finset.univ.erase client, uncounted kind (phase other) :=
    Finset.sum_congr rfl fun other member => by rw [Function.update_of_ne (Finset.ne_of_mem_erase member)]
  rw [rest,Function.update_self]
  omega

theorem uncounted_of {phase : Phase} {id : UInt64} (kind : Kind) (known : underway phase = some (call,id)) :
    uncounted kind phase = if call.kind = kind then 1 else 0 := by
  rw [uncounted,known]
  rfl

theorem uncounted_none {phase : Phase} (kind : Kind) (unknown : underway phase = none) : uncounted kind phase = 0 := by
  rw [uncounted,unknown]
  rfl

/-- One more call of a kind is under way, ... -/
theorem sum_taken (kind : Kind) (id : UInt64) (before : underway (phase client) = none)
    (known : underway next = some (call,id)) :
    ∑ other, uncounted kind (Function.update phase client next other) =
      ∑ other, uncounted kind (phase other) + if call.kind = kind then 1 else 0 := by
  have total := uncounted_update phase client next kind
  rwa [uncounted_none kind before,uncounted_of kind known] at total

/-- ... or one less. -/
theorem sum_counted (kind : Kind) (id : UInt64) (known : underway (phase client) = some (call,id))
    (later : underway next = none) :
    ∑ other, uncounted kind (phase other) =
      ∑ other, uncounted kind (Function.update phase client next other) + if call.kind = kind then 1 else 0 := by
  have total := uncounted_update phase client next kind
  rw [uncounted_none kind later,uncounted_of kind known] at total
  exact total.symm

omit [DecidableEq Client] in
theorem Counted.unissued (counted : Counted phase store serial) :
    serial.model.nextEdgeId ∉ serial.model.graph.ids :=
  fun member => UInt64.lt_irrefl _ (counted.issued _ member)

theorem Counted.taken (counted : Counted phase store serial) (counts : modelId serial.model call.kind + 1 ≠ 0)
    (started : phase client = .starting call) :
    Counted (Function.update phase client (.numbered call (modelId serial.model call.kind))) (takeId store call.kind)
      (serially hash serial (client,call)) := by
  have before : underway (phase client) = none := by rw [started]; rfl
  have known : underway (.numbered call (modelId serial.model call.kind)) =
    some (call,modelId serial.model call.kind) := rfl
  have nodes := sum_taken .node _ before known
  have edges := sum_taken .edge _ before known
  have unissued := counted.unissued
  cases call with
  | createNode properties =>
    simp only [Call.kind,reduceCtorEq,reduceIte,Nat.add_zero] at nodes edges
    refine ⟨congrArg (· + 1) counted.nodeIds,counted.edgeIds,counted.issued,counted.few,?_,?_⟩
    · refine (congrArg (fun sum => store.nodeCount + UInt64.ofNat sum) nodes).trans ?_
      rw [UInt64.ofNat_add,← UInt64.add_assoc,counted.nodes]
      rfl
    · exact (congrArg (fun sum => store.edgeCount + UInt64.ofNat sum) edges).trans counted.edges
  | createEdge clock fromNode toNode label properties =>
    simp only [Call.kind,reduceCtorEq,reduceIte,Nat.add_zero] at nodes edges counts
    have next := next_toNat serial.model.nextEdgeId counts
    have added := PropertyGraph.addEdge_edges {
      id := serial.model.nextEdgeId
      source := fromNode
      target := toNode
      data := ({labelId := (hash label).toUInt32, timestamp := clock, properties := properties} : EdgeData)}
      serial.model.graph unissued
    have length := congrArg List.length added
    rw [List.length_append,List.length_singleton] at length
    refine ⟨counted.nodeIds,congrArg (· + 1) counted.edgeIds,fun id member => ?_,?_,?_,?_⟩
    · change id ∈ (serial.model.graph.addEdge _).ids at member
      change id < serial.model.nextEdgeId + 1
      rw [PropertyGraph.ids,added,List.map_append] at member
      rw [UInt64.lt_iff_toNat_lt,next]
      rcases List.mem_append.mp member with old | new
      · exact Nat.lt_succ_of_lt (UInt64.lt_iff_toNat_lt.mp (counted.issued id old))
      · rw [List.mem_singleton.mp new]
        exact Nat.lt_succ_self _
    · change (serial.model.graph.addEdge _).edges.length < (serial.model.nextEdgeId + 1).toNat
      rw [length,next]
      exact Nat.succ_lt_succ counted.few
    · exact (congrArg (fun sum => store.nodeCount + UInt64.ofNat sum) nodes).trans counted.nodes
    · refine (congrArg (fun sum => store.edgeCount + UInt64.ofNat sum) edges).trans ?_
      change _ = UInt64.ofNat (serial.model.graph.addEdge _).edges.length
      rw [length,UInt64.ofNat_add,UInt64.ofNat_add,← UInt64.add_assoc,counted.edges]

theorem Counted.finished (counted : Counted phase store serial) (id : UInt64)
    (at_ : phase client = .linked call id) :
    Counted (Function.update phase client .idle) (count store call.kind) serial := by
  have known : underway (phase client) = some (call,id) := by rw [at_]; rfl
  have ends : underway .idle = none := rfl
  have nodes := sum_counted .node id known ends
  have edges := sum_counted .edge id known ends
  have beforeNodes := counted.nodes
  have beforeEdges := counted.edges
  rw [nodes] at beforeNodes
  rw [edges] at beforeEdges
  cases call with
  | createNode properties =>
    simp only [Call.kind,reduceCtorEq,reduceIte,Nat.add_zero] at beforeNodes beforeEdges
    refine ⟨counted.nodeIds,counted.edgeIds,counted.issued,counted.few,?_,beforeEdges⟩
    change store.nodeCount + 1 + _ = _
    rw [← beforeNodes,UInt64.ofNat_add,UInt64.add_assoc,UInt64.add_comm 1]
    rfl
  | createEdge clock fromNode toNode label properties =>
    simp only [Call.kind,reduceCtorEq,reduceIte,Nat.add_zero] at beforeNodes beforeEdges
    refine ⟨counted.nodeIds,counted.edgeIds,counted.issued,counted.few,beforeNodes,?_⟩
    change store.edgeCount + 1 + _ = _
    rw [← beforeEdges,UInt64.ofNat_add,UInt64.add_assoc,UInt64.add_comm 1]
    rfl

end Counting

section Storing

variable {Client : Type} [DecidableEq Client] {hash : Bytes → UInt64} {phase : Client → Phase} {client : Client}
  {next : Phase} {store : GraphStore FilePageStore} {model : CountedGraph} {call : Call} {id : UInt64} {page : PageId}
  {pages : FilePageStore} {graph shown : Graph}

/-- A page that nobody had goes to one client. -/
theorem Paged.allocated (paged : Paged hash phase store)
    (taken : allocatePage store.pageStore = (.ok page,pages)) :
    Paged hash (Function.update phase client (.allocated call id page)) {store with pageStore := pages} := by
  have keeps := allocate_keeps store.pageStore
  have fresh := allocate_fresh store.pageStore page (by rw [taken])
  rw [taken] at keeps fresh
  obtain ⟨unused,issued⟩ := fresh
  have stillOpen : pages.isClosed = false := by
    obtain ⟨closed,_⟩ | ⟨number,later,same,kept,_⟩ := allocate_cases store.pageStore
    · rw [paged.isOpen] at closed
      cases closed
    · rw [taken] at same
      cases same
      rw [kept,paged.isOpen]
  have earlier {other : Client} {number : PageId}
      (told : reserved (Function.update phase client (.allocated call id page) other) = some number) :
      other = client ∧ number = page ∨ other ≠ client ∧ reserved (phase other) = some number := by
    by_cases here : other = client
    · rw [here,Function.update_self] at told
      exact .inl ⟨here,(Option.some.inj told).symm⟩
    · rw [Function.update_of_ne here] at told
      exact .inr ⟨here,told⟩
  refine ⟨stillOpen,fun kind other number found => (keeps number (paged.placed kind other number found)).1,
    fun other number told => ?_,fun other another number told also => ?_,fun other made key number wrote => ?_⟩
  · obtain ⟨_,rfl⟩ | ⟨_,old⟩ := earlier told
    · exact ⟨issued,fun kind key found => unused (paged.placed kind key number found)⟩
    · obtain ⟨held,unnamed⟩ := paged.held other number old
      exact ⟨(keeps number held).1,unnamed⟩
  · obtain ⟨rfl,rfl⟩ | ⟨_,old⟩ := earlier told
    · obtain ⟨rfl,_⟩ | ⟨_,old⟩ := earlier also
      · rfl
      · exact absurd (paged.held another number old).1 unused
    · obtain ⟨_,rfl⟩ | ⟨_,older⟩ := earlier also
      · exact absurd (paged.held other number old).1 unused
      · exact paged.apart other another number old older
  · have old : phase other = .written made key number := by
      by_cases here : other = client
      · rw [here,Function.update_self] at wrote
        cases wrote
      · rwa [Function.update_of_ne here] at wrote
    have held := (paged.held other number (by rw [old]; rfl)).1
    exact (keeps number held).2.trans (paged.written other made key number old)

/-- The record goes to the client's own page. -/
theorem Paged.wrote (paged : Paged hash phase store) (mine : phase client = .allocated call id page)
    (wrote : writePage page (pageImage page call.type (call.serialized hash id)) store.pageStore = (.ok (),pages)) :
    Paged hash (Function.update phase client (.written call id page)) {store with pageStore := pages} := by
  have keeps := write_keeps store.pageStore page (pageImage page call.type (call.serialized hash id))
  have read := write_reads page _ store.pageStore pages wrote
  have stillOpen : pages.isClosed = false := by
    obtain ⟨e,failed⟩ | ⟨_,_,same⟩ := write_cases page (pageImage page call.type (call.serialized hash id))
      store.pageStore
    · rw [wrote] at failed
      cases failed
    · rw [wrote] at same
      cases same
      exact paged.isOpen
  rw [wrote] at keeps
  have reserving : reserved (phase client) = some page := by rw [mine]; rfl
  have same : reserved (.written call id page) = reserved (phase client) := reserving.symm
  refine ⟨stillOpen,fun kind other number found => (keeps number (paged.placed kind other number found)).1,
    fun other number told => ?_,fun other another number told also =>
      paged.apart other another number (about_silent (.inr same) told) (about_silent (.inr same) also),
    fun other made key number wrote => ?_⟩
  · obtain ⟨held,unnamed⟩ := paged.held other number (about_silent (.inr same) told)
    exact ⟨(keeps number held).1,unnamed⟩
  · by_cases here : other = client
    · rw [here,Function.update_self] at wrote
      cases wrote
      exact congrArg Prod.fst read
    · rw [Function.update_of_ne here] at wrote
      have old : reserved (phase other) = some number := by rw [wrote]; rfl
      have apart : number ≠ page := fun same => here (paged.apart other client number old (same ▸ reserving))
      exact ((keeps number (paged.held other number old).1).2 apart).trans (paged.written other made key number wrote)

theorem enter_pages (kind : Kind) : (enter id page store kind).pageStore = store.pageStore := by
  cases kind <;> rfl

theorem enter_index (kind other : Kind) (key : UInt64) : pageIndex (enter id page store kind) other key =
    if (other,key) = (kind,id) then some page else pageIndex store other key := by
  cases kind <;> cases other <;>
    simp [pageIndex,enter,Function.update_apply]

/-- The record on the page is what a reader finds then. -/
theorem entered_reads (fits : FitsPage (call.serialized hash id))
    (image : (readPage page store.pageStore).1 = .ok (sealed page (pageImage page call.type (call.serialized hash id)))) :
    (get call.kind id (enter id page store call.kind)).1 = .ok (call.record hash id) := by
  have read : readPage page store.pageStore =
      (.ok (sealed page (pageImage page call.type (call.serialized hash id))),store.pageStore) :=
    Prod.ext image (read_keeps ..)
  cases call with
  | createNode properties =>
    have back := getRecord_stored .node "Node not found" "Invalid page type for node" deserializeNode
      (nodeRecord id properties,properties) _ page (enter id page store .node) fits
      (fun rest => deserializeNode_written _ properties rest (fits_sized _ _ fits)) read
    change (getNode id (enter id page store .node)).1 = _
    rw [getNode,show (enter id page store .node).nodePageIndex id = some page from Function.update_self ..]
    exact congrArg Prod.fst back
  | createEdge clock fromNode toNode label properties =>
    have back := getRecord_stored .edge "Edge not found" "Invalid page type for edge" deserializeEdge
      (Call.record hash id (.createEdge clock fromNode toNode label properties)) _ page (enter id page store .edge) fits
      (fun rest => deserializeEdge_written _ properties rest (fits_sized _ _ fits)) read
    change (getEdge id (enter id page store .edge)).1 = _
    rw [getEdge,show (enter id page store .edge).edgePageIndex id = some page from Function.update_self ..]
    exact congrArg Prod.fst back

theorem Paged.entered (paged : Paged hash phase store) (mine : phase client = .written call id page)
    (page_ : reserved next = none) :
    Paged hash (Function.update phase client next) (enter id page store call.kind) := by
  have reserving : reserved (phase client) = some page := by rw [mine]; rfl
  refine ⟨by rw [enter_pages,paged.isOpen],fun kind key number found => ?_,fun other number told => ?_,
    fun other another number told also =>
      paged.apart other another number (about_silent (.inl page_) told) (about_silent (.inl page_) also),
    fun other made key number wrote => ?_⟩
  · rw [enter_index] at found
    rw [enter_pages]
    split at found
    · cases found
      exact (paged.held client page reserving).1
    · exact paged.placed kind key number found
  · have old := about_silent (.inl page_) told
    obtain ⟨held,unnamed⟩ := paged.held other number old
    rw [enter_pages]
    refine ⟨held,fun kind key found => ?_⟩
    rw [enter_index] at found
    split at found
    · cases found
      have same := paged.apart other client page old reserving
      rw [same,Function.update_self,page_] at told
      cases told
    · exact unnamed kind key found
  · rw [enter_pages]
    by_cases here : other = client
    · rw [here,Function.update_self] at wrote
      rw [wrote] at page_
      cases page_
    · rw [Function.update_of_ne here] at wrote
      exact paged.written other made key number wrote

theorem Told.entered (told : Told phase store model.graph) (paged : Paged hash phase store)
    (numbered : Numbered hash phase model) (mine : phase client = .written call id page) :
    Told (Function.update phase client next) (enter id page store call.kind) model.graph := by
  obtain ⟨recorded,fits,_⟩ := numbered.recorded client call id (by rw [mine]; rfl)
  refine ⟨fun kind key shown => ?_,fun key missing => ?_⟩
  · by_cases here : (kind,key) = (call.kind,id)
    · cases here
      rw [entered_reads fits (paged.written client call id page mine),recorded]
    · have pages : (enter id page store call.kind).pageStore = store.pageStore := enter_pages call.kind
      rw [get_congr kind key store _ paged.placed (pages ▸ pages_refl _) (by rw [enter_index,if_neg here])]
      refine told.told kind key fun other missing => ?_
      by_cases there : other = client
      · rw [there,mine] at missing
        exact here (Option.some.inj missing).symm
      · apply shown other
        rwa [Function.update_of_ne there]
  · change pageIndex (enter id page store call.kind) .edge key = none
    rw [enter_index,if_neg ?_]
    · exact told.indexed key missing
    · intro here
      obtain ⟨kind,named⟩ := Prod.mk.inj here
      cases call with
      | createNode properties => cases kind
      | createEdge clock fromNode toNode label properties =>
        have found : readEdge model.graph id = .ok _ := recorded
        rw [← named,missing] at found
        cases found

end Storing

section Linking

variable {Client : Type} [DecidableEq Client] {hash : Bytes → UInt64} {phase : Client → Phase} {client : Client}
  {store : GraphStore FilePageStore} {model : CountedGraph} {call : Call} {id : UInt64} {shown : Graph}

theorem link_pages : (link id store call).pageStore = store.pageStore ∧
    pageIndex (link id store call) = pageIndex store := by
  cases call <;> exact ⟨rfl,rfl⟩

/-- An edge is put into its lists once it is the client's turn. -/
theorem Linked.linked (linked : Linked phase store model.graph shown) (numbered : Numbered hash phase model)
    (mine : phase client = .indexed call id) :
    ∃ shown, Linked (Function.update phase client (.linked call id)) (link id store call) model.graph shown := by
  cases call with
  | createNode properties =>
    exact ⟨shown,linked.frame rfl rfl fun id => by rw [mine]; simp [unlinked,Call.kind]⟩
  | createEdge clock fromNode toNode label properties =>
    have known : underway (phase client) = some (.createEdge clock fromNode toNode label properties,id) := by
      rw [mine]
      rfl
    obtain ⟨recorded,_,_⟩ := numbered.recorded client _ id known
    obtain ⟨edge,found,told⟩ : ∃ edge, model.graph.edge? id = some edge ∧
        edgeRecord edge = (Call.record hash id (.createEdge clock fromNode toNode label properties)).1 := by
      change readEdge model.graph id = _ at recorded
      unfold readEdge at recorded
      cases found : model.graph.edge? id with
      | none =>
        rw [found] at recorded
        cases recorded
      | some edge =>
        rw [found] at recorded
        exact ⟨edge,rfl,congrArg Prod.fst (Except.ok.inj recorded)⟩
    obtain ⟨held,named⟩ := (model.graph.edge?_some id edge).mp found
    have begins : edge.source = fromNode := congrArg EdgeRecord.fromNode told
    have ends : edge.target = toNode := congrArg EdgeRecord.toNode told
    have waiting : unlinked (phase client) = some (.edge,edge.id) := by
      rw [mine,named]
      rfl
    have unused : edge.id ∉ shown.ids := by
      intro member
      obtain ⟨other,listed,same⟩ := List.mem_map.mp member
      exact ((linked.edges other).mp listed).2 client (by rw [same,waiting])
    refine ⟨shown.addEdge edge,fun node => ?_,fun node => ?_,fun other => ?_⟩
    · have lists := linked_lists shown .source store.outgoingEdges linked.outgoing edge unused node
      rwa [show edge.at .source = fromNode from begins,named] at lists
    · have lists := linked_lists shown .target store.incomingEdges linked.incoming edge unused node
      rwa [show edge.at .target = toNode from ends,named] at lists
    · rw [PropertyGraph.addEdge_edges edge shown unused,List.mem_append,List.mem_singleton]
      constructor
      · rintro (listed | rfl)
        · obtain ⟨inside,settled⟩ := (linked.edges other).mp listed
          exact ⟨inside,fun another missing => settled another (about_silent (.inl rfl) missing)⟩
        · refine ⟨held,fun another missing => ?_⟩
          have old := about_silent (.inl rfl) missing
          obtain ⟨made,going,kind⟩ := unlinked_underway old
          have same : another = client := by
            rw [← named] at known
            exact numbered.apart another client made _ other.id going known kind
          rw [same,Function.update_self] at missing
          cases missing
      · rintro ⟨inside,settled⟩
        by_cases here : other.id = id
        · have same := (model.graph.edge?_some id other).mpr ⟨inside,here⟩
          rw [found] at same
          exact .inr (Option.some.inj same).symm
        · refine .inl ((linked.edges other).mpr ⟨inside,fun another missing => ?_⟩)
          by_cases there : another = client
          · rw [there,waiting] at missing
            exact here ((Prod.mk.inj (Option.some.inj missing)).2.symm.trans named)
          · apply settled another
            rwa [Function.update_of_ne there]

end Linking

section Answering

variable {Client : Type} [DecidableEq Client] {hash : Bytes → UInt64} {shared : Shared Client} {client : Client}
  {later : GraphStore FilePageStore} {serial : Serial Client} {call : Call} {id : UInt64}

theorem Answered.taken (answered : Answered hash shared serial)
    (unissued : serial.model.nextEdgeId ∉ serial.model.graph.ids)
    (counts : modelId serial.model call.kind + 1 ≠ 0) (started : shared.phase client = .starting call) :
    Answered hash (move client (.numbered call (modelId serial.model call.kind)) later shared)
      (serially hash serial (client,call)) := by
  refine ⟨fun other => ?_,fun other answer member => ?_⟩
  · have old := answered.answers other
    by_cases here : other = client
    · rw [here,started] at old
      rw [here,move_phase]
      change Function.update _ _ _ client = _
      rw [Function.update_self,old,step_answer]
      simp [underway,move]
    · change Function.update _ _ _ other = shared.returned other ++
        ((underway (Function.update shared.phase client _ other)).map _).toList
      rw [Function.update_of_ne here,Function.update_of_ne here,old]
  · obtain ⟨id,result,recorded,below,shown⟩ := answered.published other answer member
    refine ⟨id,result,(step_others unissued _ _ (below_apart below)).trans recorded,step_below counts _ _ below,
      fun another missing => ?_⟩
    by_cases here : another = client
    · rw [here,move_phase] at missing
      exact below_apart below (Option.some.inj missing).symm
    · apply shown another
      simpa only [move,Function.update_of_ne here] using missing

theorem Answered.finished (answered : Answered hash shared serial) (numbered : Numbered hash shared.phase serial.model)
    (mine : shared.phase client = .linked call id) :
    Answered hash (finish client call (.ok id) later shared) serial := by
  have known : underway (shared.phase client) = some (call,id) := by rw [mine]; rfl
  have silent : hidden .idle = none ∨ hidden .idle = hidden (shared.phase client) := .inl rfl
  refine ⟨fun other => ?_,fun other answer member => ?_⟩
  · rw [answered.answers]
    by_cases here : other = client
    · rw [here,known]
      simp [finish,underway]
    · simp [finish,here]
  · have old (older : answer ∈ shared.returned other) := answered.published other answer older
    have shows (id : UInt64) (shown : ∀ another, hidden (shared.phase another) ≠ some (answer.1.kind,id)) :
        ∀ another, hidden ((finish client call (.ok id) later shared).phase another) ≠ some (answer.1.kind,id) :=
      fun another missing => shown another (about_silent silent missing)
    by_cases here : other = client
    · simp only [here,finish,Function.update_self] at member
      rcases List.mem_append.mp member with older | new
      · obtain ⟨id,result,recorded,below,shown⟩ := old (here ▸ older)
        exact ⟨id,result,recorded,below,shows id shown⟩
      · rw [List.mem_singleton.mp new]
        obtain ⟨recorded,_,below⟩ := numbered.recorded client call id known
        refine ⟨id,rfl,recorded,below,fun another missing => ?_⟩
        have before := about_silent silent missing
        obtain ⟨made,going,kind⟩ := hidden_underway before
        have same := numbered.apart another client made call id going known kind
        rw [same,mine] at before
        cases before
    · simp only [finish,Function.update_of_ne here] at member
      obtain ⟨id,result,recorded,below,shown⟩ := old member
      exact ⟨id,result,recorded,below,shows id shown⟩

end Answering

section Runs

variable {Client : Type} [DecidableEq Client] [Fintype Client] {hash : Bytes → UInt64} {shared : Shared Client}
  {serial : Serial Client}

/-- One step of a client, and of the whole calls if the step takes effect. -/
theorem advance_follows (client : Client) (fits : CreationFits hash shared (.advance client))
    (follows : Follows hash shared serial) :
    Follows hash (step hash shared (.advance client))
      (run (serially hash) serial (effect shared (.advance client)).toList) := by
  obtain ⟨numbered,paged,told,⟨shown,linked⟩,counted,answered⟩ := follows
  cases at_ : shared.phase client with
  | idle =>
    simp only [step,advance,effect,at_,Option.toList_none,run_nil]
    exact ⟨numbered,paged,told,⟨shown,linked⟩,counted,answered⟩
  | starting call =>
    have unissued := counted.unissued
    obtain ⟨counts,room⟩ := fits (client,call) (by simp [effect,at_])
    have key : nextId shared.store call.kind = modelId serial.model call.kind := by
      cases call with
      | createNode properties => exact counted.nodeIds
      | createEdge clock fromNode toNode label properties => exact counted.edgeIds
    have grows : modelId serial.model call.kind + 1 ≠ 0 := by
      rw [← key]
      cases call with
      | createNode properties => exact counts
      | createEdge clock fromNode toNode label properties => exact counts
    have small : FitsPage (call.serialized hash (modelId serial.model call.kind)) := by
      rw [← key]
      cases call with
      | createNode properties => exact room _ rfl
      | createEdge clock fromNode toNode label properties => exact room _ rfl
    simp only [step,advance,effect,at_,Option.toList_some,run_cons,run_nil,key]
    exact ⟨numbered.taken unissued grows small,paged.frame (takeId_pages ..) (takeId_index _) rfl,
      told.taken paged.placed unissued at_,⟨shown,linked.taken unissued at_⟩,counted.taken grows at_,
      answered.taken unissued grows at_⟩
  | numbered call id =>
    have keeps := FilePageStore.allocate_keeps shared.store.pageStore
    simp only [step,advance,effect,at_,Option.toList_none,run_nil]
    obtain ⟨closed,_⟩ | ⟨page,pages,taken,_⟩ := allocate_cases shared.store.pageStore
    · rw [paged.isOpen] at closed
      cases closed
    · rw [taken] at keeps ⊢
      exact ⟨numbered.frame (.inr (by rw [at_]; rfl)),paged.allocated taken,
        told.frame rfl (fun kind key number found => (keeps number (paged.placed kind key number found)).2)
          (by rw [at_]; rfl),
        ⟨shown,linked.frame rfl rfl (by rw [at_]; exact fun _ => Iff.rfl)⟩,
        counted.frame (by rw [at_]; rfl) rfl rfl rfl rfl,answered.frame (by rw [at_]; rfl) (.inr (by rw [at_]; rfl))⟩
  | allocated call id page =>
    have reserving : reserved (shared.phase client) = some page := by rw [at_]; rfl
    have held := paged.held client page reserving
    have wrote := write_succeeds page (pageImage page call.type (call.serialized hash id)) shared.store.pageStore
      (pageImage_length ..) paged.isOpen held.1.1
    have keeps (number : PageId) (placed : Allocated shared.store.pageStore number) (apart : number ≠ page) :=
      (write_keeps shared.store.pageStore page (pageImage page call.type (call.serialized hash id)) number placed).2 apart
    simp only [step,advance,effect,at_,Option.toList_none,run_nil]
    rw [wrote] at keeps ⊢
    exact ⟨numbered.frame (.inr (by rw [at_]; rfl)),paged.wrote at_ wrote,
      told.frame rfl (fun kind key number found => keeps number (paged.placed kind key number found)
        fun named => held.2 kind key (named ▸ found)) (by rw [at_]; rfl),
      ⟨shown,linked.frame rfl rfl (by rw [at_]; exact fun _ => Iff.rfl)⟩,
      counted.frame (by rw [at_]; rfl) rfl rfl rfl rfl,answered.frame (by rw [at_]; rfl) (.inr (by rw [at_]; rfl))⟩
  | written call id page =>
    have entered : ∀ call : Call, reserved (Phase.entered id call) = none ∧ hidden (Phase.entered id call) = none ∧
        underway (Phase.entered id call) = some (call,id) ∧ ∀ key,
          unlinked (Phase.entered id call) = some (.edge,key) ↔ unlinked (.written call id page) = some (.edge,key) :=
      fun call => by cases call <;> simp [Phase.entered,reserved,hidden,underway,unlinked,Call.kind]
    obtain ⟨unpaged,shows,known,waits⟩ := entered call
    have lists : ∀ kind, (enter id page shared.store kind).outgoingEdges = shared.store.outgoingEdges ∧
        (enter id page shared.store kind).incomingEdges = shared.store.incomingEdges ∧
        (enter id page shared.store kind).nextNodeId = shared.store.nextNodeId ∧
        (enter id page shared.store kind).nextEdgeId = shared.store.nextEdgeId ∧
        (enter id page shared.store kind).nodeCount = shared.store.nodeCount ∧
        (enter id page shared.store kind).edgeCount = shared.store.edgeCount :=
      fun kind => by cases kind <;> exact ⟨rfl,rfl,rfl,rfl,rfl,rfl⟩
    obtain ⟨outgoing,incoming,nodeIds,edgeIds,nodes,edges⟩ := lists call.kind
    have going : underway (Phase.entered id call) = underway (shared.phase client) := by rw [known,at_]; rfl
    simp only [step,advance,effect,at_,Option.toList_none,run_nil]
    exact ⟨numbered.frame (.inr going),paged.entered at_ unpaged,told.entered paged numbered at_,
      ⟨shown,linked.frame outgoing incoming (by rw [at_]; exact waits)⟩,
      counted.frame going nodeIds edgeIds nodes edges,answered.frame going (.inl shows)⟩
  | indexed call id =>
    have pages : (link id shared.store call).pageStore = shared.store.pageStore := link_pages.1
    have index : pageIndex (link id shared.store call) = pageIndex shared.store := link_pages.2
    obtain ⟨later,linked⟩ := linked.linked numbered at_
    have going : underway (.linked call id) = underway (shared.phase client) := by rw [at_]; rfl
    simp only [step,advance,effect,at_,Option.toList_none,run_nil]
    exact ⟨numbered.frame (.inr going),paged.frame pages index rfl,
      told.frame index (fun _ _ page _ => congrArg (fun pages => (readPage page pages).1) pages) (by rw [at_]; rfl),⟨later,linked⟩,
      counted.frame going (by cases call <;> rfl) (by cases call <;> rfl) (by cases call <;> rfl) (by cases call <;> rfl),
      answered.frame going (.inl rfl)⟩
  | linked call id =>
    have pages : (count shared.store call.kind).pageStore = shared.store.pageStore ∧
        pageIndex (count shared.store call.kind) = pageIndex shared.store := by
      cases call <;> exact ⟨rfl,rfl⟩
    simp only [step,advance,effect,at_,Option.toList_none,run_nil]
    exact ⟨numbered.frame (.inl rfl),paged.frame pages.1 pages.2 rfl,
      told.frame pages.2 (fun _ _ page _ => congrArg (fun pages => (readPage page pages).1) pages.1) (by rw [at_]; rfl),
      ⟨shown,linked.frame (by cases call <;> rfl) (by cases call <;> rfl) (by rw [at_]; exact fun _ => Iff.rfl)⟩,
      counted.finished id at_,answered.finished numbered at_⟩

theorem step_follows (event : Event Client) (fits : CreationFits hash shared event)
    (follows : Follows hash shared serial) :
    Follows hash (step hash shared event) (run (serially hash) serial (effect shared event).toList) := by
  cases event with
  | advance client => exact advance_follows client fits follows
  | call client call =>
    simp only [step,effect,Option.toList_none,run_nil]
    cases at_ : shared.phase client with
    | idle =>
      obtain ⟨numbered,paged,told,⟨shown,linked⟩,counted,answered⟩ := follows
      exact ⟨numbered.frame (.inl rfl),paged.frame rfl rfl rfl,
        told.frame rfl (fun _ _ _ _ => rfl) (by rw [at_]; rfl),
        ⟨shown,linked.frame rfl rfl (by rw [at_]; exact fun _ => Iff.rfl)⟩,
        counted.frame (by rw [at_]; rfl) rfl rfl rfl rfl,answered.frame (by rw [at_]; rfl) (.inl rfl)⟩
    | starting _ | numbered _ _ | allocated _ _ _ | written _ _ _ | indexed _ _ | linked _ _ => exact follows

omit [DecidableEq Client] in
/-- What a client has made of the store, alone, is where the others begin. -/
theorem represents_follows {store : GraphStore FilePageStore} {model : CountedGraph}
    (represents : Represents store model) :
    Follows hash ({store := store} : Shared Client) {model := model, nodeCount := store.nodeCount} where
  numbered := {
    recorded := fun _ _ _ told => by cases told
    apart := fun _ _ _ _ _ told => by cases told}
  paged := {
    isOpen := represents.tells.isOpen
    placed := represents.tells.placed
    held := fun _ _ told => by cases told
    apart := fun _ _ _ told => by cases told
    written := fun _ _ _ _ told => by cases told}
  told := {
    told := fun kind id _ => by
      cases kind with
      | node => exact represents.tells.nodes id
      | edge => exact represents.tells.edges id
    indexed := represents.tells.indexed}
  linked := ⟨model.graph,represents.outgoing,represents.incoming,fun edge => by simp [unlinked]⟩
  counted := {
    nodeIds := represents.nodeIds
    edgeIds := represents.edgeIds
    issued := represents.issued
    few := represents.few
    nodes := by simp [uncounted,underway]
    edges := by
      simp only [uncounted,underway,Option.elim_none,Finset.sum_const_zero]
      rw [← represents.count,UInt64.ofNat_toNat]
      exact UInt64.add_zero _}
  answered := ⟨fun _ => rfl,fun _ _ member => by cases member⟩

omit [DecidableEq Client] in
/-- Once all calls have returned, the store has the graph that was made one call after the other. Only the edges may
have come into the lists in another order. -/
theorem follows_represents (follows : Follows hash shared serial) (settled : ∀ client, shared.phase client = .idle) :
    ∃ graph : Graph, graph.nodes = serial.model.graph.nodes ∧ graph.edges.Perm serial.model.graph.edges ∧
      Represents shared.store {serial.model with graph := graph} := by
  obtain ⟨_,paged,told,⟨shown,linked⟩,counted,_⟩ := follows
  have edges (edge : PropertyGraph.Edge NodeId EdgeId EdgeData) :
      edge ∈ shown.edges ↔ edge ∈ serial.model.graph.edges := by
    rw [linked.edges]
    exact and_iff_left fun client => by rw [settled]; simp [unlinked]
  have same : shown.edges.Perm serial.model.graph.edges :=
    (List.perm_ext_iff_of_nodup (List.Nodup.of_map _ shown.ids_nodup)
      (List.Nodup.of_map _ serial.model.graph.ids_nodup)).mpr edges
  have reads : readEdge shown = readEdge serial.model.graph := by
    funext id
    unfold readEdge
    congr 1
    ext edge
    rw [PropertyGraph.edge?_some,PropertyGraph.edge?_some,edges]
  have visible (kind : Kind) (id : UInt64) : (get kind id shared.store).1 = reading serial.model.graph kind id :=
    told.told kind id fun client => by rw [settled]; simp [hidden]
  refine ⟨{shown with nodes := serial.model.graph.nodes},rfl,same,?_⟩
  have count := counted.edges
  simp only [settled,uncounted,underway,Option.elim_none,Finset.sum_const_zero] at count
  have bound := serial.model.nextEdgeId.toNat_lt
  have few := counted.few
  refine {
    tells := {
      isOpen := paged.isOpen
      placed := paged.placed
      indexed := fun id missing => told.indexed id ?_
      nodes := fun id => visible .node id
      edges := fun id => (visible .edge id).trans (congrFun reads id).symm}
    nodeIds := counted.nodeIds
    edgeIds := counted.edgeIds
    outgoing := linked.outgoing
    incoming := linked.incoming
    issued := fun id member => counted.issued id ((same.map _).mem_iff.mp member)
    few := same.length_eq ▸ few
    count := ?_}
  · exact (congrFun reads id).symm.trans missing
  · change shared.store.edgeCount.toNat = shown.edges.length
    rw [same.length_eq,show shared.store.edgeCount = _ from (UInt64.add_zero _).symm.trans count,
      UInt64.toNat_ofNat_of_lt' (Nat.lt_trans few bound)]

end Runs

/-- However clients interleave the steps of their creations, each is told what the calls return when they are made one
after the other in the order of their ids, and finds what it has made from then on. When no call is under way, the store
has the graph that the calls make in that order, and counts its nodes; edges may stand in another order. -/
theorem creations_linearized {Client : Type} [DecidableEq Client] [Fintype Client] (hash : Bytes → UInt64)
    (mvcc : Option Transaction.MVCCManager) (wal : Option WALManager) (calls : List Operation)
    (fits : Guarded (plain hash) (Fits hash) (fresh mvcc wal) calls) (events : List (Event Client))
    (creationsFit : Guarded (step hash) (CreationFits hash) {store := run (plain hash) (fresh mvcc wal) calls} events) :
    let store := run (plain hash) (fresh mvcc wal) calls
    let shared := run (step hash) {store := store} events
    let serial := run (serially hash) {model := run (CountedGraph.step hash) {} calls, nodeCount := store.nodeCount}
      (linearized (step hash) effect {store := store} events)
    (∀ client, shared.returned client <+: serial.answers client ∧ ∀ answer ∈ shared.returned client,
      ∃ id, answer.2 = .ok id ∧ (get answer.1.kind id shared.store).1 = .ok (answer.1.record hash id)) ∧
    ((∀ client, shared.phase client = .idle) →
      shared.returned = serial.answers ∧ shared.store.nodeCount = serial.nodeCount ∧
      ∃ graph : Graph, graph.nodes = serial.model.graph.nodes ∧ graph.edges.Perm serial.model.graph.edges ∧
        Represents shared.store {serial.model with graph := graph}) := by
  intro store shared serial
  have start := run_represents hash calls (fresh_represents mvcc wal) fits
  have follows : Follows hash shared serial :=
    guarded_linearized (Follows hash) (fun state model event => step_follows event) _ _ events creationsFit
      (represents_follows start)
  refine ⟨fun client => ⟨?_,fun answer member => ?_⟩,fun settled => ⟨funext fun client => ?_,?_,?_⟩⟩
  · exact ⟨_,(follows.answered.answers client).symm⟩
  · obtain ⟨id,result,recorded,_,visible⟩ := follows.answered.published client answer member
    exact ⟨id,result,(follows.told.told _ _ visible).trans recorded⟩
  · rw [follows.answered.answers,settled]
    exact (List.append_nil _).symm
  · have nodes := follows.counted.nodes
    simp only [settled,uncounted,underway,Option.elim_none,Finset.sum_const_zero] at nodes
    exact (UInt64.add_zero _).symm.trans nodes
  · exact follows_represents follows settled

/-- Two edges, of which the second one comes into the lists first, and a node. -/
def edgeOvertakes : List (Event Bool) := [
  .call true (.createEdge 5 1 1 [] []),.call false (.createEdge 6 1 2 [] []),.advance true,.advance false,
  .advance false,.advance true,.advance false,.advance false,.advance false,.advance false,
  .call false (.createNode []),.advance true,.advance false,.advance true,.advance false,.advance true,
  .advance false,.advance true,.advance false,.advance false]

theorem creations_linearized_overtaken :
    let shared := run (step fun _ => 0) {store := fresh none none} edgeOvertakes
    shared.store.outgoingEdges 1 = [2,1] ∧ shared.store.nodeCount = 1 ∧
      shared.returned true = [(.createEdge 5 1 1 [] [],.ok 1)] ∧
      shared.returned false = [(.createEdge 6 1 2 [] [],.ok 2),(.createNode [],.ok 1)] := by
  have linearized := creations_linearized (fun _ => 0) none none [] trivial edgeOvertakes (by decide +kernel)
  simp only [run_nil] at linearized
  obtain ⟨answers,nodes,_⟩ := linearized.2 (by decide +kernel)
  dsimp only
  rw [nodes,answers]
  decide +kernel

end LoreDB.Storage.ConcurrentCreations
