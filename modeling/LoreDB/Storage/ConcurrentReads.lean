import LoreDB.Storage.ConcurrentEdges

/-! Many readers on one graph store that nobody writes. The page store reads into its one buffer
and hands out a view of it, which a reader decodes after the mutex is free again. -/
namespace LoreDB.Storage.ConcurrentReads
open LoreDB.Library LoreDB.Library.History LoreDB.Library.ByteStream GraphStore GraphHistory
  GraphRefinement RecordSerializer FilePageStore

/-- Where a reader's call of `get_node` or `get_edge` stands. -/
inductive Phase where
  | idle
  | started (kind : Kind) (id : UInt64)
  | located (kind : Kind) (id : UInt64) (page : PageId)
  | loaded (kind : Kind) (id : UInt64) (page : PageId)

structure Answer where
  kind : Kind
  id : UInt64
  result : Except Error (kind.Record × List Property)

inductive Action (Client : Type) where
  | call (client : Client) (kind : Kind) (id : UInt64)
  | advance (client : Client)

/-- `answers` are the results of the calls that have returned. -/
structure Shared (Client : Type) where
  store : GraphStore FilePageStore
  pageBuffer : Bytes
  phase : Client → Phase
  answers : List Answer

def opened {Client : Type} (store : GraphStore FilePageStore) (pageBuffer : Bytes) : Shared Client :=
  {store := store, pageBuffer := pageBuffer, phase := fun _ => .idle, answers := []}

def parseNode (data : Bytes) : Except Error (NodeRecord × List Property) :=
  if field data 8 4 ≠ PageType.node.code then .error ⟨.corruption,"Invalid page type for node"⟩
  else deserializeNode (data.drop 48)

def parse : (kind : Kind) → Bytes → Except Error (kind.Record × List Property)
  | .node => parseNode
  | .edge => ConcurrentEdges.parseEdge

def notFound : Kind → String
  | .node => "Node not found"
  | .edge => "Edge not found"

variable {Client : Type} [DecidableEq Client]

def move (client : Client) (phase : Phase) (shared : Shared Client) : Shared Client :=
  {shared with phase := Function.update shared.phase client phase}

def finish (client : Client) (answer : Answer) (shared : Shared Client) : Shared Client :=
  {shared with
    phase := Function.update shared.phase client .idle
    answers := answer::shared.answers}

/-- The next step of a reader: the lookup, the read of the page, or the decoding of the view. -/
def advance (client : Client) (shared : Shared Client) : Shared Client :=
  match shared.phase client with
  | .idle => shared
  | .started kind id =>
    match pageIndex shared.store kind id with
    | none => finish client ⟨kind,id,.error ⟨.notFound,notFound kind⟩⟩ shared
    | some page => move client (.located kind id page) shared
  | .located kind id page =>
    match shared.store.pageStore.readPage page with
    | (.error e,pages) =>
      finish client ⟨kind,id,.error e⟩ {shared with store := {shared.store with pageStore := pages}}
    | (.ok data,pages) => move client (.loaded kind id page) {shared with
      store := {shared.store with pageStore := pages}
      pageBuffer := data}
  | .loaded kind id _ => finish client ⟨kind,id,parse kind shared.pageBuffer⟩ shared

def step (shared : Shared Client) : Action Client → Shared Client
  | .call client kind id =>
    match shared.phase client with
    | .idle => move client (.started kind id) shared
    | _ => shared
  | .advance client => advance client shared

theorem get_missing (kind : Kind) (id : UInt64) (store : GraphStore FilePageStore)
    (missing : pageIndex store kind id = none) :
    (get kind id store).1 = .error ⟨.notFound,notFound kind⟩ := by
  cases kind with
  | node =>
    simp only [GraphHistory.get,getNode,show store.nodePageIndex id = none from missing]
    rfl
  | edge =>
    simp only [GraphHistory.get,getEdge,show store.edgePageIndex id = none from missing]
    rfl

theorem get_located (kind : Kind) (id : UInt64) (page : PageId) (store : GraphStore FilePageStore)
    (found : pageIndex store kind id = some page) :
    (get kind id store).1 = (store.pageStore.readPage page).1.bind (parse kind) := by
  have whole {ρ : Type} (type : PageType) (missing wrongType : String)
      (deserialize : Bytes → Except Error ρ) :
      (getRecord (some page) type missing wrongType deserialize store).1 =
        (store.pageStore.readPage page).1.bind fun data =>
          if field data 8 4 ≠ type.code then .error ⟨.corruption,wrongType⟩
          else deserialize (data.drop 48) := by
    simp only [getRecord,show PageStore.readPage page store.pageStore = store.pageStore.readPage page
      from rfl]
    cases store.pageStore.readPage page with
    | mk result pages => cases result <;> rfl
  cases kind with
  | node =>
    simp only [GraphHistory.get,getNode,show store.nodePageIndex id = some page from found]
    exact whole ..
  | edge =>
    simp only [GraphHistory.get,getEdge,show store.edgePageIndex id = some page from found]
    exact whole ..

/-- What the phase of a call has found out about its record. -/
def Located (store : GraphStore FilePageStore) : Phase → Prop
  | .idle | .started _ _ => True
  | .located kind id page => pageIndex store kind id = some page
  | .loaded kind id page => pageIndex store kind id = some page

structure Kept (store : GraphStore FilePageStore) (shared : Shared Client) : Prop where
  unchanged : shared.store = store
  located : ∀ client, Located store (shared.phase client)
  answers : ∀ answer ∈ shared.answers, answer.result = (get answer.kind answer.id store).1

/-- A view is decoded while the buffer still holds the page that was read for it. -/
def Intact (shared : Shared Client) (action : Action Client) : Prop :=
  ∀ client kind id page, action = .advance client → shared.phase client = .loaded kind id page →
    (shared.store.pageStore.readPage page).1 = .ok shared.pageBuffer

theorem move_kept (store : GraphStore FilePageStore) (shared : Shared Client) (client : Client)
    (phase : Phase) (located : Located store phase) (kept : Kept store shared) :
    Kept store (move client phase shared) := by
  refine ⟨kept.unchanged,fun other => ?_,kept.answers⟩
  by_cases here : other = client
  · subst here
    simpa only [move,Function.update_self] using located
  · simpa only [move,Function.update_of_ne here] using kept.located other

theorem finish_kept (store : GraphStore FilePageStore) (shared : Shared Client) (client : Client)
    (answer : Answer) (right : answer.result = (get answer.kind answer.id store).1)
    (kept : Kept store shared) : Kept store (finish client answer shared) := by
  refine ⟨kept.unchanged,(move_kept store shared client .idle trivial kept).located,fun other member => ?_⟩
  rcases List.mem_cons.mp member with rfl | before
  · exact right
  · exact kept.answers other before

theorem advance_kept (store : GraphStore FilePageStore) (shared : Shared Client) (client : Client)
    (intact : Intact shared (.advance client)) (kept : Kept store shared) :
    Kept store (advance client shared) := by
  have located := kept.located client
  unfold advance
  cases phase : shared.phase client with
  | idle => exact kept
  | started kind id =>
    dsimp only
    rw [kept.unchanged]
    cases found : pageIndex store kind id with
    | none => exact finish_kept store shared client _ (get_missing kind id store found).symm kept
    | some page => exact move_kept store shared client _ found kept
  | located kind id page =>
    rw [phase] at located
    have alone := get_located kind id page store located
    have same := FilePageStore.read_keeps store.pageStore page
    dsimp only
    rw [kept.unchanged]
    cases read : store.pageStore.readPage page with
    | mk result pages =>
      rw [read] at alone same
      change pages = store.pageStore at same
      have whole : {store with pageStore := pages} = store := by rw [same]
      cases result with
      | error e =>
        refine finish_kept store _ client _ alone.symm ⟨?_,kept.located,kept.answers⟩
        exact whole
      | ok data =>
        refine move_kept store _ client _ located ⟨?_,kept.located,kept.answers⟩
        exact whole
  | loaded kind id page =>
    rw [phase] at located
    have alone := get_located kind id page store located
    have held := intact client kind id page rfl phase
    rw [kept.unchanged] at held
    rw [held] at alone
    exact finish_kept store shared client _ alone.symm kept

theorem step_kept (store : GraphStore FilePageStore) (shared : Shared Client) (action : Action Client)
    (intact : Intact shared action) (kept : Kept store shared) : Kept store (step shared action) := by
  cases action with
  | call client kind id =>
    unfold step
    dsimp only
    split
    · exact move_kept store shared client _ trivial kept
    · exact kept
  | advance client => exact advance_kept store shared client intact kept

/-- In every interleaving in which no view is decoded after the buffer was filled with another
page, each call returns what it returns by itself. -/
theorem reads_alone (store : GraphStore FilePageStore) (pageBuffer : Bytes)
    (actions : List (Action Client)) (intact : Guarded step Intact (opened store pageBuffer) actions)
    (answer : Answer) (returned : answer ∈ (run step (opened store pageBuffer) actions).answers) :
    answer.result = (get answer.kind answer.id store).1 := by
  have kept : Kept store (run step (opened store pageBuffer) actions) :=
    run_preserves (Kept store) (step_kept store) (opened store pageBuffer) actions intact
      ⟨rfl,fun _ => trivial,fun _ absent => absurd absent List.not_mem_nil⟩
  exact kept.answers answer returned

/-- Two nodes without properties. -/
def twoNodes : GraphStore FilePageStore :=
  run (plain fun _ => 0) (fresh none none) [.createNode [],.createNode []]

theorem twoNodes_tells : (getNode 1 twoNodes).1 = .ok ({id := 1},[]) ∧
    (getNode 2 twoNodes).1 = .ok ({id := 2},[]) := by
  have fits := short_guarded (fun _ => 0) [.createNode [],.createNode []]
    (fresh_represents none none) (by decide +kernel)
  have represents := run_represents (fun _ => 0) _ (fresh_represents none none) fits
  exact ⟨(represents.tells.nodes 1).trans (by decide +kernel),
    (represents.tells.nodes 2).trans (by decide +kernel)⟩

/-- A node that is found lies on a page that parses to it. -/
theorem found_page (kind : Kind) (id : UInt64) (store : GraphStore FilePageStore)
    (record : kind.Record × List Property) (found : (get kind id store).1 = .ok record) :
    ∃ page data, pageIndex store kind id = some page ∧
      store.pageStore.readPage page = (.ok data,store.pageStore) ∧ parse kind data = .ok record := by
  cases entry : pageIndex store kind id with
  | none =>
    rw [get_missing kind id store entry] at found
    cases found
  | some page =>
    rw [get_located kind id page store entry] at found
    have same := FilePageStore.read_keeps store.pageStore page
    cases read : store.pageStore.readPage page with
    | mk result pages =>
      rw [read] at found same
      cases result with
      | error e => cases found
      | ok data => exact ⟨page,data,rfl,by rw [read,← same],found⟩

/-- The second reader fills the buffer before the first has decoded its view. -/
def overtaken : List (Action Bool) := [.call false .node 1,.call true .node 2,.advance false,
  .advance false,.advance true,.advance true,.advance false]

theorem overtaken_mixed : ∃ answer ∈ (run step (opened twoNodes []) overtaken).answers,
    answer.result ≠ (get answer.kind answer.id twoNodes).1 := by
  obtain ⟨first,second⟩ := twoNodes_tells
  obtain ⟨page,data,index,read,_⟩ := found_page .node 1 twoNodes _ first
  obtain ⟨other,image,place,load,parsed⟩ := found_page .node 2 twoNodes _ second
  have answers : (run step (opened twoNodes []) overtaken).answers =
      [⟨.node,1,parse .node image⟩] := by
    simp [overtaken,step,opened,advance,move,finish,index,place,read,load]
  refine ⟨⟨.node,1,parse .node image⟩,by rw [answers]; exact List.mem_cons_self,?_⟩
  change parse .node image ≠ (getNode 1 twoNodes).1
  rw [first,parsed]
  intro same
  have ids := congrArg (fun pair : NodeRecord × List Property => pair.1.id) (Except.ok.inj same)
  exact absurd ids (by decide)

/-- The first reader decodes its view before the second reads its page. -/
def paced : List (Action Bool) := [.call false .node 1,.call true .node 2,.advance false,
  .advance false,.advance true,.advance false,.advance true,.advance true]

theorem reads_alone_paced : (run step (opened twoNodes []) paced).answers.length = 2 ∧
    ∀ answer ∈ (run step (opened twoNodes []) paced).answers,
      answer.result = (get answer.kind answer.id twoNodes).1 := by
  obtain ⟨first,second⟩ := twoNodes_tells
  obtain ⟨page,data,index,read,_⟩ := found_page .node 1 twoNodes _ first
  obtain ⟨other,image,place,load,_⟩ := found_page .node 2 twoNodes _ second
  refine ⟨?_,reads_alone twoNodes [] paced ?_⟩
  · simp [paced,step,opened,advance,move,finish,index,place,read,load]
  · simp [paced,Intact,step,opened,advance,move,finish,index,place,read,load]

end LoreDB.Storage.ConcurrentReads
