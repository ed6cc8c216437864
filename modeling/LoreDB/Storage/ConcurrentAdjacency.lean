import Mathlib.Algebra.BigOperators.Fin
import Mathlib.Tactic.Ring
import LoreDB.Storage.ConcurrentEdges
import LoreDB.Storage.Wiring

/-! What many clients leave behind on one graph store. As long as no check is overtaken before
the act that rests on it, every live edge is in its two lists and the count is right, once
all calls have returned. -/
namespace LoreDB.Storage.ConcurrentEdges
open LoreDB.Library LoreDB.Library.History LoreDB.Library.ByteStream GraphStore GraphHistory
  GraphRefinement RecordSerializer FilePageStore

section Steps

variable {Client : Type} [DecidableEq Client]

/-- The ids that calls have taken and not yet put into the index, ... -/
def Phase.taken : Phase → Option EdgeId
  | .numbered edge _ | .allocated edge _ _ | .written edge _ => some edge.id
  | _ => none

/-- ... their pages, ... -/
def Phase.page : Phase → Option PageId
  | .allocated _ _ page | .written _ page => some page
  | _ => none

/-- ... and how far the count of edges is ahead of the index on their account. -/
def Phase.balance : Phase → Int
  | .indexed _ | .linked _ => -1
  | .unindexed _ => 1
  | _ => 0

/-- The step does not come too late for the check it rests on: an edge that is erased is
still in the index, and lists that are erased have no indexed edge. -/
def Phase.Timely (store : GraphStore FilePageStore) : Phase → Prop
  | .creating _ _ _ _ _ => store.nextEdgeId + 1 ≠ 0
  | .unlinked edgeId => store.edgePageIndex edgeId ≠ none
  | .unindexedNode nodeId => ∀ edgeId ∈ store.outgoingEdges nodeId ++ store.incomingEdges nodeId,
      store.edgePageIndex edgeId = none
  | _ => True

def Timely (shared : Shared Client) : Event Client → Prop
  | .call _ _ => True
  | .advance client => (shared.phase client).Timely shared.store

/-- What a page says about the edge on it, to whoever can make sense of it. -/
def HoldsEdge (pages : FilePageStore) (page : PageId) (edge : EdgeRecord) : Prop :=
  ∀ data found, (readPage page pages).1 = .ok data → parseEdge data = .ok found → found.1 = edge

/-- Ids that are in the index or on their way there. -/
structure Ids (store : GraphStore FilePageStore) (phase : Client → Phase) : Prop where
  issued : ∀ id, store.edgePageIndex id ≠ none → id < store.nextEdgeId
  taken : ∀ client id, (phase client).taken = some id →
    store.edgePageIndex id = none ∧ id < store.nextEdgeId
  apart : ∀ client other id, (phase client).taken = some id → (phase other).taken = some id →
    client = other

/-- Pages of indexed edges, and those on their way into the index. `record` tells the edge
that was created under an id. -/
structure Pages (record : EdgeId → EdgeRecord) (store : GraphStore FilePageStore)
    (phase : Client → Phase) : Prop where
  indexed : ∀ id page, store.edgePageIndex id = some page →
    Allocated store.pageStore page ∧ HoldsEdge store.pageStore page (record id)
  reserved : ∀ client page, (phase client).page = some page →
    Allocated store.pageStore page ∧ ∀ id, store.edgePageIndex id ≠ some page
  apart : ∀ client other page, (phase client).page = some page → (phase other).page = some page →
    client = other
  written : ∀ client edge page, phase client = .written edge page →
    HoldsEdge store.pageStore page edge

/-- An indexed edge is in its lists, unless a call has not come to put it there or has taken
it out of them already. -/
structure Lists (record : EdgeId → EdgeRecord) (store : GraphStore FilePageStore)
    (phase : Client → Phase) : Prop where
  named : ∀ id, store.edgePageIndex id ≠ none → (record id).id = id
  linked : ∀ id, store.edgePageIndex id ≠ none →
    id ∈ store.outgoingEdges (record id).fromNode ∧ id ∈ store.incomingEdges (record id).toNode ∨
      ∃ client, phase client = .indexed (record id) ∨ phase client = .unlinked id

/-- The count modulo the width of its counter. -/
structure Count [Fintype Client] (live : List EdgeId) (store : GraphStore FilePageStore)
    (phase : Client → Phase) : Prop where
  nodup : live.Nodup
  mem : ∀ id, id ∈ live ↔ store.edgePageIndex id ≠ none
  count : ∃ wraps : Int, (store.edgeCount.toNat : Int) =
    live.length + ∑ client, (phase client).balance + wraps * 2 ^ 64

structure Consistent [Fintype Client] (live : List EdgeId) (record : EdgeId → EdgeRecord)
    (store : GraphStore FilePageStore) (phase : Client → Phase) : Prop where
  ids : Ids store phase
  pages : Pages record store phase
  lists : Lists record store phase
  count : Count live store phase

section Frames

variable {store later : GraphStore FilePageStore} {phase : Client → Phase} {client : Client}
  {next : Phase} {record : EdgeId → EdgeRecord} {live : List EdgeId}

/-- What a client's phase tells is old, if its new phase tells nothing new. -/
theorem still {α : Type} {about : Phase → Option α} {other : Client} {a : α}
    (silent : about next = none ∨ about next = about (phase client))
    (told : about (Function.update phase client next other) = some a) :
    about (phase other) = some a := by
  by_cases here : other = client
  · subst here
    rw [Function.update_self] at told
    rcases silent with nothing | same
    · rw [nothing] at told
      contradiction
    · rwa [← same]
  · rwa [Function.update_of_ne here] at told

theorem Ids.frame (ids : Ids store phase) (index : later.edgePageIndex = store.edgePageIndex)
    (counter : later.nextEdgeId = store.nextEdgeId)
    (taken : next.taken = none ∨ next.taken = (phase client).taken) :
    Ids later (Function.update phase client next) where
  issued := by
    rw [index,counter]
    exact ids.issued
  taken other id told := by
    rw [index,counter]
    exact ids.taken other id (still taken told)
  apart other another id told also := ids.apart other another id (still taken told) (still taken also)

theorem HoldsEdge.kept {before after : FilePageStore} {page : PageId} {edge : EdgeRecord}
    (holds : HoldsEdge before page edge)
    (same : (readPage page after).1 = (readPage page before).1) : HoldsEdge after page edge :=
  fun data found read parsed => holds data found (same ▸ read) parsed

theorem Pages.frame (pages : Pages record store phase)
    (kept : PagesKept store.pageStore later.pageStore)
    (index : later.edgePageIndex = store.edgePageIndex)
    (page : next.page = none ∨ next.page = (phase client).page)
    (unwritten : ∀ edge page, next ≠ .written edge page) :
    Pages record later (Function.update phase client next) where
  indexed id page found := by
    rw [index] at found
    obtain ⟨issued,holds⟩ := pages.indexed id page found
    exact ⟨(kept page issued).1,holds.kept (kept page issued).2⟩
  reserved other number told := by
    obtain ⟨issued,unnamed⟩ := pages.reserved other number (still page told)
    rw [index]
    exact ⟨(kept number issued).1,unnamed⟩
  apart other another number told also :=
    pages.apart other another number (still page told) (still page also)
  written other edge number wrote := by
    by_cases here : other = client
    · subst here
      rw [Function.update_self] at wrote
      exact absurd wrote (unwritten edge number)
    · rw [Function.update_of_ne here] at wrote
      have issued := (pages.reserved other number (by rw [wrote]; rfl)).1
      exact (pages.written other edge number wrote).kept (kept number issued).2

theorem Lists.frame (lists : Lists record store phase)
    (index : later.edgePageIndex = store.edgePageIndex)
    (outgoing : later.outgoingEdges = store.outgoingEdges)
    (incoming : later.incomingEdges = store.incomingEdges)
    (left : ∀ edge id, phase client ≠ .indexed edge ∧ phase client ≠ .unlinked id) :
    Lists record later (Function.update phase client next) where
  named := by
    rw [index]
    exact lists.named
  linked id found := by
    rw [index] at found
    rw [outgoing,incoming]
    refine (lists.linked id found).imp_right fun ⟨other,busy⟩ => ⟨other,?_⟩
    have apart : other ≠ client := by
      rintro rfl
      exact busy.elim (left _ id).1 (left (record id) id).2
    rwa [Function.update_of_ne apart]

variable [Fintype Client]

theorem balance_update : ∑ other, (Function.update phase client next other).balance =
    ∑ other, (phase other).balance - (phase client).balance + next.balance := by
  rw [← Finset.add_sum_erase _ _ (Finset.mem_univ client),
    ← Finset.add_sum_erase _ (fun other => (phase other).balance) (Finset.mem_univ client)]
  have rest : ∑ other ∈ Finset.univ.erase client, (Function.update phase client next other).balance =
      ∑ other ∈ Finset.univ.erase client, (phase other).balance :=
    Finset.sum_congr rfl fun other member => by
      rw [Function.update_of_ne (Finset.ne_of_mem_erase member)]
  rw [rest,Function.update_self]
  ring

theorem Count.frame (count : Count live store phase)
    (index : later.edgePageIndex = store.edgePageIndex) (edges : later.edgeCount = store.edgeCount)
    (balance : next.balance = (phase client).balance) :
    Count live later (Function.update phase client next) := by
  obtain ⟨nodup,mem,wraps,total⟩ := count
  refine ⟨nodup,by rwa [index],wraps,?_⟩
  rw [balance_update,balance,edges,total]
  ring

end Frames

section Changes

variable {store : GraphStore FilePageStore} {phase : Client → Phase} {client : Client}
  {next : Phase} {record : EdgeId → EdgeRecord} {live : List EdgeId}

theorem Ids.numbered (ids : Ids store phase) (counts : store.nextEdgeId + 1 ≠ 0)
    (taken : next.taken = some store.nextEdgeId) :
    Ids {store with nextEdgeId := store.nextEdgeId + 1} (Function.update phase client next) := by
  have later : ∀ id, id < store.nextEdgeId → id < store.nextEdgeId + 1 := fun id below => by
    rw [UInt64.lt_iff_toNat_lt] at below ⊢
    rw [next_toNat _ counts]
    omega
  have unused : store.edgePageIndex store.nextEdgeId = none := by
    by_contra used
    exact UInt64.lt_irrefl _ (ids.issued _ used)
  have apart (other : Client) (away : other ≠ client) (id : EdgeId)
      (told : (Function.update phase client next other).taken = some id) : id < store.nextEdgeId := by
    rw [Function.update_of_ne away] at told
    exact (ids.taken other id told).2
  refine ⟨fun id used => later id (ids.issued id used),fun other id told => ?_,
    fun other another id told also => ?_⟩
  · by_cases here : other = client
    · subst here
      rw [Function.update_self,taken] at told
      cases told
      refine ⟨unused,?_⟩
      rw [UInt64.lt_iff_toNat_lt,next_toNat _ counts]
      exact Nat.lt_succ_self _
    · rw [Function.update_of_ne here] at told
      obtain ⟨absent,below⟩ := ids.taken other id told
      exact ⟨absent,later id below⟩
  · by_cases here : other = client
    · by_cases there : another = client
      · rw [here,there]
      · subst here
        have below := apart another there id also
        rw [Function.update_self,taken] at told
        cases told
        exact absurd below (UInt64.lt_irrefl _)
    · by_cases there : another = client
      · subst there
        have below := apart other here id told
        rw [Function.update_self,taken] at also
        cases also
        exact absurd below (UInt64.lt_irrefl _)
      · rw [Function.update_of_ne here] at told
        rw [Function.update_of_ne there] at also
        exact ids.apart other another id told also

theorem Ids.entered (ids : Ids store phase) (id : EdgeId) (page : PageId)
    (mine : (phase client).taken = some id) (taken : next.taken = none) :
    Ids {store with edgePageIndex := Function.update store.edgePageIndex id (some page)}
      (Function.update phase client next) := by
  refine ⟨fun other used => ?_,fun other number told => ?_,fun other another number told also =>
    ids.apart other another number (still (.inl taken) told) (still (.inl taken) also)⟩
  · by_cases here : other = id
    · rw [here]
      exact (ids.taken client id mine).2
    · simp only [Function.update_of_ne here] at used
      exact ids.issued other used
  · have old := still (.inl taken) told
    have apart : number ≠ id := by
      rintro rfl
      have same := ids.apart other client number old mine
      rw [same,Function.update_self,taken] at told
      contradiction
    obtain ⟨absent,below⟩ := ids.taken other number old
    exact ⟨(Function.update_of_ne apart _ _).trans absent,below⟩

theorem shrinks {index : EdgeId → Option PageId} {id other : EdgeId} {page : PageId}
    (found : Function.update index id none other = some page) :
    other ≠ id ∧ index other = some page := by
  by_cases here : other = id
  · simp [here] at found
  · exact ⟨here,by rwa [Function.update_of_ne here] at found⟩

theorem Ids.erased (ids : Ids store phase) (id : EdgeId) (taken : next.taken = none) :
    Ids {store with edgePageIndex := Function.update store.edgePageIndex id none}
      (Function.update phase client next) := by
  refine ⟨fun other used => ?_,fun other number told => ?_,fun other another number told also =>
    ids.apart other another number (still (.inl taken) told) (still (.inl taken) also)⟩
  · obtain ⟨page,found⟩ := Option.ne_none_iff_exists'.mp used
    exact ids.issued other (by rw [(shrinks found).2]; exact Option.some_ne_none page)
  · obtain ⟨absent,below⟩ := ids.taken other number (still (.inl taken) told)
    refine ⟨?_,below⟩
    by_cases here : number = id
    · rw [here]
      exact Function.update_self ..
    · exact (Function.update_of_ne here _ _).trans absent

theorem Pages.allocated (client : Client) (pages : Pages record store phase) (page : PageId) (next : Phase)
    (taken : (allocatePage store.pageStore).1 = .ok page) (mine : next.page = some page)
    (unwritten : ∀ edge page, next ≠ .written edge page) :
    Pages record {store with pageStore := (allocatePage store.pageStore).2}
      (Function.update phase client next) := by
  obtain ⟨unused,issued⟩ := allocate_fresh store.pageStore page taken
  have keeps := allocate_keeps store.pageStore
  refine ⟨fun id number found => ?_,fun other number told => ?_,fun other another number told also => ?_,
    fun other edge number wrote => ?_⟩
  · obtain ⟨old,holds⟩ := pages.indexed id number found
    exact ⟨(keeps number old).1,holds.kept (keeps number old).2⟩
  · by_cases here : other = client
    · subst here
      rw [Function.update_self,mine] at told
      cases told
      exact ⟨issued,fun id found => unused (pages.indexed id page found).1⟩
    · rw [Function.update_of_ne here] at told
      obtain ⟨old,unnamed⟩ := pages.reserved other number told
      exact ⟨(keeps number old).1,unnamed⟩
  · by_cases here : other = client
    · by_cases there : another = client
      · rw [here,there]
      · subst here
        rw [Function.update_self,mine] at told
        rw [Function.update_of_ne there] at also
        cases told
        exact absurd (pages.reserved another page also).1 unused
    · by_cases there : another = client
      · subst there
        rw [Function.update_self,mine] at also
        rw [Function.update_of_ne here] at told
        cases also
        exact absurd (pages.reserved other page told).1 unused
      · rw [Function.update_of_ne here] at told
        rw [Function.update_of_ne there] at also
        exact pages.apart other another number told also
  · by_cases here : other = client
    · subst here
      rw [Function.update_self] at wrote
      exact absurd wrote (unwritten edge number)
    · rw [Function.update_of_ne here] at wrote
      have old := (pages.reserved other number (by rw [wrote]; rfl)).1
      exact (pages.written other edge number wrote).kept (keeps number old).2

theorem Pages.wrote (client : Client) (pages : Pages record store phase) (page : PageId) (data : Bytes)
    (edge : EdgeRecord) (mine : (phase client).page = some page)
    (holds : HoldsEdge (writePage page data store.pageStore).2 page edge) :
    Pages record {store with pageStore := (writePage page data store.pageStore).2}
      (Function.update phase client (.written edge page)) := by
  have keeps := write_keeps store.pageStore page data
  have same : (Phase.written edge page).page = (phase client).page := mine.symm
  have unnamed := (pages.reserved client page mine).2
  refine ⟨fun id number found => ?_,fun other number told => ?_,fun other another number told also =>
    pages.apart other another number (still (.inr same) told) (still (.inr same) also),
    fun other stored number told => ?_⟩
  · obtain ⟨issued,old⟩ := pages.indexed id number found
    have apart : number ≠ page := fun here => unnamed id (here ▸ found)
    exact ⟨(keeps number issued).1,old.kept ((keeps number issued).2 apart)⟩
  · obtain ⟨issued,absent⟩ := pages.reserved other number (still (.inr same) told)
    exact ⟨(keeps number issued).1,absent⟩
  · by_cases here : other = client
    · subst here
      rw [Function.update_self] at told
      cases told
      exact holds
    · rw [Function.update_of_ne here] at told
      have reserved : (phase other).page = some number := by rw [told]; rfl
      have apart : number ≠ page := fun same =>
        here (pages.apart other client number reserved (same ▸ mine))
      have issued := (pages.reserved other number reserved).1
      exact (pages.written other stored number told).kept ((keeps number issued).2 apart)

theorem Pages.entered (pages : Pages record store phase) (page : PageId) (edge : EdgeRecord)
    (wrote : phase client = .written edge page) (unpaged : next.page = none) :
    Pages (Function.update record edge.id edge)
      {store with edgePageIndex := Function.update store.edgePageIndex edge.id (some page)}
      (Function.update phase client next) := by
  have mine : (phase client).page = some page := by rw [wrote]; rfl
  refine ⟨fun id number found => ?_,fun other number told => ?_,fun other another number told also =>
    pages.apart other another number (still (.inl unpaged) told) (still (.inl unpaged) also),
    fun other stored number told => ?_⟩
  · by_cases here : id = edge.id
    · subst here
      simp only [Function.update_self] at found ⊢
      cases found
      exact ⟨(pages.reserved client page mine).1,pages.written client edge page wrote⟩
    · simp only [Function.update_of_ne here] at found ⊢
      exact pages.indexed id number found
  · have old := still (.inl unpaged) told
    obtain ⟨issued,unnamed⟩ := pages.reserved other number old
    refine ⟨issued,fun id found => ?_⟩
    by_cases here : id = edge.id
    · simp only [here,Function.update_self] at found
      cases found
      have same := pages.apart other client page old mine
      rw [same,Function.update_self,unpaged] at told
      contradiction
    · simp only [Function.update_of_ne here] at found
      exact unnamed id found
  · by_cases here : other = client
    · subst here
      rw [Function.update_self] at told
      rw [told] at unpaged
      contradiction
    · rw [Function.update_of_ne here] at told
      exact pages.written other stored number told

theorem Pages.erased (pages : Pages record store phase) (id : EdgeId) (unpaged : next.page = none) :
    Pages record {store with edgePageIndex := Function.update store.edgePageIndex id none}
      (Function.update phase client next) := by
  refine ⟨fun other number found => pages.indexed other number (shrinks found).2,
    fun other number told => ?_,fun other another number told also =>
      pages.apart other another number (still (.inl unpaged) told) (still (.inl unpaged) also),
    fun other stored number told => ?_⟩
  · obtain ⟨issued,unnamed⟩ := pages.reserved other number (still (.inl unpaged) told)
    exact ⟨issued,fun other found => unnamed other (shrinks found).2⟩
  · by_cases here : other = client
    · subst here
      rw [Function.update_self] at told
      rw [told] at unpaged
      contradiction
    · rw [Function.update_of_ne here] at told
      exact pages.written other stored number told

theorem Lists.entered (lists : Lists record store phase) (page : PageId) (edge : EdgeRecord)
    (left : ∀ edge id, phase client ≠ .indexed edge ∧ phase client ≠ .unlinked id) :
    Lists (Function.update record edge.id edge)
      {store with edgePageIndex := Function.update store.edgePageIndex edge.id (some page)}
      (Function.update phase client (.indexed edge)) := by
  refine ⟨fun id used => ?_,fun id used => ?_⟩
  · by_cases here : id = edge.id
    · rw [here,Function.update_self]
    · simp only [Function.update_of_ne here] at used ⊢
      exact lists.named id used
  · by_cases here : id = edge.id
    · rw [here,Function.update_self]
      exact .inr ⟨client,.inl (Function.update_self ..)⟩
    · simp only [Function.update_of_ne here] at used ⊢
      refine (lists.linked id used).imp_right fun ⟨other,busy⟩ => ⟨other,?_⟩
      have apart : other ≠ client := by
        rintro rfl
        exact busy.elim (left _ id).1 (left edge id).2
      rwa [Function.update_of_ne apart]

theorem Lists.appended (lists : Lists record store phase) (edge : EdgeRecord)
    (mine : phase client = .indexed edge) :
    Lists record (updateAdjacencyLists edge.fromNode edge.toNode edge.id true store)
      (Function.update phase client next) := by
  have grows (lists : NodeId → List EdgeId) (target node : NodeId) (id : EdgeId)
      (inside : id ∈ lists node) :
      id ∈ Function.update lists target (lists target ++ [edge.id]) node := by
    by_cases here : node = target
    · subst here
      rw [Function.update_self]
      exact List.mem_append_left _ inside
    · rwa [Function.update_of_ne here]
  have ends (lists : NodeId → List EdgeId) (target : NodeId) :
      edge.id ∈ Function.update lists target (lists target ++ [edge.id]) target := by
    simp
  refine ⟨lists.named,fun id used => ?_⟩
  rcases lists.linked id used with ⟨leaves,enters⟩ | ⟨other,busy⟩
  · exact .inl ⟨grows store.outgoingEdges _ _ id leaves,grows store.incomingEdges _ _ id enters⟩
  · by_cases here : other = client
    · subst here
      rw [mine] at busy
      rcases busy with same | absurd
      · injection same with same
        have named := lists.named id used
        rw [← same] at named ⊢
        rw [← named]
        exact .inl ⟨ends store.outgoingEdges _,ends store.incomingEdges _⟩
      · contradiction
    · exact .inr ⟨other,by rwa [Function.update_of_ne here]⟩

/-- Whatever the buffer made the client read, only its own edge leaves a list. -/
theorem Lists.filtered (lists : Lists record store phase) (fromNode toNode : NodeId) (id : EdgeId)
    (left : ∀ edge id, phase client ≠ .indexed edge ∧ phase client ≠ .unlinked id) :
    Lists record (updateAdjacencyLists fromNode toNode id false store)
      (Function.update phase client (.unlinked id)) := by
  have stays (lists : NodeId → List EdgeId) (target node : NodeId) (other : EdgeId)
      (apart : other ≠ id) (inside : other ∈ lists node) :
      other ∈ Function.update lists target ((lists target).filter fun entry => entry != id) node := by
    by_cases here : node = target
    · subst here
      rw [Function.update_self]
      exact List.mem_filter.mpr ⟨inside,by simpa using apart⟩
    · rwa [Function.update_of_ne here]
  refine ⟨lists.named,fun other used => ?_⟩
  by_cases here : other = id
  · exact .inr ⟨client,.inr (by rw [Function.update_self,here])⟩
  · rcases lists.linked other used with ⟨leaves,enters⟩ | ⟨another,busy⟩
    · exact .inl ⟨stays store.outgoingEdges _ _ other here leaves,
        stays store.incomingEdges _ _ other here enters⟩
    · have apart : another ≠ client := by
        rintro rfl
        exact busy.elim (left _ id).1 (left (record id) other).2
      exact .inr ⟨another,by rwa [Function.update_of_ne apart]⟩

theorem Lists.erased (lists : Lists record store phase) (id : EdgeId)
    (mine : phase client = .unlinked id) :
    Lists record {store with edgePageIndex := Function.update store.edgePageIndex id none}
      (Function.update phase client next) := by
  have old {other : EdgeId} (used : Function.update store.edgePageIndex id none other ≠ none) :
      other ≠ id ∧ store.edgePageIndex other ≠ none := by
    obtain ⟨page,found⟩ := Option.ne_none_iff_exists'.mp used
    obtain ⟨apart,held⟩ := shrinks found
    exact ⟨apart,by rw [held]; exact Option.some_ne_none page⟩
  refine ⟨fun other used => lists.named other (old used).2,fun other used => ?_⟩
  refine (lists.linked other (old used).2).imp_right fun ⟨another,busy⟩ => ⟨another,?_⟩
  have apart : another ≠ client := by
    rintro rfl
    rw [mine] at busy
    rcases busy with absurd | same
    · contradiction
    · injection same with same
      exact (old used).1 same.symm
  rwa [Function.update_of_ne apart]

theorem Lists.cleared (lists : Lists record store phase) (node : NodeId)
    (dead : ∀ id ∈ store.outgoingEdges node ++ store.incomingEdges node,
      store.edgePageIndex id = none)
    (left : ∀ edge id, phase client ≠ .indexed edge ∧ phase client ≠ .unlinked id) :
    Lists record {store with
        outgoingEdges := Function.update store.outgoingEdges node []
        incomingEdges := Function.update store.incomingEdges node []}
      (Function.update phase client next) := by
  refine ⟨lists.named,fun id used => ?_⟩
  rcases lists.linked id used with ⟨leaves,enters⟩ | ⟨other,busy⟩
  · have outside : (record id).fromNode ≠ node := by
      intro here
      rw [here] at leaves
      exact used (dead id (List.mem_append_left _ leaves))
    have apart : (record id).toNode ≠ node := by
      intro here
      rw [here] at enters
      exact used (dead id (List.mem_append_right _ enters))
    simp only [Function.update_of_ne outside,Function.update_of_ne apart]
    exact .inl ⟨leaves,enters⟩
  · have apart : other ≠ client := by
      rintro rfl
      exact busy.elim (left _ id).1 (left (record id) id).2
    exact .inr ⟨other,by rwa [Function.update_of_ne apart]⟩

variable [Fintype Client]

theorem Count.entered (count : Count live store phase) (id : EdgeId) (page : PageId)
    (absent : store.edgePageIndex id = none) (before : (phase client).balance = 0)
    (balance : next.balance = -1) :
    Count (live ++ [id])
      {store with edgePageIndex := Function.update store.edgePageIndex id (some page)}
      (Function.update phase client next) := by
  obtain ⟨nodup,mem,wraps,total⟩ := count
  have outside : id ∉ live := fun inside => (mem id).mp inside absent
  refine ⟨?_,fun other => ?_,wraps,?_⟩
  · exact List.Nodup.append nodup (List.nodup_singleton _) (by simpa using outside)
  · by_cases here : other = id
    · simp [here]
    · simp [here,mem other]
  · rw [balance_update,before,balance,List.length_append,List.length_singleton,total]
    push_cast
    ring

theorem Count.erased (count : Count live store phase) (id : EdgeId)
    (held : store.edgePageIndex id ≠ none) (before : (phase client).balance = 0)
    (balance : next.balance = 1) :
    Count (live.erase id) {store with edgePageIndex := Function.update store.edgePageIndex id none}
      (Function.update phase client next) := by
  obtain ⟨nodup,mem,wraps,total⟩ := count
  have inside : id ∈ live := (mem id).mpr held
  have length := List.length_erase_of_mem inside
  have positive := List.length_pos_of_mem inside
  refine ⟨nodup.erase id,fun other => ?_,wraps,?_⟩
  · rw [nodup.mem_erase_iff,mem other]
    by_cases here : other = id
    · simp [here]
    · simp [here]
  · rw [balance_update,before,balance,length,total]
    omega

theorem Count.added (count : Count live store phase) (before : (phase client).balance = -1)
    (balance : next.balance = 0) :
    Count live {store with edgeCount := store.edgeCount + 1} (Function.update phase client next) := by
  obtain ⟨nodup,mem,wraps,total⟩ := count
  have bound := store.edgeCount.toNat_lt
  have moved : (store.edgeCount + 1).toNat = (store.edgeCount.toNat + 1) % 2 ^ 64 :=
    UInt64.toNat_add _ _
  refine ⟨nodup,mem,wraps - (store.edgeCount.toNat + 1) / 2 ^ 64,?_⟩
  simp only
  rw [balance_update,before,balance,moved]
  omega

theorem Count.subtracted (count : Count live store phase) (before : (phase client).balance = 1)
    (balance : next.balance = 0) :
    Count live {store with edgeCount := store.edgeCount - 1} (Function.update phase client next) := by
  obtain ⟨nodup,mem,wraps,total⟩ := count
  have bound := store.edgeCount.toNat_lt
  have moved : (store.edgeCount - 1).toNat = (2 ^ 64 - 1 + store.edgeCount.toNat) % 2 ^ 64 :=
    UInt64.toNat_sub _ _
  refine ⟨nodup,mem,wraps + 1 - (2 ^ 64 - 1 + store.edgeCount.toNat) / 2 ^ 64,?_⟩
  simp only
  rw [balance_update,before,balance,moved]
  omega

end Changes

theorem deserializeEdge_record (data : Bytes) (found : EdgeRecord × List Property)
    (reads : deserializeEdge data = .ok found) : found.1 = edgeOfBytes data := by
  unfold deserializeEdge at reads
  split at reads
  · cases reads
  · cases parsed : deserializeProperties (data.drop 48) with
    | error e =>
      rw [parsed] at reads
      cases reads
    | ok properties =>
      rw [parsed] at reads
      cases reads
      rfl

/-- However long the properties, the fixed part of the record is on its page. -/
theorem write_holds (page : PageId) (edge : EdgeRecord) (properties : List Property)
    (pages later : FilePageStore)
    (wrote : writePage page (pageImage page .edge (serializeEdge edge properties)) pages = (.ok (),later)) :
    HoldsEdge later page edge := by
  intro data found read parsed
  rw [write_reads page _ pages later wrote] at read
  have same := Except.ok.inj read
  obtain ⟨kind,image⟩ := sealed_image page .edge (serializeEdge edge properties)
  rw [← same,parseEdge,if_neg (not_not.mpr kind),image,serializeEdge,List.append_assoc,List.take_append,
    List.take_of_length_le (by rw [edgeBytes_length]; decide)] at parsed
  rw [deserializeEdge_record _ found parsed,edgeOfBytes_written]

variable [Fintype Client] {live : List EdgeId} {record : EdgeId → EdgeRecord}
  {store later : GraphStore FilePageStore} {phase : Client → Phase} {client : Client} {next : Phase}

/-- A step that puts no record, no index entry, no list and no count in or out. -/
theorem Consistent.calm (consistent : Consistent live record store phase)
    (kept : PagesKept store.pageStore later.pageStore)
    (index : later.edgePageIndex = store.edgePageIndex)
    (outgoing : later.outgoingEdges = store.outgoingEdges)
    (incoming : later.incomingEdges = store.incomingEdges)
    (counter : later.nextEdgeId = store.nextEdgeId) (edges : later.edgeCount = store.edgeCount)
    (left : ∀ edge id, phase client ≠ .indexed edge ∧ phase client ≠ .unlinked id)
    (balance : next.balance = (phase client).balance) (taken : next.taken = none)
    (page : next.page = none) :
    Consistent live record later (Function.update phase client next) where
  ids := consistent.ids.frame index counter (.inl taken)
  pages := consistent.pages.frame kept index (.inl page) fun edge number wrote => by
    rw [wrote] at page
    contradiction
  lists := consistent.lists.frame index outgoing incoming left
  count := consistent.count.frame index edges balance

theorem write_fails (page : PageId) (data : Bytes) (pages left : FilePageStore) (e : Error)
    (failed : writePage page data pages = (.error e,left)) : left = pages := by
  rcases write_cases page data pages with ⟨other,same⟩ | ⟨_,_,wrote⟩
  · rw [same] at failed
    exact (congrArg Prod.snd failed).symm
  · rw [wrote] at failed
    cases failed

theorem allocate_pages (pages : FilePageStore) : PagesKept pages (allocatePage pages).2 :=
  FilePageStore.allocate_keeps pages

theorem advance_consistent (hash : Bytes → UInt64) (shared : Shared Client) (client : Client)
    (timely : Timely shared (.advance client))
    (consistent : Consistent live record shared.store shared.phase) :
    let later := step hash shared (.advance client)
    ∃ live record, Consistent live record later.store later.phase := by
  obtain ⟨store,pageBuffer,phase⟩ := shared
  have same := pages_refl store.pageStore
  unfold Timely at timely
  simp only [step] at consistent timely ⊢
  have ids := consistent.ids
  have pages := consistent.pages
  have lists := consistent.lists
  have count := consistent.count
  cases at_ : phase client with
  | idle returned =>
    simp only [Phase.advance]
    exact ⟨live,record,consistent.calm same rfl rfl rfl rfl rfl (by simp [at_])
      (by simp [at_,Phase.balance]) rfl rfl⟩
  | creating clock fromNode toNode label properties =>
    simp only [Phase.advance]
    rw [at_] at timely
    refine ⟨live,record,ids.numbered timely rfl,pages.frame same rfl (.inl rfl) (by simp),
      lists.frame rfl rfl rfl (by simp [at_]),count.frame rfl rfl (by simp [at_,Phase.balance])⟩
  | numbered edge properties =>
    have keeps := allocate_pages store.pageStore
    have allocates := fun page taken => pages.allocated client page
      (.allocated edge properties page) taken rfl (by simp)
    simp only [Phase.advance]
    cases allocated : allocatePage store.pageStore with
    | mk result left =>
      rw [allocated] at keeps allocates
      cases result with
      | error e =>
        exact ⟨live,record,consistent.calm keeps rfl rfl rfl rfl rfl (by simp [at_])
          (by simp [at_,Phase.balance]) rfl rfl⟩
      | ok page =>
        refine ⟨live,record,ids.frame rfl rfl (.inr (by simp [at_,Phase.taken])),allocates page rfl,
          lists.frame rfl rfl rfl (by simp [at_]),count.frame rfl rfl (by simp [at_,Phase.balance])⟩
  | allocated edge properties page =>
    have mine : (phase client).page = some page := by rw [at_]; rfl
    have writes := fun holds => pages.wrote client page
      (pageImage page .edge (serializeEdge edge properties)) edge mine holds
    simp only [Phase.advance]
    cases wrote : writePage page (pageImage page .edge (serializeEdge edge properties))
        store.pageStore with
    | mk result left =>
      rw [wrote] at writes
      cases result with
      | error e =>
        have kept : left = store.pageStore := write_fails page _ store.pageStore left e wrote
        exact ⟨live,record,consistent.calm (kept ▸ same) rfl rfl rfl rfl rfl (by simp [at_])
          (by simp [at_,Phase.balance]) rfl rfl⟩
      | ok _ =>
        exact ⟨live,record,ids.frame rfl rfl (.inr (by simp [at_,Phase.taken])),
          writes (write_holds page edge properties store.pageStore left wrote),
          lists.frame rfl rfl rfl (by simp [at_]),count.frame rfl rfl (by simp [at_,Phase.balance])⟩
  | written edge page =>
    have mine : (phase client).taken = some edge.id := by rw [at_]; rfl
    have absent := (ids.taken client edge.id mine).1
    simp only [Phase.advance]
    refine ⟨live ++ [edge.id],Function.update record edge.id edge,ids.entered edge.id page mine rfl,
      pages.entered page edge at_ rfl,lists.entered page edge (by simp [at_]),
      count.entered edge.id page absent (by simp [at_,Phase.balance]) rfl⟩
  | indexed edge =>
    simp only [Phase.advance]
    refine ⟨live,record,ids.frame rfl rfl (.inl rfl),pages.frame same rfl (.inl rfl) (by simp),
      lists.appended edge at_,count.frame rfl rfl (by simp [at_,Phase.balance])⟩
  | linked edgeId =>
    simp only [Phase.advance]
    refine ⟨live,record,ids.frame rfl rfl (.inl rfl),pages.frame same rfl (.inl rfl) (by simp),
      lists.frame rfl rfl rfl (by simp [at_]),count.added (by simp [at_,Phase.balance]) rfl⟩
  | deletingEdge edgeId =>
    simp only [Phase.advance]
    split
    · exact ⟨live,record,consistent.calm same rfl rfl rfl rfl rfl (by simp [at_])
        (by simp [at_,Phase.balance]) rfl rfl⟩
    · exact ⟨live,record,consistent.calm same rfl rfl rfl rfl rfl (by simp [at_])
        (by simp [at_,Phase.balance]) rfl rfl⟩
  | located edgeId page =>
    have reads := read_keeps store.pageStore page
    simp only [Phase.advance]
    cases read : readPage page store.pageStore with
    | mk result left =>
      rw [read] at reads
      have kept : PagesKept store.pageStore left := reads ▸ same
      cases result with
      | error e =>
        exact ⟨live,record,consistent.calm kept rfl rfl rfl rfl rfl (by simp [at_])
          (by simp [at_,Phase.balance]) rfl rfl⟩
      | ok data =>
        exact ⟨live,record,consistent.calm kept rfl rfl rfl rfl rfl (by simp [at_])
          (by simp [at_,Phase.balance]) rfl rfl⟩
  | loaded edgeId =>
    simp only [Phase.advance]
    split
    · exact ⟨live,record,consistent.calm same rfl rfl rfl rfl rfl (by simp [at_])
        (by simp [at_,Phase.balance]) rfl rfl⟩
    · exact ⟨live,record,ids.frame rfl rfl (.inl rfl),pages.frame same rfl (.inl rfl) (by simp),
        lists.filtered _ _ edgeId (by simp [at_]),count.frame rfl rfl (by simp [at_,Phase.balance])⟩
  | unlinked edgeId =>
    rw [at_] at timely
    simp only [Phase.advance]
    exact ⟨live.erase edgeId,record,ids.erased edgeId rfl,pages.erased edgeId rfl,
      lists.erased edgeId at_,count.erased edgeId timely (by simp [at_,Phase.balance]) rfl⟩
  | unindexed edgeId =>
    simp only [Phase.advance]
    exact ⟨live,record,ids.frame rfl rfl (.inl rfl),pages.frame same rfl (.inl rfl) (by simp),
      lists.frame rfl rfl rfl (by simp [at_]),count.subtracted (by simp [at_,Phase.balance]) rfl⟩
  | deletingNode nodeId =>
    simp only [Phase.advance]
    exact ⟨live,record,consistent.calm same rfl rfl rfl rfl rfl (by simp [at_])
      (by simp [at_,Phase.balance]) rfl rfl⟩
  | seenOutgoing nodeId outgoing =>
    simp only [Phase.advance]
    exact ⟨live,record,consistent.calm same rfl rfl rfl rfl rfl (by simp [at_])
      (by simp [at_,Phase.balance]) rfl rfl⟩
  | seenIncoming nodeId outgoing incoming =>
    simp only [Phase.advance]
    split
    · exact ⟨live,record,consistent.calm same rfl rfl rfl rfl rfl (by simp [at_])
        (by simp [at_,Phase.balance]) rfl rfl⟩
    · split
      · exact ⟨live,record,consistent.calm same rfl rfl rfl rfl rfl (by simp [at_])
          (by simp [at_,Phase.balance]) rfl rfl⟩
      · exact ⟨live,record,consistent.calm same rfl rfl rfl rfl rfl (by simp [at_])
          (by simp [at_,Phase.balance]) rfl rfl⟩
  | unindexedNode nodeId =>
    rw [at_] at timely
    simp only [Phase.advance]
    exact ⟨live,record,ids.frame rfl rfl (.inl rfl),pages.frame same rfl (.inl rfl) (by simp),
      lists.cleared nodeId timely (by simp [at_]),count.frame rfl rfl (by simp [at_,Phase.balance])⟩
  | unlinkedNode nodeId =>
    simp only [Phase.advance]
    exact ⟨live,record,consistent.calm same rfl rfl rfl rfl rfl (by simp [at_])
      (by simp [at_,Phase.balance]) rfl rfl⟩

theorem step_consistent (hash : Bytes → UInt64) (shared : Shared Client) (event : Event Client)
    (timely : Timely shared event)
    (consistent : ∃ live record, Consistent live record shared.store shared.phase) :
    ∃ live record, Consistent live record (step hash shared event).store (step hash shared event).phase := by
  obtain ⟨live,record,consistent⟩ := consistent
  cases event with
  | advance client => exact advance_consistent hash shared client timely consistent
  | call client call =>
    simp only [step]
    split
    · rename_i returned at_
      refine ⟨live,record,consistent.calm (pages_refl _) rfl rfl rfl rfl rfl (by simp [at_]) ?_ ?_ ?_⟩
      all_goals cases call <;> simp [at_,Call.start,Phase.balance,Phase.taken,Phase.page]
    · exact ⟨live,record,consistent⟩

def Phase.isIdle : Phase → Bool
  | .idle _ => true
  | _ => false

theorem isIdle_iff {phase : Phase} : phase.isIdle = true ↔ ∃ result, phase = .idle result := by
  cases phase <;> simp [Phase.isIdle]

/-- What is owed to the edges that are there. -/
structure Survived (store : GraphStore FilePageStore) : Prop where
  outgoing : ∀ id edge properties, (getEdge id store).1 = .ok (edge,properties) →
    id ∈ getOutgoingEdges edge.fromNode store
  incoming : ∀ id edge properties, (getEdge id store).1 = .ok (edge,properties) →
    id ∈ getIncomingEdges edge.toNode store
  count : ∃ live : List EdgeId, live.Nodup ∧ (∀ id, id ∈ live ↔ store.edgePageIndex id ≠ none) ∧
    store.edgeCount.toNat = live.length

theorem getEdge_parsed (store : GraphStore FilePageStore) (id : EdgeId)
    (found : EdgeRecord × List Property) : (getEdge id store).1 = .ok found ↔
      ∃ page data, store.edgePageIndex id = some page ∧
        (readPage page store.pageStore).1 = .ok data ∧ parseEdge data = .ok found := by
  unfold getEdge getRecord
  cases index : store.edgePageIndex id with
  | none =>
    constructor
    · intro absurd
      cases absurd
    · rintro ⟨_,_,absurd,_⟩
      cases absurd
  | some page =>
    dsimp only
    cases reads : readPage page store.pageStore with
    | mk result pages =>
      rw [show PageStore.readPage page store.pageStore = (result,pages) from reads]
      cases result with
      | error e =>
        constructor
        · intro absurd
          cases absurd
        · rintro ⟨other,data,same,got,_⟩
          cases same
          rw [reads] at got
          contradiction
      | ok data =>
        refine ⟨fun read => ⟨page,data,rfl,congrArg Prod.fst reads,read⟩,
          fun ⟨other,image,same,got,parsed⟩ => ?_⟩
        cases same
        rw [reads] at got
        cases got
        exact parsed

theorem ids_fit (ids : List EdgeId) (nodup : ids.Nodup) (next : EdgeId) (below : ∀ id ∈ ids, id < next) :
    ids.length < 2 ^ 64 := by
  have inside : ids.map UInt64.toNat ⊆ List.range next.toNat := by
    intro number member
    obtain ⟨id,listed,rfl⟩ := List.mem_map.mp member
    exact List.mem_range.mpr (UInt64.lt_iff_toNat_lt.mp (below id listed))
  have apart : (ids.map UInt64.toNat).Nodup := nodup.map fun _ _ => UInt64.toNat_inj.mp
  have length := (List.subperm_of_subset apart inside).length_le
  rw [List.length_map,List.length_range] at length
  exact Nat.lt_of_le_of_lt length next.toNat_lt

omit [DecidableEq Client] in
theorem consistent_survived (consistent : Consistent live record store phase)
    (returned : ∀ client, ∃ result, phase client = .idle result) : Survived store := by
  obtain ⟨ids,pages,lists,nodup,mem,wraps,total⟩ := consistent
  have linked (id : EdgeId) (edge : EdgeRecord) (properties : List Property)
      (read : (getEdge id store).1 = .ok (edge,properties)) :
      id ∈ store.outgoingEdges edge.fromNode ∧ id ∈ store.incomingEdges edge.toNode := by
    obtain ⟨page,data,index,reads,parsed⟩ := (getEdge_parsed store id _).mp read
    have same : edge = record id := (pages.indexed id page index).2 data _ reads parsed
    rw [same]
    refine (lists.linked id (by rw [index]; exact Option.some_ne_none page)).resolve_right ?_
    rintro ⟨client,busy⟩
    obtain ⟨result,idle⟩ := returned client
    rw [idle] at busy
    rcases busy with absurd | absurd
    · contradiction
    · contradiction
  refine ⟨fun id edge properties read => (linked id edge properties read).1,
    fun id edge properties read => (linked id edge properties read).2,live,nodup,mem,?_⟩
  have settled : ∑ client, (phase client).balance = 0 := by
    apply Finset.sum_eq_zero
    intro client _
    obtain ⟨result,idle⟩ := returned client
    rw [idle]
    rfl
  have bound := store.edgeCount.toNat_lt
  have few := ids_fit live nodup store.nextEdgeId fun id member => ids.issued id ((mem id).mp member)
  rw [settled] at total
  omega

/-- The edge that can be read under an id, or one between the ends if none can. -/
def recordAt (store : GraphStore FilePageStore) (ends : EdgeId → NodeId × NodeId) (id : EdgeId) : EdgeRecord :=
  match (getEdge id store).1 with
  | .ok found => found.1
  | .error _ => {id := id, fromNode := (ends id).1, toNode := (ends id).2}

theorem recordAt_read {store : GraphStore FilePageStore} {id : EdgeId} {found : EdgeRecord × List Property}
    (ends : EdgeId → NodeId × NodeId) (read : (getEdge id store).1 = .ok found) :
    recordAt store ends id = found.1 := by
  rw [recordAt,read]

theorem recordAt_joins {store : GraphStore FilePageStore} {ends : EdgeId → NodeId × NodeId}
    (wired : Wiring.Wired store ends) (id : EdgeId) :
    (recordAt store ends id).id = id ∧
      ((recordAt store ends id).fromNode,(recordAt store ends id).toNode) = ends id := by
  have joins := wired.joins id
  unfold recordAt
  cases read : (getEdge id store).1 with
  | ok found => exact ⟨joins.named found read,joins.seen found read⟩
  | error e => exact ⟨rfl,rfl⟩

omit [DecidableEq Client] in
/-- What a client has made of the store, alone, is consistent. -/
theorem wired_consistent {store : GraphStore FilePageStore} {ends : EdgeId → NodeId × NodeId} {live : List EdgeId}
    (wired : Wiring.Wired store ends) (counted : Wiring.EdgesCounted (Outlines.outline store) live) :
    Consistent live (recordAt store ends) store fun _ : Client => .idle none := by
  refine ⟨⟨fun id => (wired.joins id).issued,fun _ id told => ?_,fun _ _ id told => ?_⟩,
    ⟨fun id page index => ?_,fun _ page told => ?_,fun _ _ page told => ?_,fun _ edge page told => ?_⟩,
    ⟨fun id _ => (recordAt_joins wired id).1,fun id used => .inl ?_⟩,⟨counted.nodup,counted.mem,?_⟩⟩
  · cases told
  · cases told
  · refine ⟨wired.placed .edge id page index,fun data read reads parsed => ?_⟩
    have told := (getEdge_parsed store id read).mpr ⟨page,data,index,reads,parsed⟩
    exact (recordAt_read ends told).symm
  · cases told
  · cases told
  · cases told
  · have joins := (recordAt_joins wired id).2
    exact ⟨((wired.joins id).outgoing _).mpr ⟨used,(congrArg Prod.fst joins).symm⟩,
      ((wired.joins id).incoming _).mpr ⟨used,(congrArg Prod.snd joins).symm⟩⟩
  · refine ⟨-(live.length / 2 ^ 64 : Nat),?_⟩
    rw [show store.edgeCount = _ from counted.count,UInt64.toNat_ofNat']
    simp only [Phase.balance,Finset.sum_const_zero]
    omega

/-- Once all calls have returned, lists and count are right in every run in which no step
comes too late for the check it rests on. -/
theorem edges_survive (hash : Bytes → UInt64) (mvcc : Option Transaction.MVCCManager)
    (wal : Option WALManager) (calls : List Operation)
    (last : Guarded (plain hash) Lasts (fresh mvcc wal) calls) (pageBuffer : Bytes)
    (events : List (Event Client))
    (timely : Guarded (step hash) Timely
      (opened (run (plain hash) (fresh mvcc wal) calls) pageBuffer) events) :
    let reached := run (step hash) (opened (run (plain hash) (fresh mvcc wal) calls) pageBuffer) events
    (∀ client, (reached.phase client).isIdle = true) → Survived reached.store := by
  intro reached returned
  obtain ⟨ends,live,wired,counted⟩ := Wiring.plainly_wired hash mvcc wal calls last
  have start : Consistent live _ _ fun _ : Client => .idle none := wired_consistent wired counted
  obtain ⟨live,later,final⟩ := run_preserves
    (fun shared : Shared Client => ∃ live record, Consistent live record shared.store shared.phase)
    (step_consistent hash) (opened _ pageBuffer) events timely ⟨_,_,start⟩
  exact consistent_survived final fun client => isIdle_iff.mp (returned client)

end Steps

instance (store : GraphStore FilePageStore) : (phase : Phase) → Decidable (phase.Timely store)
  | .creating _ _ _ _ _ | .unlinked _ => inferInstanceAs (Decidable (_ ≠ _))
  | .unindexedNode _ => List.decidableBAll _ _
  | .idle _ | .numbered _ _ | .allocated _ _ _ | .written _ _ | .indexed _ | .linked _
  | .deletingEdge _ | .located _ _ | .loaded _ | .unindexed _ | .deletingNode _ | .seenOutgoing _ _
  | .seenIncoming _ _ _ | .unlinkedNode _ => .isTrue trivial

instance {Client : Type} (shared : Shared Client) : (event : Event Client) →
    Decidable (Timely shared event)
  | .call _ _ => .isTrue trivial
  | .advance client => inferInstanceAs (Decidable ((shared.phase client).Timely shared.store))

/-- Two edges that are created in turns while a third node goes. -/
def interleaved : List (Event Bool) := [
  .call true (.createEdge 5 1 1 [] []),.call false (.createEdge 6 1 2 [] []),
  .advance true,.advance false,.advance false,.advance true,.advance true,.advance false,
  .advance false,.advance false,.advance true,.advance false,
  .call false (.deleteNode 3),.advance false,.advance false,.advance true,.advance false,
  .advance false,.advance false,.advance true]

theorem edges_survive_interleaved :
    Survived (run (step fun _ => 0) (opened (fresh none none) []) interleaved).store :=
  edges_survive (fun _ => 0) none none [] trivial [] interleaved (by decide +kernel)
    (by decide +kernel)

/-- The two halves of `delete_node`, before and after another client's call. -/
def unindexNode (node : NodeId) (store : GraphStore FilePageStore) : GraphStore FilePageStore :=
  {store with nodePageIndex := Function.update store.nodePageIndex node none}

def unlinkNode (node : NodeId) (store : GraphStore FilePageStore) : GraphStore FilePageStore :=
  {store with
    outgoingEdges := Function.update store.outgoingEdges node []
    incomingEdges := Function.update store.incomingEdges node []
    nodeCount := store.nodeCount - 1}

/-- One client deletes a node, and the other creates a loop there after the first has seen
its empty lists. -/
def overtaken (node : NodeId) (clock : UInt64) (label : Bytes) (properties : List Property) :
    List (Event Bool) :=
  .call true (.deleteNode node)::List.replicate 3 (.advance true) ++
    (.call false (.createEdge clock node node label properties)::List.replicate 6 (.advance false)) ++
      List.replicate 2 (.advance true)

theorem node_unindexed (hash : Bytes → UInt64) (store : GraphStore FilePageStore) (pageBuffer : Bytes)
    (node : NodeId) (outgoing : store.outgoingEdges node = []) (incoming : store.incomingEdges node = []) :
    run (step hash) (opened store pageBuffer)
        (.call true (.deleteNode node)::List.replicate 3 (.advance true)) = {
      store := unindexNode node store
      pageBuffer := pageBuffer
      phase := Function.update (fun _ => .idle none) true (.unindexedNode node)} := by
  have ran := run_alone hash 3 (step hash (opened store pageBuffer) (.call true (.deleteNode node))) true
  have seen : alone hash 3 (.deletingNode node,store,pageBuffer) =
      (.unindexedNode node,unindexNode node store,pageBuffer) := by
    simp only [alone,Phase.advance,getOutgoingEdges,getIncomingEdges,outgoing,incoming]
    rfl
  simp only [step,opened,Call.start,Function.update_self,Function.update_idem,seen] at ran
  exact ran

theorem node_unlinked (hash : Bytes → UInt64) (shared : Shared Bool) (node : NodeId)
    (late : shared.phase true = .unindexedNode node) :
    run (step hash) shared (List.replicate 2 (.advance true)) = {
      store := unlinkNode node shared.store
      pageBuffer := shared.pageBuffer
      phase := Function.update shared.phase true (.idle (some (.ok node)))} := by
  have ran := run_alone hash 2 shared true
  rw [late] at ran
  exact ran

theorem overtaken_reaches (hash : Bytes → UInt64) (store : GraphStore FilePageStore)
    (pageBuffer : Bytes) (node : NodeId) (outgoing : store.outgoingEdges node = [])
    (incoming : store.incomingEdges node = []) (clock : UInt64) (label : Bytes)
    (properties : List Property) :
    let reached := run (step hash) (opened store pageBuffer) (overtaken node clock label properties)
    reached.store = unlinkNode node
        (plain hash (unindexNode node store) (.createEdge clock node node label properties)) ∧
      ∀ client, (reached.phase client).isIdle = true := by
  have checked := node_unindexed hash store pageBuffer node outgoing incoming
  obtain ⟨buffer,created⟩ := uninterrupted hash (run (step hash) (opened store pageBuffer)
    (.call true (.deleteNode node)::List.replicate 3 (.advance true))) false
    (.createEdge clock node node label properties) none (by rw [checked]; rfl)
  unfold overtaken
  dsimp only
  rw [run_append,run_append,created,checked,node_unlinked hash _ node rfl]
  exact ⟨rfl,fun client => by cases client <;> rfl⟩

theorem unlinked_reads {nodes : NodeId → Except Error (NodeRecord × List Property)}
    {edges : EdgeId → Except Error (EdgeRecord × List Property)} (node : NodeId)
    (id : EdgeId) {store : GraphStore FilePageStore} (tells : Tells store nodes edges) :
    (getEdge id (unlinkNode node store)).1 = edges id :=
  (tells.congr (unlinkNode node store) rfl rfl rfl).edges id

theorem unlinked_lists_empty (node : NodeId) (store : GraphStore FilePageStore) :
    getOutgoingEdges node (unlinkNode node store) = [] :=
  Function.update_self ..

/-- The edge is there and can be read, and its lists are gone. -/
theorem overtaken_loses (hash : Bytes → UInt64) (store : GraphStore FilePageStore)
    (model : CountedGraph) (represents : Represents store model) (node : NodeId)
    (isolated : ∀ tip, model.graph.attached tip node = []) (clock : UInt64) (label : Bytes)
    (properties : List Property)
    (fits : Fits hash store (.createEdge clock node node label properties)) (pageBuffer : Bytes) :
    let reached := run (step hash) (opened store pageBuffer) (overtaken node clock label properties)
    (∀ client, (reached.phase client).isIdle = true) ∧ ¬Survived reached.store := by
  obtain ⟨store_eq,returned⟩ := overtaken_reaches hash store pageBuffer node
    ((represents.outgoing node).trans (isolated .source))
    ((represents.incoming node).trans (isolated .target)) clock label properties
  refine ⟨returned,fun survived => ?_⟩
  rw [store_eq] at survived
  have checked : Represents (unindexNode node store)
      {model with graph := model.graph.eraseNode node} := by
    obtain ⟨tells,nodeIds,edgeIds,outgoing,incoming,issued,few,count⟩ := represents
    refine ⟨?_,nodeIds,edgeIds,outgoing,incoming,issued,few,count⟩
    rw [readNode_erase]
    exact dropNode_tells node tells
  have created := (createEdge_simulates hash clock node node label properties checked fits).2
  have read := unlinked_reads node model.nextEdgeId created.tells
  rw [CountedGraph.step,readEdge_add _ _ (unissued checked),Function.update_self] at read
  have listed := survived.outgoing model.nextEdgeId _ _ read
  rw [edgeRecord,unlinked_lists_empty] at listed
  exact List.not_mem_nil listed

theorem edge_lost :
    let store := run (plain fun _ => 0) (fresh none none) [.createNode []]
    let reached := run (step fun _ => 0) (opened store []) (overtaken 1 5 [] [])
    (∀ client, (reached.phase client).isIdle = true) ∧ ¬Survived reached.store := by
  have represents := run_represents (fun _ => 0) [.createNode []] (fresh_represents none none)
    (by decide +kernel)
  exact overtaken_loses (fun _ => 0) _ _ represents 1 (fun tip => by cases tip <;> rfl) 5 [] []
    (short_fits (fun _ => 0) _ represents (by decide +kernel)) []

end LoreDB.Storage.ConcurrentEdges
