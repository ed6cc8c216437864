import LoreDB.Storage.Outlines

/-! Which versions a call on a graph store adds, and what it touches besides. An operation in a
transaction writes one version, of its own record, and only where it succeeds on the pages. -/
namespace LoreDB.Storage.GraphHistory
open LoreDB.Transaction LoreDB.Library.History GraphStore Outlines

variable {σ : Type}

/-- The data under an id is old, or it comes with a version that was written there. -/
def Adds (before later : GraphStore σ) (written : UInt64 → Version → Prop) : Prop :=
  ∀ id, ∀ v ∈ (mvcc later).chain id,
    (∃ old ∈ (mvcc before).chain id, old.data = v.data) ∨ written id v

theorem Adds.same {before later : GraphStore σ} {written : UInt64 → Version → Prop}
    (same : later.mvccManager = before.mvccManager) : Adds before later written := by
  intro id v member
  rw [mvcc,same] at member
  exact .inl ⟨v,member,rfl⟩

theorem Adds.imp {before later : GraphStore σ} {written other : UInt64 → Version → Prop}
    (adds : Adds before later written) (weaker : ∀ id v, written id v → other id v) :
    Adds before later other :=
  fun id v member => (adds id v member).imp_right (weaker id v)

theorem write_data (manager next : MVCCManager) (key : UInt64) (version : Version)
    (result : Except MVCCError Unit) (wrote : manager.writeVersion key version = some (result,next))
    (id : UInt64) (v : Version) (member : v ∈ next.chain id) :
    (∃ old ∈ manager.chain id, old.data = v.data) ∨ (id = key ∧ v = version) := by
  unfold MVCCManager.writeVersion at wrote
  split at wrote
  · cases wrote
  · obtain ⟨-,rfl⟩ := Prod.mk.inj (Option.some.inj wrote)
    exact .inl ⟨v,member,rfl⟩
  · obtain ⟨-,rfl⟩ := Prod.mk.inj (Option.some.inj wrote)
    by_cases here : id = key
    · subst here
      simp only [MVCCManager.chain,Function.update_self,Option.getD_some] at member
      rcases MvccHistory.written_mem version v _ member with new | old | ⟨old,inside,-,rfl⟩
      · exact .inr ⟨rfl,new⟩
      · exact .inl ⟨v,old,rfl⟩
      · exact .inl ⟨old,inside,rfl⟩
    · simp only [MVCCManager.chain,Function.update_of_ne here] at member
      exact .inl ⟨v,member,rfl⟩

theorem versioned_adds {α : Type} (result : α) (refused : Option String) (op : String) (key : UInt64)
    (version : Version) (store : GraphStore σ) :
    Adds store (versioned result refused op key version store).2 fun id v => id = key ∧ v = version := by
  have written : mvcc (versioned result refused op key version store).2 =
      mvcc (store.writeVersion key version).2 := by
    unfold versioned
    split
    · simp [*]
    · split <;> simp [*,logOperation,mvcc]
    · simp [*,logOperation,mvcc]
  intro id v member
  rw [written] at member
  unfold writeVersion at member
  split at member
  · exact .inl ⟨v,member,rfl⟩
  · rename_i manager enabled
    have same : mvcc store = manager := by rw [mvcc,enabled]; rfl
    split at member
    · exact .inl ⟨v,member,rfl⟩
    · rename_i wrote
      rw [same]
      exact write_data _ _ _ _ _ wrote id v member

/-- A call on the version store that is no write. -/
theorem manage_adds (call : MvccHistory.Call) (other : ∀ key version, call ≠ .write key version)
    (store : GraphStore σ) : Adds store (manage call store) fun _ _ => False := by
  intro id v member
  cases enabled : store.mvccManager with
  | none =>
    rw [mvcc,manage,enabled] at member
    cases member
  | some manager =>
    have same : mvcc store = manager := by rw [mvcc,enabled]; rfl
    rw [mvcc,manage,enabled] at member
    refine .inl ⟨v,?_,rfl⟩
    rw [same]
    cases call with
    | begin => exact member
    | commit txId => exact member
    | abort txId => exact member
    | write key version => exact absurd rfl (other key version)
    | collect minActiveTxId =>
      change v ∈ (manager.garbageCollect minActiveTxId).chain id at member
      rw [MVCCManager.collect_chain] at member
      exact (List.mem_filter.mp member).1

theorem getTx_reads [PageStore σ] (kind : Kind) (txId : Nat) (id : UInt64) (store : GraphStore σ) :
    (getTx kind txId id store).2 = store ∨
      (getTx kind txId id store).2 = (GraphHistory.get kind id store).2 := by
  have unified : getTx kind txId id store =
      getVersioned kind.pick kind.missing (GraphHistory.get kind id) txId id store := by
    cases kind <;> rfl
  rw [unified]
  unfold getVersioned
  split
  · exact .inr rfl
  · split
    · split
      · exact .inl rfl
      · exact .inr rfl
    · split
      · exact .inl rfl
      · exact .inr rfl

/-- An operation has done its work on the pages; a deletion of a node has none where versions are
kept. -/
def Writes [PageStore σ] (hash : Bytes → UInt64) (store : GraphStore σ) : Operation → Prop
  | .createNode properties => (createNode properties store).1 = .ok store.nextNodeId
  | .updateNode id properties => (updateNode id properties store).1 = .ok ()
  | .deleteNode id => store.mvccManager ≠ none ∧ ∃ found, (getNode id store).1 = .ok found
  | .createEdge clock fromNode toNode label properties =>
    (createEdge hash clock fromNode toNode label properties store).1 = .ok store.nextEdgeId
  | .updateEdge id properties => (updateEdge id properties store).1 = .ok ()
  | .deleteEdge id => (deleteEdge id store).1 = .ok ()

section Carried

variable [LawfulPageStore σ]

/-- An operation in a transaction touches its own record and no other, and adds at most its version. -/
structure Carried (hash : Bytes → UInt64) (txId : Nat) (store : GraphStore σ) (operation : Operation)
    (later : GraphStore σ) : Prop where
  touches : ∃ next, Touches operation.kind (operation.key store) store next ∧
    ∃ m wal, later = {next with mvccManager := m, walManager := wal}
  adds : Adds store later fun id v =>
    id = operation.key store ∧ v = operation.version hash txId store ∧ Writes hash store operation

variable (hash : Bytes → UInt64) (txId : Nat) (store : GraphStore σ) (operation : Operation)

theorem carried_pages (next : GraphStore σ)
    (touched : Touches operation.kind (operation.key store) store next) :
    Carried hash txId store operation next :=
  ⟨⟨next,touched,next.mvccManager,next.walManager,rfl⟩,Adds.same touched.versions⟩

theorem carried_version {α : Type} (next : GraphStore σ)
    (touched : Touches operation.kind (operation.key store) store next) (result : α)
    (refused : Option String) (op : String) (done : Writes hash store operation) :
    Carried hash txId store operation
      (versioned result refused op (operation.key store) (operation.version hash txId store) next).2 := by
  refine ⟨⟨next,touched,versioned_keeps ..⟩,fun id v member => ?_⟩
  rcases versioned_adds _ _ _ _ _ next id v member with ⟨old,inside,same⟩ | ⟨here,new⟩
  · rw [mvcc,touched.versions] at inside
    exact .inl ⟨old,inside,same⟩
  · exact .inr ⟨here,new,done⟩

theorem perform_carried : Carried hash txId store operation (perform hash txId store operation).2 := by
  have touched := plain_touches hash store operation
  cases operation with
  | createNode properties =>
    obtain ⟨-,named⟩ := createNode_touches properties store
    simp only [perform,createNodeTx,plain] at touched ⊢
    cases created : createNode properties store with
    | mk result next =>
      rw [created] at touched named
      cases result with
      | error e => exact carried_pages hash txId store _ next touched
      | ok id =>
        cases named id rfl
        dsimp only
        split
        · exact carried_pages hash txId store _ next touched
        · exact carried_version hash txId store (.createNode properties) next touched store.nextNodeId
            (some "MVCC write failed") "create_node" (congrArg Prod.fst created)
  | updateNode id properties =>
    simp only [perform,perform.keyed,updateNodeTx,plain] at touched ⊢
    cases updated : updateNode id properties store with
    | mk result next =>
      rw [updated] at touched
      cases result with
      | error e => exact carried_pages hash txId store _ next touched
      | ok _ =>
        exact carried_version hash txId store (.updateNode id properties) next touched ()
          (some "MVCC write failed") "update_node" (congrArg Prod.fst updated)
  | deleteNode id =>
    obtain ⟨pages,kept,same⟩ := get_spec .node id store
    have read := touches_pages .node id store pages kept
    simp only [perform,perform.keyed,deleteNodeTx]
    cases found : getNode id store with
    | mk result next =>
      simp only [GraphHistory.get,found] at same
      subst same
      cases result with
      | error e => exact carried_pages hash txId store (.deleteNode id) _ read
      | ok record =>
        dsimp only
        split
        · rename_i enabled
          exact carried_version hash txId store (.deleteNode id) _ read ()
            (some "Failed to write tombstone version") "delete_node"
            ⟨by simpa [Option.isSome_iff_ne_none] using enabled,record,congrArg Prod.fst found⟩
        · have deleted := read.trans (deleteNode_touches id {store with pageStore := pages})
          cases done : deleteNode id {store with pageStore := pages} with
          | mk result later =>
            rw [done] at deleted
            cases result with
            | error e => exact carried_pages hash txId store (.deleteNode id) later deleted
            | ok _ => exact ⟨⟨later,deleted,later.mvccManager,_,rfl⟩,Adds.same deleted.versions⟩
  | createEdge clock fromNode toNode label properties =>
    obtain ⟨-,named⟩ := createEdge_touches hash clock fromNode toNode label properties store
    simp only [perform,createEdgeTx,plain] at touched ⊢
    cases created : createEdge hash clock fromNode toNode label properties store with
    | mk result next =>
      rw [created] at touched named
      cases result with
      | error e => exact carried_pages hash txId store _ next touched
      | ok id =>
        cases named id rfl
        exact carried_version hash txId store (.createEdge clock fromNode toNode label properties) next
          touched store.nextEdgeId none "create_edge" (congrArg Prod.fst created)
  | updateEdge id properties =>
    simp only [perform,perform.keyed,updateEdgeTx,plain] at touched ⊢
    cases updated : updateEdge id properties store with
    | mk result next =>
      rw [updated] at touched
      cases result with
      | error e => exact carried_pages hash txId store _ next touched
      | ok _ =>
        exact carried_version hash txId store (.updateEdge id properties) next touched () none "update_edge"
          (congrArg Prod.fst updated)
  | deleteEdge id =>
    simp only [perform,perform.keyed,deleteEdgeTx,plain] at touched ⊢
    cases deleted : deleteEdge id store with
    | mk result next =>
      rw [deleted] at touched
      cases result with
      | error e => exact carried_pages hash txId store _ next touched
      | ok _ =>
        exact carried_version hash txId store (.deleteEdge id) next touched () none "delete_edge"
          (congrArg Prod.fst deleted)

theorem get_adds (kind : Kind) (key : UInt64) (store : GraphStore σ) :
    Adds store (GraphHistory.get kind key store).2 fun _ _ => False := by
  obtain ⟨pages,-,same⟩ := get_spec kind key store
  exact Adds.same (by rw [same])

/-- Only operations in transactions write versions. -/
theorem step_adds (call : Call) : Adds store (GraphHistory.step hash store call) fun id v =>
    ∃ txId operation, call = .perform txId operation ∧ id = operation.key store ∧
      v = operation.version hash txId store ∧ Writes hash store operation := by
  have none {later : GraphStore σ} (adds : Adds store later fun _ _ => False) :
      Adds store later fun id v => ∃ txId operation, call = .perform txId operation ∧
        id = operation.key store ∧ v = operation.version hash txId store ∧ Writes hash store operation :=
    adds.imp fun _ _ => False.elim
  cases call with
  | begin => exact none (manage_adds .begin (by simp) store)
  | commit txId => exact none (manage_adds (.commit txId) (by simp) store)
  | abort txId => exact none (manage_adds (.abort txId) (by simp) store)
  | collect least => exact none (manage_adds (.collect least) (by simp) store)
  | perform txId operation =>
    exact (perform_carried hash txId store operation).adds.imp fun id v written => ⟨txId,operation,rfl,written⟩
  | plain operation => exact Adds.same (plain_touches hash store operation).versions
  | get kind key => exact none (get_adds kind key store)
  | getTx kind txId key =>
    rcases getTx_reads kind txId key store with same | same
    · exact Adds.same (congrArg GraphStore.mvccManager same)
    · rw [GraphHistory.step,same]
      exact none (get_adds kind key store)

end Carried

end LoreDB.Storage.GraphHistory
