import LoreDB.Library.Decimal
import LoreDB.Storage.HandedOver
import LoreDB.Storage.MixedLog
import LoreDB.Storage.RefusedVersions

/-! The log of a graph store. It has a line of text for every operation that went through, and among these lines a
recovery finds no operation. -/
namespace LoreDB.Storage.StoreLog
open LoreDB.Transaction LoreDB.Library LoreDB.Library.ByteStream LoreDB.Library.History GraphStore GraphHistory RefusedVersions WALManager
  WalRoundTrip WalReading HandedOver
open MixedLog (logOperation_logged)

/-! What operations append. -/

section Lines

variable {σ : Type} [PageStore σ] (hash : Bytes → UInt64)

/-- The line that a call appends. Only operations in a transaction that go through append one. -/
def line (store : GraphStore σ) : Call → Bytes
  | .perform txId operation =>
    match (perform hash txId store operation).1 with
    | some (.ok _) => operationText (name operation) (operation.key store) ++ [10]
    | _ => []
  | _ => []

def lines : GraphStore σ → List Call → Bytes
  | _, [] => []
  | store, call::rest => line hash store call ++ lines (GraphHistory.step hash store call) rest

/-- The versions and the log of a store. -/
def attached (store : GraphStore σ) : Option MVCCManager × Option WALManager := (store.mvccManager,store.walManager)

theorem storeRecord_attached (type : PageType) (serialized : Bytes) (store : GraphStore σ) :
    attached (storeRecord type serialized store).2 = attached store := by
  unfold storeRecord
  cases PageStore.allocatePage store.pageStore with
  | mk allocated pages =>
    cases allocated with
    | error e => rfl
    | ok page =>
      dsimp only
      cases PageStore.writePage page (pageImage page type serialized) pages with
      | mk wrote pages => cases wrote <;> rfl

theorem storeNodeRecord_attached (nodeId : NodeId) (node : NodeRecord) (properties : List Property)
    (store : GraphStore σ) : attached (storeNodeRecord nodeId node properties store).2 = attached store := by
  have stored := storeRecord_attached .node (RecordSerializer.serializeNode node properties) store
  unfold storeNodeRecord
  cases done : storeRecord .node (RecordSerializer.serializeNode node properties) store with
  | mk result next =>
    rw [done] at stored
    cases result <;> exact stored

theorem storeEdgeRecord_attached (edgeId : EdgeId) (edge : EdgeRecord) (properties : List Property)
    (store : GraphStore σ) : attached (storeEdgeRecord edgeId edge properties store).2 = attached store := by
  have stored := storeRecord_attached .edge (RecordSerializer.serializeEdge edge properties) store
  unfold storeEdgeRecord
  cases done : storeRecord .edge (RecordSerializer.serializeEdge edge properties) store with
  | mk result next =>
    rw [done] at stored
    cases result <;> exact stored

theorem getRecord_attached {ρ : Type} (entry : Option PageId) (type : PageType) (missing wrongType : String)
    (deserialize : Bytes → Except Error ρ) (store : GraphStore σ) :
    attached (getRecord entry type missing wrongType deserialize store).2 = attached store := by
  unfold getRecord
  cases entry with
  | none => rfl
  | some page =>
    dsimp only
    cases PageStore.readPage page store.pageStore with
    | mk read pages => cases read <;> rfl

theorem get_attached (kind : Kind) (id : UInt64) (store : GraphStore σ) :
    attached (GraphHistory.get kind id store).2 = attached store := by
  cases kind <;> exact getRecord_attached ..

omit [PageStore σ] in
theorem getVersioned_attached {ρ : Type} (pick : VersionData → Option ρ) (missing : String)
    (plain : GraphStore σ → Except Error (ρ × List Property) × GraphStore σ) (txId : Nat) (id : UInt64)
    (store : GraphStore σ) (kept : attached (plain store).2 = attached store) :
    attached (getVersioned pick missing plain txId id store).2 = attached store := by
  unfold getVersioned
  split
  · exact kept
  · split
    · split
      · rfl
      · exact kept
    · split
      · rfl
      · exact kept

theorem getTx_attached (kind : Kind) (txId : Nat) (id : UInt64) (store : GraphStore σ) :
    attached (getTx kind txId id store).2 = attached store := by
  cases kind with
  | node => exact getVersioned_attached _ _ _ txId id store (get_attached .node id store)
  | edge => exact getVersioned_attached _ _ _ txId id store (get_attached .edge id store)

theorem plain_attached (store : GraphStore σ) (operation : Operation) :
    attached (plain hash store operation) = attached store := by
  cases operation with
  | createNode properties =>
    have stored := storeNodeRecord_attached store.nextNodeId
      {id := store.nextNodeId, propertyCount := UInt32.ofNat properties.length} properties
      {store with nextNodeId := store.nextNodeId + 1}
    unfold plain createNode
    dsimp only
    split
    · rename_i e next failed
      rw [failed] at stored
      exact stored
    · rename_i next done
      rw [done] at stored
      exact stored
  | updateNode id properties =>
    have read := get_attached .node id store
    unfold plain updateNode
    dsimp only
    split
    · rename_i e next failed
      rw [GraphHistory.get,failed] at read
      exact read
    · rename_i node _ next found
      rw [GraphHistory.get,found] at read
      exact (storeNodeRecord_attached ..).trans read
  | deleteNode id =>
    unfold plain deleteNode
    dsimp only
    split
    · rfl
    · split <;> rfl
  | createEdge clock fromNode toNode label properties =>
    have stored := storeEdgeRecord_attached store.nextEdgeId {
      id := store.nextEdgeId
      fromNode := fromNode
      toNode := toNode
      labelId := (hash label).toUInt32
      propertyCount := UInt32.ofNat properties.length
      timestamp := clock} properties {store with nextEdgeId := store.nextEdgeId + 1}
    unfold plain createEdge
    dsimp only
    split
    · rename_i e next failed
      rw [failed] at stored
      exact stored
    · rename_i next done
      rw [done] at stored
      exact stored
  | updateEdge id properties =>
    have read := get_attached .edge id store
    unfold plain updateEdge
    dsimp only
    split
    · rename_i e next failed
      rw [GraphHistory.get,failed] at read
      exact read
    · rename_i edge _ next found
      rw [GraphHistory.get,found] at read
      exact (storeEdgeRecord_attached ..).trans read
  | deleteEdge id =>
    have read := get_attached .edge id store
    unfold plain deleteEdge
    dsimp only
    split
    · rename_i e next failed
      rw [GraphHistory.get,failed] at read
      exact read
    · rename_i edge _ next found
      rw [GraphHistory.get,found] at read
      exact read

theorem firstPart_attached (store : GraphStore σ) (operation : Operation) :
    attached (firstPart hash store operation).2 = attached store := by
  by_cases deletes : ∃ id, operation = .deleteNode id
  · obtain ⟨id,rfl⟩ := deletes
    exact get_attached .node id store
  · rw [firstPart_plain hash store operation fun id same => deletes ⟨id,same⟩]
    exact plain_attached hash store operation

/-- A store with versions whose log has this text. -/
def Texted (store : GraphStore σ) (text : Bytes) : Prop :=
  (attached store).1.isSome = true ∧ ∃ wal, (attached store).2 = some wal ∧ Logged wal text

omit [PageStore σ] in
theorem Texted.congr {store next : GraphStore σ} {text : Bytes} (texted : Texted store text)
    (same : attached next = attached store) : Texted next text := by
  rw [Texted,same]
  exact texted

omit [PageStore σ] in
theorem unlined {store : GraphStore σ} {text : Bytes} (texted : Texted store text) : Texted store (text ++ []) := by
  rwa [List.append_nil]

omit [PageStore σ] in
theorem logOperation_texted (op : String) (id : UInt64) {store : GraphStore σ} {text : Bytes} (texted : Texted store text) :
    Texted (store.logOperation op id) (text ++ (operationText op id ++ [10])) := by
  obtain ⟨enabled,wal,present,logged⟩ := texted
  refine ⟨enabled,(wal.logOperation (operationText op id)).2,?_,(logOperation_logged _ _ _ logged).1⟩
  exact congrArg (Option.map fun wal => (wal.logOperation (operationText op id)).2) present

omit [PageStore σ] in
theorem writeVersion_texted (key : UInt64) (version : Version) {store : GraphStore σ} {text : Bytes}
    (texted : Texted store text) : Texted (store.writeVersion key version).2 text := by
  obtain ⟨enabled,logging⟩ := texted
  unfold writeVersion
  split
  · exact ⟨enabled,logging⟩
  · split
    · exact ⟨enabled,logging⟩
    · exact ⟨rfl,logging⟩

theorem perform_texted (txId : Nat) (operation : Operation) {store : GraphStore σ} {text : Bytes}
    (texted : Texted store text) :
    Texted (perform hash txId store operation).2 (text ++ line hash store (.perform txId operation)) := by
  have parts := perform_parts hash txId store operation texted.1
  have first : Texted (firstPart hash store operation).2 text := texted.congr (firstPart_attached hash store operation)
  rw [line]
  cases start : firstPart hash store operation with
  | mk result next =>
    rw [start] at parts first
    cases result with
    | error e =>
      rw [parts,List.append_nil]
      exact first
    | ok key =>
      dsimp only at parts
      rw [parts,versioned]
      have wrote := writeVersion_texted (operation.key store) (operation.version hash txId store) first
      cases written : next.writeVersion (operation.key store) (operation.version hash txId store) with
      | mk outcome last =>
        rw [written] at wrote
        cases outcome with
        | none => simpa using wrote
        | some outcome =>
          cases outcome with
          | ok _ => exact logOperation_texted _ _ wrote
          | error e =>
            cases refusal operation with
            | some message => simpa using wrote
            | none => exact logOperation_texted _ _ wrote

theorem step_texted (call : Call) {store : GraphStore σ} {text : Bytes} (texted : Texted store text) :
    Texted (GraphHistory.step hash store call) (text ++ line hash store call) := by
  have managed (managed : MvccHistory.Call) : Texted (manage managed store) text :=
    ⟨(Option.isSome_map ..).trans texted.1,texted.2⟩
  cases call with
  | perform txId operation => exact perform_texted hash txId operation texted
  | begin => exact unlined (managed .begin)
  | commit txId => exact unlined (managed (.commit txId))
  | abort txId => exact unlined (managed (.abort txId))
  | collect minActiveTxId => exact unlined (managed (.collect minActiveTxId))
  | plain operation => exact unlined (texted.congr (plain_attached hash store operation))
  | get kind id => exact unlined (texted.congr (get_attached kind id store))
  | getTx kind txId id => exact unlined (texted.congr (getTx_attached kind txId id store))

/-- The log of a store is the lines of its operations. -/
theorem run_texted (calls : List Call) {store : GraphStore σ} {text : Bytes} (texted : Texted store text) :
    Texted (run (GraphHistory.step hash) store calls) (text ++ lines hash store calls) := by
  induction calls generalizing store text with
  | nil => simpa [lines] using texted
  | cons call rest ih =>
    rw [run_cons,lines,← List.append_assoc]
    exact ih (step_texted hash call texted)

end Lines

/-! What a recovery finds in lines. -/

/-- Bytes of lines: line feeds, and no other control characters. -/
def Text (bytes : Bytes) : Prop := ∀ b ∈ bytes, b = 10 ∨ 32 ≤ b.toNat

instance (bytes : Bytes) : Decidable (Text bytes) := inferInstanceAs (Decidable (∀ b ∈ bytes,_))

theorem text_append {first second : Bytes} (front : Text first) (back : Text second) : Text (first ++ second) := by
  intro b member
  rcases List.mem_append.mp member with inside | inside
  · exact front b inside
  · exact back b inside

theorem operationText_text (op : String) (id : UInt64) (plain : Text (Decimal.utf8 op)) : Text (operationText op id) := by
  have number : Text (Decimal.digits id.toNat) := fun b member => by
    have bounds := Decimal.digits_bounds id.toNat b member
    exact .inr (Nat.le_trans (by decide) bounds.1)
  have whole : operationText op id = Decimal.utf8 "\x7b\"op\":\"" ++ Decimal.utf8 op ++ Decimal.utf8 "\",\"id\":" ++
      Decimal.digits id.toNat ++ Decimal.utf8 "\x7d" := by
    simp only [← Decimal.utf8_append,Decimal.digits]
    rfl
  rw [whole]
  have opening : Text (Decimal.utf8 "\x7b\"op\":\"") := by decide +kernel
  have between : Text (Decimal.utf8 "\",\"id\":") := by decide +kernel
  exact text_append (text_append (text_append (text_append opening plain) between) number) (by decide +kernel)

theorem name_text (operation : Operation) : Text (Decimal.utf8 (name operation)) := by
  cases operation <;> simp only [name] <;> decide +kernel

theorem lines_text {σ : Type} [PageStore σ] (hash : Bytes → UInt64) (store : GraphStore σ) (calls : List Call) :
    Text (lines hash store calls) := by
  induction calls generalizing store with
  | nil =>
    intro b member
    cases member
  | cons call rest ih =>
    refine text_append ?_ (ih _)
    unfold line
    split
    · split
      · exact text_append (operationText_text _ _ (name_text _)) (by decide +kernel)
      · intro b member
        cases member
    · intro b member
      cases member

section Suffixes

theorem read_suffix (count : ℕ) (file : InStream) : (file.read count).2.remaining <:+ file.remaining := by
  rw [InStream.read]
  split
  · split
    · exact List.drop_suffix count file.remaining
    · exact List.nil_suffix
  · exact List.suffix_rfl

theorem readNumber_suffix (width : ℕ) (file : InStream) :
    (file.readNumber width).2.remaining <:+ file.remaining := by
  have left := read_suffix width file
  rw [InStream.readNumber]
  split
  rename_i bytes next found
  rw [found] at left
  split <;> exact left

theorem readProperties_suffix (count : ℕ) (file : InStream) :
    (readProperties count file).2.remaining <:+ file.remaining := by
  induction count generalizing file with
  | zero => exact List.suffix_rfl
  | succ count ih =>
    have key := (read_suffix (file.readNumber 4).1 (file.readNumber 4).2).trans (readNumber_suffix 4 file)
    exact (ih _).trans ((readNumber_suffix 4 _).trans key)

theorem readData_suffix (type : WALRecordType) (file : InStream) :
    (readData type file).2.remaining <:+ file.remaining := by
  have count := (readNumber_suffix 4 (file.readNumber 8).2).trans (readNumber_suffix 8 file)
  cases type with
  | createNode => exact (readProperties_suffix _ _).trans count
  | updateNode => exact (readProperties_suffix _ _).trans count
  | deleteNode => exact readNumber_suffix 8 file
  | checkpoint => exact readNumber_suffix 8 file
  | _ => exact List.suffix_rfl

theorem readRecord_suffix (file : InStream) : (readRecord file).2.remaining <:+ file.remaining := by
  have lsn := readNumber_suffix 8 file
  have txId := (readNumber_suffix 8 (file.readNumber 8).2).trans lsn
  have code := (readNumber_suffix 1 _).trans txId
  have timestamp := (readNumber_suffix 8 _).trans code
  have dataSize := (readNumber_suffix 4 _).trans timestamp
  unfold readRecord
  dsimp only
  split
  · exact dataSize
  · split
    · exact dataSize
    · rename_i type _
      have data := (readData_suffix type _).trans dataSize
      split
      · rename_i next found
        rw [found] at data
        exact data
      · rename_i value next found
        rw [found] at data
        split <;> exact data

end Suffixes

theorem Text.suffix {front whole : Bytes} (text : Text whole) (suffix : front <:+ whole) : Text front :=
  fun b member => text b (suffix.subset member)

/-- A line feed is the code of a checkpoint, and no other type has a code that stands in a text. -/
theorem frameType_text (bytes : Bytes) (text : Text bytes) (type : WALRecordType) (framed : frameType bytes = some type) :
    type = .checkpoint := by
  rw [frameType] at framed
  cases left : (bytes.drop 16).take 1 with
  | nil =>
    rw [left] at framed
    cases framed
  | cons b rest =>
    have short : rest = [] := by
      have size := congrArg List.length left
      rw [List.length_take,List.length_cons] at size
      exact List.length_eq_zero_iff.mp (by omega)
    have member : b ∈ bytes := List.mem_of_mem_drop (List.mem_of_mem_take (left ▸ List.mem_cons_self))
    rw [left,short,number,number] at framed
    rcases text b member with rfl | high
    · cases framed
      rfl
    · unfold WALRecordType.ofCode at framed
      split at framed
      all_goals first | omega | cases framed

theorem recordsFrom_text (fuel : ℕ) (file : InStream) (text : Text file.remaining) :
    ∀ record ∈ recordsFrom fuel file, record.type = .checkpoint := by
  induction fuel generalizing file with
  | zero =>
    intro record member
    cases member
  | succ fuel ih =>
    have later := ih (readRecord file).2 (text.suffix (readRecord_suffix file))
    intro record member
    rw [recordsFrom] at member
    cases good : file.good with
    | false =>
      rw [good] at member
      cases member
    | true =>
      rw [good,Bool.not_true,if_neg Bool.false_ne_true] at member
      have typed : ∀ record next, readRecord file = (.ok record,next) → record.type = .checkpoint := by
        intro record next reads
        rw [good_stream file good] at reads
        by_cases long : 29 ≤ file.remaining.length
        · obtain ⟨type,data,last,shown,found,-⟩ | ⟨e,last,found,-⟩ | ⟨⟨e,found⟩,-⟩ :=
            readRecord_cases file.remaining file.unset long
          · rw [found] at reads
            cases reads
            exact frameType_text file.remaining text type shown
          · rw [found] at reads
            cases reads
          · rw [found] at reads
            cases reads
        · obtain ⟨e,last,found,-⟩ := readRecord_short file.remaining file.unset (Nat.lt_of_not_le long)
          rw [found] at reads
          cases reads
      cases reads : readRecord file with
      | mk result next =>
        rw [reads] at member later
        cases result with
        | error e =>
          dsimp only at member
          split at member
          · cases member
          · exact later record member
        | ok first =>
          rcases List.mem_cons.mp member with rfl | inside
          · exact typed record next reads
          · exact later record inside

variable {σ : Type} [PageStore σ]

/-- The log of a new store with versions is a line for every operation that went through, in their order. Wherever a
crash cuts it, a recovery takes some of its bytes for checkpoints, and hands over nothing else. -/
theorem store_log (hash : Bytes → UInt64) (pages : σ) (clock : UInt64) (calls : List Call) :
    let store := opened pages (some (WALManager.create clock))
    ∃ wal header, (after hash store calls).walManager = some wal ∧ Genuine header ∧
      wal.logFile.content = encodeHeader header ++ lines hash store calls ∧
      ∀ cut unset (manager : WALManager), manager.logFile.isOpen = true →
        manager.logFile.disk = wal.logFile.content.take cut →
        ∃ found, (∀ record ∈ found, record.type = .checkpoint) ∧
          ∀ (α : Type) (apply : α → WALRecord → Except Error Unit × α) (state : α),
            manager.recoverFromLog unset apply state = some (concluded manager (handOver apply found state 0)) := by
  intro store
  have start : Texted store [] := ⟨rfl,WALManager.create clock,rfl,create_logged clock⟩
  obtain ⟨-,wal,present,logged⟩ := run_texted hash calls start
  obtain ⟨header,genuine,content⟩ := logged.content
  rw [List.nil_append] at content
  refine ⟨wal,header,present,genuine,content,fun cut unset manager isOpen cutting => ?_⟩
  refine ⟨records unset manager.logFile.disk,recordsFrom_text _ _ ?_,fun α apply state => ?_⟩
  · have behind : (encodeHeader header ++ lines hash store calls).drop 24 = lines hash store calls := by
      rw [← encodeHeader_length header,List.drop_left]
    rw [cutting,content,List.drop_take,behind]
    intro b member
    exact lines_text hash store calls b (List.mem_of_mem_take member)
  · rw [recovery_hands_over,if_pos isOpen]

end LoreDB.Storage.StoreLog
