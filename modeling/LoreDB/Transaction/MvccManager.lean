import LoreDB.Library.VersionChain
import LoreDB.Storage.Record
import LoreDB.Transaction.LockManager

/-! The version store: one chain of versions per key, oldest first. Node and edge
ids share the key space. -/
namespace LoreDB.Transaction
open LoreDB.Storage LoreDB.Library

inductive MVCCErrorCode where
  | ok | notFound | conflict | unknown
  deriving DecidableEq, Repr

structure MVCCError where
  code : MVCCErrorCode
  message : String
  deriving DecidableEq, Repr

inductive VersionData where
  | node (record : NodeRecord)
  | edge (record : EdgeRecord)
  deriving DecidableEq, Repr

structure Version where
  createdTxId : Nat := 0
  /-- 0 while the version is live. -/
  deletedTxId : Nat := 0
  data : VersionData := .node {}
  properties : List Property := []
  deriving DecidableEq, Repr

/-- What a reader learns from a version: all but the stamp of its deletion. -/
def Version.content (version : Version) : Version := {version with deletedTxId := 0}

structure MVCCManager where
  txnManager : TransactionManager := {}
  lockManager : LockManager := {}
  versions : UInt64 → Option (List Version) := fun _ => none

def isVersionVisible (txnManager : TransactionManager) (txId : Nat)
    (version : Version) : Bool :=
  if version.createdTxId = txId then
    version.deletedTxId == 0 || version.deletedTxId != txId
  else if !txnManager.isTransactionCommitted version.createdTxId then false
  else if txId < version.createdTxId then false
  else if version.deletedTxId ≠ 0 then
    if version.deletedTxId = txId then false
    else if txnManager.isTransactionCommitted version.deletedTxId ∧ version.deletedTxId ≤ txId then
      false
    else true
  else true

/-- A live version that is written over carries its successor's writer. -/
def stamp (txId : Nat) (latest : Version) : Version :=
  if latest.deletedTxId = 0 then {latest with deletedTxId := txId} else latest

/-- A reader sees its own versions until it overwrites them itself, and versions of
committed transactions with smaller ids until a stamp of its own or of such a
transaction takes effect. -/
theorem visible_iff (txnManager : TransactionManager) (reader : Nat) (v : Version) :
    isVersionVisible txnManager reader v = true ↔
      (v.createdTxId = reader ∧ (v.deletedTxId = 0 ∨ v.deletedTxId ≠ reader)) ∨
      (v.createdTxId < reader ∧ txnManager.isTransactionCommitted v.createdTxId = true ∧
        (v.deletedTxId = 0 ∨ v.deletedTxId ≠ reader ∧
          ¬(txnManager.isTransactionCommitted v.deletedTxId = true ∧ v.deletedTxId < reader))) := by
  unfold isVersionVisible
  rcases Nat.lt_trichotomy v.createdTxId reader with below | same | above
  · have ne := Nat.ne_of_lt below
    have notAbove := Nat.not_lt_of_lt below
    by_cases live : v.deletedTxId = 0
    · simp [below,ne,notAbove,live]
    · by_cases own : v.deletedTxId = reader
      · simp [below,ne,notAbove,own]
      · have order : v.deletedTxId ≤ reader ↔ v.deletedTxId < reader := by omega
        simp only [ne,below,notAbove,live,own,order,if_false,false_and,false_or,true_and,
          Bool.not_eq_true',ne_eq,not_false_eq_true,if_true]
        cases txnManager.isTransactionCommitted v.createdTxId <;>
          cases txnManager.isTransactionCommitted v.deletedTxId <;> simp
  · simp [same]
  · have ne := Nat.ne_of_gt above
    simp [ne,above,Nat.not_lt_of_lt above]

theorem stamp_hides (txnManager : TransactionManager) (reader writer : Nat) (v : Version)
    (seen : isVersionVisible txnManager reader (stamp writer v) = true) :
    isVersionVisible txnManager reader v = true := by
  unfold stamp at seen
  split at seen
  · rename_i live
    rw [visible_iff] at seen ⊢
    rcases seen with ⟨own,_⟩ | ⟨below,committed,_⟩
    · exact .inl ⟨own,.inl live⟩
    · exact .inr ⟨below,committed,.inl live⟩
  · exact seen

namespace MVCCManager

/-- The versions stored under a key, oldest first; none for an absent key. -/
def chain (manager : MVCCManager) (key : UInt64) : List Version := (manager.versions key).getD []

def readVersion (key : UInt64) (txId : Nat) (manager : MVCCManager) :
    Except MVCCError Version :=
  match manager.versions key with
  | none => .error ⟨.notFound,"Key not found"⟩
  | some vec =>
    match VersionChain.newest (isVersionVisible manager.txnManager txId) vec with
    | some ver => .ok ver
    | none => .error ⟨.notFound,"No visible version for tx"⟩

/-- The result of a read up to the stamp on the version and the text of the error. -/
def observed (key : UInt64) (txId : Nat) (manager : MVCCManager) :
    Except MVCCErrorCode Version :=
  ((manager.readVersion key txId).mapError MVCCError.code).map Version.content

/-- `none` when the call has to wait for another transaction's lock on the key. -/
def writeVersion (key : UInt64) (version : Version) (manager : MVCCManager) :
    Option (Except MVCCError Unit × MVCCManager) :=
  match manager.lockManager.lock version.createdTxId key .exclusive with
  | (.waiting,_) => none
  | (.refused,locks) =>
    some (.error ⟨.conflict,"Deadlock detected"⟩,{manager with lockManager := locks})
  | (.granted,locks) =>
    let vec := ((manager.versions key).getD []).modifyLast (stamp version.createdTxId)
    some (.ok (),{manager with
      versions := Function.update manager.versions key (some (vec ++ [version]))
      lockManager := locks.unlock version.createdTxId key})

/-- What a collection up to `minActiveTxId` keeps. -/
def survives (minActiveTxId : Nat) (version : Version) : Bool :=
  !(version.deletedTxId != 0 && decide (version.deletedTxId < minActiveTxId))

def garbageCollect (minActiveTxId : Nat) (manager : MVCCManager) : MVCCManager :=
  {manager with versions := fun key =>
    match manager.versions key with
    | none => none
    | some vec =>
      let vec := vec.filter (survives minActiveTxId)
      if vec.isEmpty then none else some vec}

/-- Error texts aside, a read returns the newest visible version of the chain. -/
theorem read_chain (key : UInt64) (txId : Nat) (manager : MVCCManager) :
    (manager.readVersion key txId).mapError MVCCError.code =
      match VersionChain.newest (isVersionVisible manager.txnManager txId) (manager.chain key) with
      | some v => .ok v
      | none => .error .notFound := by
  unfold readVersion chain
  cases manager.versions key with
  | none => rfl
  | some vec =>
    simp only [Option.getD_some]
    cases VersionChain.newest (isVersionVisible manager.txnManager txId) vec <;> rfl

/-- Error texts aside, two reads agree exactly when they find the same version. -/
theorem read_agree (key : UInt64) (txId : Nat) (first second : MVCCManager) :
    (first.readVersion key txId).mapError MVCCError.code =
        (second.readVersion key txId).mapError MVCCError.code ↔
      VersionChain.newest (isVersionVisible first.txnManager txId) (first.chain key) =
        VersionChain.newest (isVersionVisible second.txnManager txId) (second.chain key) := by
  rw [read_chain,read_chain]
  generalize VersionChain.newest _ (first.chain key) = found
  generalize VersionChain.newest _ (second.chain key) = other
  cases found <;> cases other <;> simp

theorem observed_chain (key : UInt64) (txId : Nat) (manager : MVCCManager) :
    manager.observed key txId =
      match (VersionChain.newest (isVersionVisible manager.txnManager txId)
        (manager.chain key)).map Version.content with
      | some v => .ok v
      | none => .error .notFound := by
  rw [observed,read_chain]
  cases VersionChain.newest _ (manager.chain key) <;> rfl

theorem observed_found (key : UInt64) (txId : Nat) (manager : MVCCManager) (v : Version)
    (found : VersionChain.newest (isVersionVisible manager.txnManager txId) (manager.chain key) =
      some v) : manager.observed key txId = .ok v.content := by
  rw [observed_chain,found]
  rfl

theorem observed_agree (key : UInt64) (txId : Nat) (first second : MVCCManager) :
    first.observed key txId = second.observed key txId ↔
      (VersionChain.newest (isVersionVisible first.txnManager txId)
          (first.chain key)).map Version.content =
        (VersionChain.newest (isVersionVisible second.txnManager txId)
          (second.chain key)).map Version.content := by
  rw [observed_chain,observed_chain]
  generalize Option.map _ (VersionChain.newest _ (first.chain key)) = found
  generalize Option.map _ (VersionChain.newest _ (second.chain key)) = other
  cases found <;> cases other <;> simp

theorem read_found (key : UInt64) (txId : Nat) (manager : MVCCManager) (v : Version) :
    manager.readVersion key txId = .ok v ↔
      VersionChain.newest (isVersionVisible manager.txnManager txId) (manager.chain key) =
        some v := by
  unfold readVersion chain
  cases manager.versions key with
  | none => simp
  | some vec =>
    simp only [Option.getD_some]
    cases VersionChain.newest (isVersionVisible manager.txnManager txId) vec <;> simp

/-- A write whose key nobody holds appends its version over the stamped latest one
and leaves the key unlocked. -/
theorem write_returns (key : UInt64) (version : Version) (manager : MVCCManager)
    (free : ∀ key, manager.lockManager.lockTable key = []) :
    ∃ locks : LockManager, (∀ key, locks.lockTable key = []) ∧
      manager.writeVersion key version = some (.ok (),{manager with
        versions := Function.update manager.versions key
          (some ((manager.chain key).modifyLast (stamp version.createdTxId) ++ [version]))
        lockManager := locks}) := by
  have granted := LockManager.lock_granted version.createdTxId key .exclusive manager.lockManager
    (by simp [free])
  refine ⟨_,?_,by simp only [writeVersion,granted]; rfl⟩
  intro other
  simp only [LockManager.unlock,Function.update_apply]
  split
  · simp [free]
  · exact free other

theorem collect_chain (minActiveTxId : Nat) (manager : MVCCManager) (key : UInt64) :
    (manager.garbageCollect minActiveTxId).chain key =
      (manager.chain key).filter (survives minActiveTxId) := by
  unfold garbageCollect chain
  dsimp only
  cases manager.versions key with
  | none => rfl
  | some vec =>
    dsimp only [Option.getD_some]
    split
    · rename_i empty
      exact (List.isEmpty_iff.mp empty).symm
    · rfl

end MVCCManager

end LoreDB.Transaction
