import LoreDB.Query.Cypher.ExpressionEvaluator
import LoreDB.Storage.SimpleIndexManager

/-! How the query executor reads nodes. It takes an id for its reads from a transaction manager of its own,
and reads more than one node without any transaction. -/
namespace LoreDB.Query
open LoreDB.Storage LoreDB.Transaction Cypher

structure QueryExecutor where
  txnManager : TransactionManager := {}
  txId : Nat

namespace QueryExecutor
open GraphStore ExecutionContext

/-- The executor begins a transaction where the store keeps versions. -/
def constructed (store : GraphStore FilePageStore) : QueryExecutor :=
  if hasMvcc store then
    let (txn,manager) := ({} : TransactionManager).beginTransaction
    {txnManager := manager, txId := txn.id}
  else {txId := 0}

def propertyValueToString : Storage.PropertyValue → Bytes
  | .string text => text
  | .integer value => ascii (toString value.toInt)
  | .float bits => doubleText bits
  | .boolean value => ascii (if value then "true" else "false")
  | .bytes _ => ascii "[binary data]"

def nodeRow (found : NodeRecord × List Property) : List Bytes :=
  [ascii (toString found.1.id.toNat),(ascii ", ").intercalate (found.2.map fun property =>
    property.key ++ ascii ":" ++ propertyValueToString property.value)]

def nodesToResult (found : List (NodeRecord × List Property)) : QueryResult where
  columns := [ascii "id",ascii "properties"]
  rows := found.map nodeRow

def getNodeById (nodeId : NodeId) (executor : QueryExecutor) (store : GraphStore FilePageStore) :
    Except Error QueryResult :=
  (if hasMvcc store && executor.txId != 0 then getNodeTx executor.txId nodeId store
    else GraphStore.getNode nodeId store).1.map fun found => nodesToResult [found]

/-- Nodes that cannot be read are left out. -/
def batchGetNodes (nodeIds : List NodeId) (store : GraphStore FilePageStore) : QueryResult :=
  nodesToResult (nodeIds.filterMap fun nodeId => (GraphStore.getNode nodeId store).1.toOption)

def getNodesByProperty (key value : Bytes) (index : SimpleIndexManager) (store : GraphStore FilePageStore) :
    QueryResult :=
  batchGetNodes (index.findNodesByProperty key value) store

/-- There are never more rows than ids so far. No 64-bit counter passes the largest limit. -/
def getAllNodes (limit : UInt64) (store : GraphStore FilePageStore) : Outcome QueryResult :=
  if limit.toNat + 1 = 2 ^ 64 then .endless
  else .value (batchGetNodes ((List.range limit.toNat).map fun i => UInt64.ofNat (i + 1)) store)

end QueryExecutor

end LoreDB.Query
