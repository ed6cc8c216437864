import LoreDB.Storage.Record
import Mathlib.Logic.Function.Basic

/-! The index of nodes by the text of a property. An entry is added whether it is there already or not. -/
namespace LoreDB.Storage

structure SimpleIndexManager where
  nodePropertyIndex : Bytes × Bytes → List NodeId := fun _ => []

namespace SimpleIndexManager

def indexNodeProperty (nodeId : NodeId) (key value : Bytes) (index : SimpleIndexManager) :
    SimpleIndexManager where
  nodePropertyIndex :=
    Function.update index.nodePropertyIndex (key,value) (index.nodePropertyIndex (key,value) ++ [nodeId])

def findNodesByProperty (key value : Bytes) (index : SimpleIndexManager) : List NodeId :=
  index.nodePropertyIndex (key,value)

end SimpleIndexManager

end LoreDB.Storage
