import LoreDB.Query.Cypher.PatternMatching
import Mathlib.Data.List.Nodup

/-! Scans for nodes. A scan sees the nodes whose ids do not pass the number that the store has
counted, and it ends unless that number is the largest one. -/
namespace LoreDB.Query.Cypher
open LoreDB.Storage

def scannedIds (node : Node) (view : View) : List NodeId :=
  ((List.range view.nodeCount.toNat).map fun i => UInt64.ofNat (i + 1)).filter fun nodeId =>
    matchesNodePattern node nodeId view

variable {view : View}

theorem scan_ends (node : Node) (passes : view.nodeCount.toNat + 1 ≠ 2 ^ 64) :
    findNodesByPattern node view = .value (scannedIds node view) := by
  rw [findNodesByPattern,if_neg passes,scannedIds]

theorem scan_endless (node : Node) (largest : view.nodeCount.toNat + 1 = 2 ^ 64) :
    findNodesByPattern node view = .endless := by
  rw [findNodesByPattern,if_pos largest]

theorem scan_value (node : Node) (ids : List NodeId) :
    findNodesByPattern node view = .value ids ↔
      view.nodeCount.toNat + 1 ≠ 2 ^ 64 ∧ scannedIds node view = ids := by
  by_cases largest : view.nodeCount.toNat + 1 = 2 ^ 64
  · rw [scan_endless node largest]
    exact iff_of_false (by simp) fun ends => ends.1 largest
  · rw [scan_ends node largest,Outcome.value.injEq]
    exact (and_iff_right largest).symm

theorem counted_toNat (i : ℕ) (below : i < view.nodeCount.toNat) :
    (UInt64.ofNat (i + 1)).toNat = i + 1 := by
  have bound := view.nodeCount.toNat_lt
  rw [UInt64.toNat_ofNat',Nat.mod_eq_of_lt (by omega)]

theorem mem_scannedIds (node : Node) (nodeId : NodeId) : nodeId ∈ scannedIds node view ↔
    (1 ≤ nodeId.toNat ∧ nodeId.toNat ≤ view.nodeCount.toNat) ∧
      matchesNodePattern node nodeId view = true := by
  rw [scannedIds,List.mem_filter,List.mem_map]
  refine and_congr_left fun _ => ⟨?_,?_⟩
  · rintro ⟨i,below,rfl⟩
    rw [List.mem_range] at below
    rw [counted_toNat i below]
    omega
  · rintro ⟨positive,counted⟩
    refine ⟨nodeId.toNat - 1,List.mem_range.mpr (by omega),?_⟩
    rw [Nat.sub_add_cancel positive,UInt64.ofNat_toNat]

theorem nodup_scannedIds (node : Node) : (scannedIds node view).Nodup := by
  refine List.Nodup.filter _ (List.Nodup.map_on (fun i below j below' same => ?_) List.nodup_range)
  rw [List.mem_range] at below below'
  have both := congrArg UInt64.toNat same
  rw [counted_toNat i below,counted_toNat j below'] at both
  omega

end LoreDB.Query.Cypher
