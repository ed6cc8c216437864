import LoreDB.Library.Doubles
import LoreDB.Query.Cypher.OrderedRows
import Mathlib

/-! ORDER BY against WHERE on integers. The one compares their decimal texts and the other numbers, so the
rows come in the order of WHERE just where the texts of the column stand in the order of the numbers. -/
namespace LoreDB.Query.Cypher
open LoreDB.Storage LoreDB.Library OrderDual

/-- The first column that rows are sorted by, and its direction. -/
def firstColumn (columns : List Bytes) (items : List OrderByItem) : Option (Nat × OrderDirection) :=
  items.findSome? fun item =>
    (columns.idxOf? (orderColumn item.expression)).map fun index => (index,item.direction)

def integerText (value : Int64) : Bytes := propertyValueToString (.integer value)

/-- The comparison with `<` in a condition. -/
def ranksBelow (first second : Int64) : Bool :=
  ComparisonOperator.lessThan.compare (.integer first) (.integer second)

/-- No row comes before one that WHERE ranks below it, in a descending column above it. -/
def FollowsWhere (index : Nat) (direction : OrderDirection) (rows : List (List Bytes)) : Prop :=
  rows.Pairwise fun earlier later => ∀ first second, earlier[index]? = some (integerText first) →
    later[index]? = some (integerText second) →
      match direction with
      | .asc => ranksBelow second first = false
      | .desc => ranksBelow first second = false

/-- The texts of a column stand in the order of its numbers. -/
def TextsFollow (index : Nat) (rows : List (List Bytes)) : Prop :=
  ∀ row ∈ rows, ∀ other ∈ rows, ∀ first second, row[index]? = some (integerText first) →
    other[index]? = some (integerText second) → ranksBelow first second = true →
      integerText first < integerText second

theorem integerText_injective : Function.Injective integerText := by
  intro first second same
  have texts : toString first.toInt = toString second.toInt :=
    String.toByteArray_inj.mp (ByteArray.ext (Array.toList_inj.mp same))
  exact Int64.toInt_inj.mp (Int.repr_injective texts)

theorem ranksBelow_self (value : Int64) : ranksBelow value value = false := Doubles.lt_irrefl _

theorem sortKey_first {columns : List Bytes} {items : List OrderByItem} {index : Nat}
    {direction : OrderDirection} (found : firstColumn columns items = some (index,direction)) :
    ∃ rest : List Bytes → List SortValue, ∀ row,
      sortKey columns items row = sortValue direction (row.getD index []) :: rest row := by
  induction items with
  | nil => cases found
  | cons item items ih =>
    rw [firstColumn,List.findSome?_cons] at found
    cases column : columns.idxOf? (orderColumn item.expression) with
    | none =>
      rw [column] at found
      obtain ⟨rest,same⟩ := ih found
      refine ⟨rest,fun row => ?_⟩
      rw [← same row]
      simp [sortKey,column]
    | some index' =>
      rw [column] at found
      cases found
      exact ⟨sortKey columns items,fun row => by simp [sortKey,column]⟩

/-- Rows in the sorted order have their texts in the direction of the first column. -/
theorem texts_sorted {columns : List Bytes} {items : List OrderByItem} {index : Nat}
    {direction : OrderDirection} (found : firstColumn columns items = some (index,direction))
    {earlier later : List Bytes} (sorted : ¬sortKey columns items later < sortKey columns items earlier)
    {first second : Bytes} (one : earlier[index]? = some first) (other : later[index]? = some second) :
    match direction with
    | .asc => ¬second < first
    | .desc => ¬first < second := by
  obtain ⟨rest,keys⟩ := sortKey_first found
  have values (row : List Bytes) (text : Bytes) (here : row[index]? = some text) :
      row.getD index [] = text := by
    rw [List.getD_eq_getElem?_getD,here]
    rfl
  rw [keys,keys,values _ _ one,values _ _ other,List.cons_lt_cons_iff,not_or,sortValue_lt] at sorted
  cases direction <;> exact sorted.1

theorem texts_unordered {first second : Bytes} (before : ¬first < second) (after : ¬second < first) :
    first = second := by
  let _ := byteOrder
  exact le_antisymm (not_lt.mp after) (not_lt.mp before)

/-- Two rows of a sorted list stand in the one order or in the other. -/
theorem pairwise_either {r : List Bytes → List Bytes → Prop} {rows : List (List Bytes)}
    (pairwise : rows.Pairwise r) {row other : List Bytes} (one : row ∈ rows) (two : other ∈ rows)
    (apart : row ≠ other) : r row other ∨ r other row := by
  have symm : Std.Symm fun first second => r first second ∨ r second first := ⟨fun _ _ => Or.symm⟩
  have either : rows.Pairwise fun first second => r first second ∨ r second first := pairwise.imp Or.inl
  exact either.forall one two apart

theorem follows_texts {columns : List Bytes} {items : List OrderByItem} {index : Nat}
    {direction : OrderDirection} (found : firstColumn columns items = some (index,direction))
    {rows : List (List Bytes)} (sorted : rows.Pairwise fun earlier later =>
      ¬sortKey columns items later < sortKey columns items earlier)
    (follows : FollowsWhere index direction rows) : TextsFollow index rows := by
  intro row member other member' first second one two below
  by_contra before
  have apart : first ≠ second := by
    rintro rfl
    rw [ranksBelow_self] at below
    cases below
  have after : integerText second < integerText first := by
    by_contra level
    exact apart (integerText_injective (texts_unordered before level))
  have distinct : row ≠ other := by
    rintro rfl
    rw [one] at two
    exact apart (integerText_injective (Option.some.inj two))
  rcases pairwise_either (follows.and sorted) member member' distinct with ⟨ranked,ordered⟩ | ⟨ranked,ordered⟩
  · have texts := texts_sorted found ordered one two
    have ranks := ranked first second one two
    cases direction with
    | asc => exact texts after
    | desc => exact Bool.false_ne_true (ranks.symm.trans below)
  · have texts := texts_sorted found ordered two one
    have ranks := ranked second first two one
    cases direction with
    | asc => exact Bool.false_ne_true (ranks.symm.trans below)
    | desc => exact texts after

theorem texts_follow {columns : List Bytes} {items : List OrderByItem} {index : Nat}
    {direction : OrderDirection} (found : firstColumn columns items = some (index,direction))
    {rows : List (List Bytes)} (sorted : rows.Pairwise fun earlier later =>
      ¬sortKey columns items later < sortKey columns items earlier)
    (texts : TextsFollow index rows) : FollowsWhere index direction rows := by
  refine sorted.imp_of_mem fun {earlier later} member member' ordered first second one two => ?_
  have stands := texts_sorted found ordered one two
  cases direction with
  | asc =>
    by_contra below
    exact stands (texts later member' earlier member second first two one (Bool.not_eq_false _ ▸ below))
  | desc =>
    by_contra below
    exact stands (texts earlier member later member' first second one two (Bool.not_eq_false _ ▸ below))

/-- The sorted rows follow WHERE if and only if the texts of the column follow its numbers. -/
theorem order_follows_where (library : StandardLibrary) (sorts : library.Sorts) (result : QueryResult)
    (whole : QueryResult.Whole result) (order : OrderByClause) (index : Nat) (direction : OrderDirection)
    (found : firstColumn result.columns order.items = some (index,direction)) :
    FollowsWhere index direction (applyOrderBy library result order).rows ↔
      TextsFollow index result.rows := by
  obtain ⟨perm,sorted⟩ := applyOrderBy_sorted library sorts result whole order
  have same : TextsFollow index (applyOrderBy library result order).rows ↔ TextsFollow index result.rows := by
    simp only [TextsFollow,perm.mem_iff]
  exact ⟨fun follows => same.mp (follows_texts found sorted follows),
    fun texts => texts_follow found sorted (same.mpr texts)⟩

/-- Two rows with an age each. -/
def ages (first second : Int64) : QueryResult where
  columns := [ascii "n.age"]
  rows := [[integerText first],[integerText second]]

def byAge : OrderByClause where
  items := [⟨.propertyAccess (ascii "n") (ascii "age"),.asc⟩]

theorem ages_whole (first second : Int64) : QueryResult.Whole (ages first second) := by
  intro row member
  rcases List.mem_pair.mp member with rfl | rfl <;> rfl

theorem order_follows_where_ages :
    FollowsWhere 0 .asc (applyOrderBy ⟨mergeSorted,""⟩ (ages 30 4) byAge).rows ↔
      TextsFollow 0 (ages 30 4).rows :=
  order_follows_where ⟨mergeSorted,""⟩ mergeSorted_sorts (ages 30 4) (ages_whole 30 4) byAge 0 .asc
    (by decide +kernel)

/-- In ascending order ten comes before nine. -/
theorem ten_before_nine : ¬FollowsWhere 0 .asc (applyOrderBy ⟨mergeSorted,""⟩ (ages 9 10) byAge).rows := by
  obtain ⟨perm,sorted⟩ :=
    applyOrderBy_sorted ⟨mergeSorted,""⟩ mergeSorted_sorts (ages 9 10) (ages_whole 9 10) byAge
  have found : firstColumn (ages 9 10).columns byAge.items = some (0,.asc) := by decide +kernel
  intro follows
  have texts := follows_texts found sorted follows [integerText 9] (perm.mem_iff.mpr (by simp [ages]))
    [integerText 10] (perm.mem_iff.mpr (by simp [ages])) 9 10 rfl rfl (by decide +kernel)
  exact absurd texts (by decide +kernel)

end LoreDB.Query.Cypher
