import LoreDB.Query.Cypher.Clauses
import Mathlib.Data.List.Lex
import Mathlib.Data.Sum.Order
import Mathlib.Order.RelClasses

/-! What ORDER BY sorts by. The values that a row has in the columns of the items are compared as a list,
those of descending items in the opposite order, so the comparison of the rows is a strict weak order. -/
namespace LoreDB.Query.Cypher
open LoreDB.Storage OrderDual

abbrev SortValue := Bytes ⊕ₗ Bytesᵒᵈ

def sortValue (direction : OrderDirection) (text : Bytes) : SortValue :=
  match direction with
  | .asc => toLex (.inl text)
  | .desc => toLex (.inr (toDual text))

/-- The values in the columns that are found, in the order of the items. -/
def sortKey (columns : List Bytes) (items : List OrderByItem) (row : List Bytes) : List SortValue :=
  items.filterMap fun item => (columns.idxOf? (orderColumn item.expression)).map fun index =>
    sortValue item.direction (row.getD index [])

/-- What `std::sort` promises for comparisons that are strict weak orders on the rows. -/
def StandardLibrary.Sorts (library : StandardLibrary) : Prop :=
  ∀ (less : List Bytes → List Bytes → Bool) (rows : List (List Bytes)),
    IsStrictWeakOrder {row // row ∈ rows} (fun first second => less first.1 second.1 = true) →
      (library.sort less rows).Perm rows ∧
        (library.sort less rows).Pairwise fun earlier later => less later earlier = false

abbrev byteOrder : LinearOrder UInt8 where
  le_refl := UInt8.le_refl
  le_trans _ _ _ := UInt8.le_trans
  le_antisymm _ _ := UInt8.le_antisymm
  le_total := UInt8.le_total
  lt_iff_le_not_ge first second := by
    rw [UInt8.not_le]
    exact ⟨fun below => ⟨UInt8.le_of_lt below,below⟩,And.right⟩
  toDecidableLE := inferInstance
  toDecidableEq := inferInstance
  toDecidableLT := inferInstance

theorem keys_strictWeak : IsStrictWeakOrder (List SortValue) (· < ·) := by
  let _ := byteOrder
  exact @isStrictWeakOrder_of_isOrderConnected (List SortValue) (@LT.lt _ Preorder.toLT) _ _

theorem sortValue_lt (direction : OrderDirection) (left right : Bytes) :
    sortValue direction left < sortValue direction right ↔
      match direction with
      | .asc => left < right
      | .desc => right < left := by
  cases direction <;> simp [sortValue]

theorem sortValue_inj (direction : OrderDirection) (left right : Bytes) :
    sortValue direction left = sortValue direction right ↔ left = right := by
  cases direction <;> simp [sortValue]

theorem precedes_sortKey (columns : List Bytes) (items : List OrderByItem) (first second : List Bytes)
    (one : first.length = columns.length) (other : second.length = columns.length) :
    precedes columns items first second = true ↔
      sortKey columns items first < sortKey columns items second := by
  induction items with
  | nil => simp [precedes,sortKey]
  | cons item items ih =>
    rw [precedes]
    cases column : columns.idxOf? (orderColumn item.expression) with
    | none => simpa [sortKey,column] using ih
    | some index =>
      have inside : index < columns.length := (List.idxOf?_eq_some_iff.mp column).1
      have left : first[index]? = some (first.getD index []) := by
        rw [List.getD_eq_getElem _ _ (one ▸ inside),List.getElem?_eq_getElem (one ▸ inside)]
      have right : second[index]? = some (second.getD index []) := by
        rw [List.getD_eq_getElem _ _ (other ▸ inside),List.getElem?_eq_getElem (other ▸ inside)]
      have keys (row : List Bytes) : sortKey columns (item :: items) row =
          sortValue item.direction (row.getD index []) :: sortKey columns items row := by
        simp [sortKey,column]
      rw [keys,keys,List.cons_lt_cons_iff,sortValue_lt,sortValue_inj,← ih]
      simp only [left,right]
      generalize first.getD index [] = text
      generalize second.getD index [] = text'
      by_cases same : text = text'
      · subst same
        cases item.direction <;> simp
      · cases item.direction <;> simp [same]

theorem mapM_forall₂ {α β : Type} (f : α → Except Error β) (items : List α) (values : List β)
    (mapped : items.mapM f = .ok values) : List.Forall₂ (fun value item => f item = .ok value) values items := by
  induction items generalizing values with
  | nil =>
    cases mapped
    exact .nil
  | cons item rest ih =>
    rw [List.mapM_cons] at mapped
    cases value : f item with
    | error e =>
      rw [value] at mapped
      cases mapped
    | ok found =>
      cases others : rest.mapM f with
      | error e =>
        rw [value,others] at mapped
        cases mapped
      | ok found' =>
        rw [value,others] at mapped
        cases mapped
        exact .cons value (ih found' others)

/-- Every row is as long as the list of columns. -/
def QueryResult.Whole (result : QueryResult) : Prop := ∀ row ∈ result.rows, row.length = result.columns.length

theorem return_whole (clause : ReturnClause) (rows : ResultSet) (view : View) (result : QueryResult)
    (returned : executeReturn clause rows view = .ok result) : QueryResult.Whole result := by
  unfold executeReturn at returned
  cases mapped : rows.mapM fun row => clause.items.mapM fun item =>
      (evaluateExpression row.bindings view item.expression).map propertyValueToString with
  | error e =>
    rw [mapped] at returned
    cases returned
  | ok texts =>
    rw [mapped] at returned
    cases returned
    intro row member
    obtain ⟨index,inside,rfl⟩ := List.getElem_of_mem member
    have texts := (mapM_forall₂ _ rows texts mapped).get inside ((mapM_forall₂ _ rows texts mapped).length_eq ▸ inside)
    exact (mapM_forall₂ _ clause.items _ texts).length_eq.trans (List.length_mapIdx).symm

theorem precedes_strictWeak (result : QueryResult) (items : List OrderByItem) (whole : QueryResult.Whole result) :
    IsStrictWeakOrder {row // row ∈ result.rows}
      (fun first second => precedes result.columns items first.1 second.1 = true) := by
  have same : (fun first second : {row // row ∈ result.rows} =>
        precedes result.columns items first.1 second.1 = true) =
      Order.Preimage (fun row : {row // row ∈ result.rows} => sortKey result.columns items row.1) (· < ·) := by
    funext first second
    exact propext (precedes_sortKey result.columns items first.1 second.1 (whole _ first.2) (whole _ second.2))
  rw [same]
  have keys := keys_strictWeak
  exact Order.Preimage.instIsStrictWeakOrder

theorem applyOrderBy_sorted (library : StandardLibrary) (sorts : library.Sorts) (result : QueryResult)
    (whole : QueryResult.Whole result) (order : OrderByClause) :
    (applyOrderBy library result order).rows.Perm result.rows ∧
      (applyOrderBy library result order).rows.Pairwise fun earlier later =>
        ¬sortKey result.columns order.items later < sortKey result.columns order.items earlier := by
  unfold applyOrderBy
  split
  · rename_i none
    have empty : order.items = [] := by simpa using none
    refine ⟨List.Perm.refl _,?_⟩
    rw [empty]
    exact List.pairwise_of_forall fun _ _ => List.not_lt_nil _
  · obtain ⟨perm,sorted⟩ := sorts (precedes result.columns order.items) result.rows
      (precedes_strictWeak result order.items whole)
    refine ⟨perm,sorted.imp_of_mem fun {earlier later} one two after => ?_⟩
    rw [← precedes_sortKey _ _ _ _ (whole _ (perm.mem_iff.mp two)) (whole _ (perm.mem_iff.mp one)),after]
    exact Bool.false_ne_true

theorem applyOrderBy_columns (library : StandardLibrary) (result : QueryResult) (order : OrderByClause) :
    (applyOrderBy library result order).columns = result.columns := by
  unfold applyOrderBy
  split <;> rfl

/-- ORDER BY sorts what RETURN gives, by the values in the columns that are found. -/
theorem order_by_sorts (library : StandardLibrary) (sorts : library.Sorts) (clause : ReturnClause)
    (rows : ResultSet) (view : View) (result : QueryResult)
    (returned : executeReturn clause rows view = .ok result) (order : OrderByClause) :
    IsStrictWeakOrder {row // row ∈ result.rows}
        (fun first second => precedes result.columns order.items first.1 second.1 = true) ∧
      (applyOrderBy library result order).columns = result.columns ∧
      (applyOrderBy library result order).rows.Perm result.rows ∧
      (applyOrderBy library result order).rows.Pairwise fun earlier later =>
        ¬sortKey result.columns order.items later < sortKey result.columns order.items earlier :=
  have whole := return_whole clause rows view result returned
  ⟨precedes_strictWeak result order.items whole,applyOrderBy_columns library result order,
    applyOrderBy_sorted library sorts result whole order⟩

/-- A sort that keeps what `std::sort` promises. -/
def mergeSorted (less : List Bytes → List Bytes → Bool) (rows : List (List Bytes)) : List (List Bytes) :=
  (rows.attach.mergeSort fun first second => !less second.1 first.1).map Subtype.val

theorem mergeSorted_sorts : StandardLibrary.Sorts ⟨mergeSorted,""⟩ := by
  intro less rows weak
  have asymm (first second : {row // row ∈ rows}) (before : less first.1 second.1 = true) :
      less second.1 first.1 = false := by
    by_contra after
    rw [Bool.not_eq_false] at after
    exact weak.irrefl first (weak.trans first second first before after)
  have perm : (mergeSorted less rows).Perm rows := by
    have perm := (List.mergeSort_perm rows.attach fun first second => !less second.1 first.1).map Subtype.val
    rwa [List.attach_map_subtype_val] at perm
  refine ⟨perm,List.pairwise_map.mpr ?_⟩
  have sorted := @List.pairwise_mergeSort {row // row ∈ rows}
    (fun first second => !less second.1 first.1) ?_ ?_ rows.attach
  · exact sorted.imp fun after => by simpa using after
  · intro first second third one other
    simp only [Bool.not_eq_true'] at one other ⊢
    by_contra before
    rw [Bool.not_eq_false] at before
    cases up : less first.1 second.1 with
    | true =>
      have ends := weak.trans third first second before up
      rw [other] at ends
      cases ends
    | false =>
      cases down : less second.1 third.1 with
      | true =>
        have ends := weak.trans second third first down before
        rw [one] at ends
        cases ends
      | false =>
        have level := weak.incomp_trans first second third ⟨by simp [up],by simp [one]⟩
          ⟨by simp [down],by simp [other]⟩
        exact level.2 before
  · intro first second
    cases before : less second.1 first.1 with
    | false => rfl
    | true => simp [asymm second first before]

def byName : ReturnClause where
  items := [{expression := .identifier (ascii "n")}]

/-- Two rows with a name each. -/
def named : ResultSet :=
  [ResultRow.bind (ascii "n") (.literal (.string (ascii "b"))) {},
    ResultRow.bind (ascii "n") (.literal (.string (ascii "a"))) {}]

def nothing : View where
  node _ := none
  edge _ := none
  outgoingEdges _ := []
  incomingEdges _ := []
  nodeCount := 0

def namesReturned : QueryResult where
  columns := [ascii "n"]
  rows := [[ascii "b"],[ascii "a"]]

theorem order_by_sorts_names :
    IsStrictWeakOrder {row // row ∈ namesReturned.rows}
        (fun first second => precedes namesReturned.columns [⟨.identifier (ascii "n"),.asc⟩] first.1 second.1 = true) ∧
      (applyOrderBy ⟨mergeSorted,""⟩ namesReturned ⟨[⟨.identifier (ascii "n"),.asc⟩]⟩).columns =
        namesReturned.columns ∧
      (applyOrderBy ⟨mergeSorted,""⟩ namesReturned ⟨[⟨.identifier (ascii "n"),.asc⟩]⟩).rows.Perm
        namesReturned.rows ∧
      (applyOrderBy ⟨mergeSorted,""⟩ namesReturned ⟨[⟨.identifier (ascii "n"),.asc⟩]⟩).rows.Pairwise
        fun earlier later => ¬sortKey namesReturned.columns [⟨.identifier (ascii "n"),.asc⟩] later <
          sortKey namesReturned.columns [⟨.identifier (ascii "n"),.asc⟩] earlier :=
  order_by_sorts ⟨mergeSorted,""⟩ mergeSorted_sorts byName named nothing namesReturned (by decide +kernel)
    ⟨[⟨.identifier (ascii "n"),.asc⟩]⟩

end LoreDB.Query.Cypher
