import Mathlib.Data.List.Chain
import Mathlib.Data.List.Induction
import Mathlib.Data.List.ModifyLast

/-! Chains of entries, oldest first, that are read from the newest end: a reader
takes the last entry it sees. -/
namespace LoreDB.Library.VersionChain

variable {α β : Type}

def newest (seen : α → Bool) (chain : List α) : Option α := chain.reverse.find? seen

/-- Every entry a reader sees and a collector drops has a newer entry that the
reader sees and the collector keeps. -/
def Shadowed (seen keep : α → Bool) (chain : List α) : Prop :=
  ∀ older v newer, chain = older ++ v::newer → seen v = true → keep v = false →
    ∃ w ∈ newer, seen w = true ∧ keep w = true

/-- The entries that a search from the newest end looks at. -/
def examined (seen : α → Bool) (chain : List α) : List α :=
  chain.reverse.takeWhile (fun v => !seen v) ++ (newest seen chain).toList

@[simp] theorem newest_nil (seen : α → Bool) : newest seen [] = none := rfl

theorem newest_append (seen : α → Bool) (older newer : List α) :
    newest seen (older ++ newer) = (newest seen newer).or (newest seen older) := by
  simp [newest,List.reverse_append,List.find?_append]

theorem newest_concat (seen : α → Bool) (chain : List α) (v : α) :
    newest seen (chain ++ [v]) = if seen v then some v else newest seen chain := by
  cases h : seen v <;> simp [newest,h]

theorem newest_none (seen : α → Bool) (chain : List α) :
    newest seen chain = none ↔ ∀ v ∈ chain, seen v = false := by
  simp [newest]

theorem newest_mem (seen : α → Bool) (chain : List α) (v : α)
    (found : newest seen chain = some v) : v ∈ chain ∧ seen v = true := by
  have member := List.mem_of_find?_eq_some found
  exact ⟨by simpa using member,List.find?_some found⟩

theorem newest_some (seen : α → Bool) (chain : List α) (v : α) :
    newest seen chain = some v ↔ seen v = true ∧
      ∃ older newer, chain = older ++ v::newer ∧ ∀ w ∈ newer, seen w = false := by
  constructor
  · intro found
    obtain ⟨sees,before,after,split,unseen⟩ := List.find?_eq_some_iff_append.mp found
    refine ⟨sees,after.reverse,before.reverse,?_,?_⟩
    · rw [← List.reverse_reverse chain,split]
      simp
    · intro w member
      simpa using unseen w (by simpa using member)
  · rintro ⟨sees,older,newer,rfl,unseen⟩
    rw [List.append_cons,newest_append,(newest_none seen newer).mpr unseen,newest_concat,sees]
    rfl

theorem newest_map (f : α → β) (seen : β → Bool) (chain : List α) :
    newest seen (chain.map f) = (newest (seen ∘ f) chain).map f := by
  simp [newest,← List.map_reverse,List.find?_map]

theorem newest_congr (first second : α → Bool) (chain : List α)
    (same : ∀ v ∈ chain, first v = second v) : newest first chain = newest second chain := by
  induction chain using List.reverseRecOn with
  | nil => rfl
  | append_singleton chain v ih =>
    rw [newest_concat,newest_concat,same v (by simp),ih (fun w member => same w (by simp [member]))]

theorem examined_concat (seen : α → Bool) (chain : List α) (v : α) :
    examined seen (chain ++ [v]) = v::(if seen v then [] else examined seen chain) := by
  cases h : seen v <;> simp [examined,newest_concat,h]

theorem examined_seen (seen : α → Bool) (chain : List α) (v : α)
    (member : v ∈ examined seen chain) (sees : seen v = true) : newest seen chain = some v := by
  rcases List.mem_append.mp member with passed | found
  · simpa [sees] using List.all_eq_true.mp List.all_takeWhile v passed
  · simpa using found

/-- Only the entries a search looks at decide what it finds. -/
theorem newest_examined (first second : α → Bool) (chain : List α)
    (same : ∀ v ∈ examined first chain, first v = second v) :
    newest first chain = newest second chain := by
  induction chain using List.reverseRecOn with
  | nil => rfl
  | append_singleton chain v ih =>
    rw [examined_concat] at same
    rw [newest_concat,newest_concat,← same v (by simp)]
    cases sees : first v with
    | true => rfl
    | false =>
      simp only [sees] at same
      exact ih (fun w member => same w (by simp [member]))

/-- An entry on a search's way that comes into sight changes what the search finds. -/
theorem newest_appears (first second : α → Bool) (chain : List α) (v : α)
    (member : v ∈ examined first chain) (hidden : first v = false) (appears : second v = true) :
    ∃ w, newest second chain = some w ∧ w ∈ chain ∧ first w = false := by
  induction chain using List.reverseRecOn with
  | nil => simp [examined] at member
  | append_singleton chain w ih =>
    rw [examined_concat] at member
    rw [newest_concat]
    cases sees : first w with
    | true =>
      simp only [sees,if_true,List.mem_singleton] at member
      subst member
      rw [hidden] at sees
      contradiction
    | false =>
      cases seen : second w with
      | true => exact ⟨w,rfl,by simp,sees⟩
      | false =>
        simp only [sees] at member
        rcases List.mem_cons.mp member with rfl | inside
        · rw [appears] at seen
          contradiction
        · obtain ⟨x,found,present,unseen⟩ := ih inside
          exact ⟨x,found,by simp [present],unseen⟩

/-- Rewriting the last entry in a way that neither its reader nor `g` can tell
changes nothing. -/
theorem newest_modifyLast (g : α → β) (f : α → α) (seen : α → Bool) (chain : List α)
    (same : ∀ v ∈ chain.getLast?, seen (f v) = seen v) (content : ∀ v, g (f v) = g v) :
    (newest seen (chain.modifyLast f)).map g = (newest seen chain).map g := by
  cases chain using List.reverseRecOn with
  | nil => rfl
  | append_singleton front last =>
    rw [List.modifyLast_concat,newest_concat,newest_concat,same last (by simp)]
    split
    · simp [content]
    · rfl

theorem newest_filter (seen keep : α → Bool) (chain : List α)
    (hidden : ∀ v ∈ chain, keep v = false → seen v = false) :
    newest seen (chain.filter keep) = newest seen chain := by
  induction chain using List.reverseRecOn with
  | nil => rfl
  | append_singleton chain v ih =>
    have rest := ih (fun w member => hidden w (by simp [member]))
    rw [List.filter_append,newest_append,newest_concat,rest]
    cases kept : keep v with
    | true => cases sees : seen v <;> simp [newest,kept,sees]
    | false => simp [newest,kept,hidden v (by simp) kept]

/-- Dropping entries changes nothing exactly when every dropped entry is shadowed. -/
theorem newest_filter_iff (seen keep : α → Bool) (chain : List α) :
    newest seen (chain.filter keep) = newest seen chain ↔ Shadowed seen keep chain := by
  constructor
  · intro same older v newer split sees dropped
    cases found : newest seen newer with
    | none =>
      have reads : newest seen chain = some v :=
        (newest_some seen chain v).mpr ⟨sees,older,newer,split,(newest_none seen newer).mp found⟩
      have member := (newest_mem seen _ v (same.trans reads)).1
      simp [dropped] at member
    | some w =>
      have reads : newest seen chain = some w := by
        rw [split,List.append_cons,newest_append,found]
        rfl
      have member := (newest_mem seen _ w (same.trans reads)).1
      have inside := newest_mem seen newer w found
      exact ⟨w,inside.1,inside.2,(List.mem_filter.mp member).2⟩
  · intro shadowed
    cases found : newest seen chain with
    | none =>
      have unseen := (newest_none seen chain).mp found
      exact (newest_none seen _).mpr (fun v member => unseen v (List.mem_filter.mp member).1)
    | some v =>
      obtain ⟨sees,older,newer,split,unseen⟩ := (newest_some seen chain v).mp found
      cases kept : keep v with
      | true =>
        refine (newest_some seen _ v).mpr ⟨sees,older.filter keep,newer.filter keep,?_,?_⟩
        · simp [split,kept]
        · exact fun w member => unseen w (List.mem_filter.mp member).1
      | false =>
        obtain ⟨w,inside,seesNewer,_⟩ := shadowed older v newer split sees kept
        simp [unseen w inside] at seesNewer

/-! Chains in which each entry names the maker of the next one. -/

section Linked

variable {τ : Type} (maker : α → τ) (ender : α → Option τ)

/-- What an entry was overwritten by is the maker of its successor, and the newest one is not
overwritten. -/
structure Linked (chain : List α) : Prop where
  successors : chain.IsChain fun v next => ender v = some (maker next)
  live : ∀ v ∈ chain.getLast?, ender v = none

variable {maker ender}

/-- A reader who sees the entries of the makers he accepts, unless one of these overwrote them, and no other
entries, sees some entry as soon as there is one by such a maker. -/
theorem newest_open (seen : α → Bool) (accepted : τ → Bool) (chain : List α)
    (shown : ∀ v ∈ chain, accepted (maker v) = true → (∀ t ∈ ender v, accepted t = false) → seen v = true)
    (hidden : ∀ v ∈ chain, accepted (maker v) = false → seen v = false)
    (successors : chain.IsChain fun v next => ender v = some (maker next))
    (live : ∀ v ∈ chain.getLast?, ∀ t ∈ ender v, accepted t = false)
    (some : ∃ v ∈ chain, accepted (maker v) = true) : ∃ v ∈ chain, newest seen chain = .some v := by
  induction chain using List.reverseRecOn with
  | nil =>
    obtain ⟨_,member,-⟩ := some
    cases member
  | append_singleton chain last ih =>
    rw [newest_concat]
    cases accepts : accepted (maker last) with
    | true =>
      have sight : seen last = true := shown last (by simp) accepts (live last (by simp))
      exact ⟨last,by simp,by rw [sight,if_pos rfl]⟩
    | false =>
      have unseen : seen last = false := hidden last (by simp) accepts
      obtain ⟨earlier,-,handed⟩ := List.isChain_append.mp successors
      obtain ⟨v,member,accepts'⟩ := some
      have inside : v ∈ chain := by
        rcases List.mem_append.mp member with inside | same
        · exact inside
        · rw [List.mem_singleton.mp same,accepts] at accepts'
          cases accepts'
      obtain ⟨found,member,reads⟩ := ih (fun v member => shown v (by simp [member]))
        (fun v member => hidden v (by simp [member])) earlier
        (fun v final t written => by
          rw [handed v final last (by simp)] at written
          obtain rfl := Option.some.inj written
          exact accepts) ⟨v,inside,accepts'⟩
      exact ⟨found,by simp [member],by rw [unseen]; exact reads⟩

theorem Linked.newest (seen : α → Bool) (accepted : τ → Bool) (chain : List α)
    (linked : Linked maker ender chain)
    (shown : ∀ v ∈ chain, accepted (maker v) = true → (∀ t ∈ ender v, accepted t = false) → seen v = true)
    (hidden : ∀ v ∈ chain, accepted (maker v) = false → seen v = false)
    (some : ∃ v ∈ chain, accepted (maker v) = true) : ∃ v ∈ chain, newest seen chain = .some v :=
  newest_open seen accepted chain shown hidden linked.successors
    (fun v final t written => by rw [linked.live v final] at written; cases written) some

/-- A new entry whose maker overwrites the one before it. -/
theorem Linked.write (write : α → α) (chain : List α) (v : α) (linked : Linked maker ender chain)
    (same : ∀ old, maker (write old) = maker old)
    (written : ∀ old, ender old = none → ender (write old) = some (maker v))
    (live : ender v = none) : Linked maker ender (chain.modifyLast write ++ [v]) := by
  refine ⟨?_,?_⟩
  · cases chain using List.reverseRecOn with
    | nil => exact List.isChain_singleton v
    | append_singleton front last =>
      obtain ⟨earlier,-,handed⟩ := List.isChain_append.mp linked.successors
      rw [List.modifyLast_concat,List.isChain_append,List.isChain_append]
      refine ⟨⟨earlier,List.isChain_singleton _,?_⟩,List.isChain_singleton v,?_⟩
      · rintro w final next first
        obtain rfl := Option.some.inj first
        rw [same]
        exact handed w final last rfl
      · rintro w final next first
        obtain rfl := Option.some.inj first
        rw [List.getLast?_append,List.getLast?_singleton] at final
        obtain rfl := Option.some.inj final
        exact written last (linked.live last (by simp))
  · rintro w final
    rw [List.getLast?_append,List.getLast?_singleton] at final
    obtain rfl := Option.some.inj final
    exact live

end Linked

end LoreDB.Library.VersionChain
