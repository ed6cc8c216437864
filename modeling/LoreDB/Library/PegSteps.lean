import LoreDB.Library.Peg

/-! Matches of parsing expressions that leave trees of one kind, composed of those of their parts. A look at the
first element decides of many expressions whether they fail or pass over nothing. -/
namespace LoreDB.Library.Peg

variable {R α : Type} {body : R → Peg R α}

/-! Matches that leave good trees. -/

section Accepts

variable {good : Tree R α → Prop} {e f : Peg R α} {input middle rest : List α}

def Accepts (body : R → Peg R α) (good : Tree R α → Prop) (e : Peg R α) (input rest : List α) : Prop :=
  ∃ trees, Gives body e input (.matched trees rest) ∧ ∀ tree ∈ trees, good tree

theorem accepts_one {accepts : α → Bool} {a : α} (accepted : accepts a = true) :
    Accepts body good (.one accepts) (a::rest) rest := ⟨[],gives_one accepted,fun _ => (nomatch ·)⟩

theorem accepts_empty : Accepts body good .empty input input := ⟨[],⟨1,rfl⟩,fun _ => (nomatch ·)⟩

theorem accepts_eof : Accepts body good .eof [] [] := ⟨[],⟨1,rfl⟩,fun _ => (nomatch ·)⟩

theorem accepts_seq (first : Accepts body good e input middle) (second : Accepts body good f middle rest) :
    Accepts body good (.seq e f) input rest := by
  obtain ⟨trees,gives,allGood⟩ := first
  obtain ⟨trees',gives',allGood'⟩ := second
  refine ⟨trees ++ trees',gives_seq gives gives',fun tree among => ?_⟩
  rcases List.mem_append.mp among with before | after
  · exact allGood tree before
  · exact allGood' tree after

theorem accepts_left (accepts : Accepts body good e input rest) : Accepts body good (.sor e f) input rest := by
  obtain ⟨trees,gives,allGood⟩ := accepts
  exact ⟨trees,sor_matches gives,allGood⟩

theorem accepts_right (fails : Fails body e input) (accepts : Accepts body good f input rest) :
    Accepts body good (.sor e f) input rest := by
  obtain ⟨trees,gives,allGood⟩ := accepts
  exact ⟨trees,sor_gives fails gives,allGood⟩

theorem accepts_absent (fails : Fails body e input) : Accepts body good (opt e) input input :=
  accepts_right fails accepts_empty

theorem accepts_done (fails : Fails body e input) : Accepts body good (.star e) input input :=
  ⟨[],star_done fails,fun _ => (nomatch ·)⟩

theorem accepts_more (first : Accepts body good e input middle) (others : Accepts body good (.star e) middle rest) :
    Accepts body good (.star e) input rest := by
  obtain ⟨trees,gives,allGood⟩ := first
  obtain ⟨trees',gives',allGood'⟩ := others
  refine ⟨trees ++ trees',star_gives gives gives',fun tree among => ?_⟩
  rcases List.mem_append.mp among with before | after
  · exact allGood tree before
  · exact allGood' tree after

theorem accepts_rule {name : R}
    (node : ∀ text trees, (∀ tree ∈ trees, good tree) → good (.node name text trees))
    (inner : Accepts body good (body name) input rest) : Accepts body good (.rule name) input rest := by
  obtain ⟨trees,gives,allGood⟩ := inner
  refine ⟨_,rule_gives gives,fun tree among => ?_⟩
  obtain rfl := List.mem_singleton.mp among
  exact node _ trees allGood

theorem accepts_labelled {label : R}
    (node : ∀ text trees, (∀ tree ∈ trees, good tree) → good (.node label text trees))
    (inner : Accepts body good e input rest) : Accepts body good (.labelled label e) input rest := by
  obtain ⟨trees,gives,allGood⟩ := inner
  refine ⟨_,labelled_gives gives,fun tree among => ?_⟩
  obtain rfl := List.mem_singleton.mp among
  exact node _ trees allGood

theorem fails_after (first : Accepts body good e input middle) (fails : Fails body f middle) :
    Fails body (.seq e f) input := by
  obtain ⟨trees,gives,-⟩ := first
  exact gives_seq gives fails

end Accepts

/-! What the first element, or the end of the input, decides. -/

/-- An expression that fails looks false, and one that passes over nothing looks true. -/
def look (rules : R → Option Bool) (head : Option α) : Peg R α → Option Bool
  | .one accepts => if head.any accepts then none else some false
  | .empty => some true
  | .eof => some head.isNone
  | .seq e f => (e.look rules head).bind fun passes => if passes then f.look rules head else some false
  | .sor e f => (e.look rules head).bind fun passes => if passes then some true else f.look rules head
  | .star e => (e.look rules head).bind fun passes => if passes then none else some true
  | .notAt e => (e.look rules head).map (!·)
  | .must e => (e.look rules head).bind fun passes => if passes then some true else none
  | .rule name => rules name
  | .labelled _ e => e.look rules head

def lookAt (body : R → Peg R α) (head : Option α) : ℕ → Peg R α → Option Bool
  | 0 => look (fun _ => none) head
  | depth + 1 => look (fun name => lookAt body head depth (body name)) head

section Looks

variable {e : Peg R α} {input : List α}

def Shows (body : R → Peg R α) (input : List α) (e : Peg R α) : Bool → Prop
  | false => Fails body e input
  | true => ∃ trees, Gives body e input (.matched trees input)

theorem look_shows (rules : R → Option Bool)
    (known : ∀ name passes, rules name = some passes → Shows body input (.rule name) passes) (passes : Bool)
    (looks : e.look rules input.head? = some passes) : Shows body input e passes := by
  induction e generalizing passes with
  | one accepts =>
    unfold look at looks
    split at looks
    · cases looks
    · rename_i refused
      obtain rfl := Option.some.inj looks
      cases input with
      | nil => exact ⟨1,rfl⟩
      | cons a rest =>
        have refused : ¬accepts a = true := refused
        exact ⟨1,by rw [run_one_cons,if_neg refused]⟩
  | empty =>
    obtain rfl := Option.some.inj looks
    exact ⟨[],1,rfl⟩
  | eof =>
    obtain rfl := Option.some.inj looks
    cases input with
    | nil => exact ⟨[],1,rfl⟩
    | cons a rest => exact ⟨1,rfl⟩
  | seq e f left right =>
    obtain ⟨first,shown,looks⟩ := Option.bind_eq_some_iff.mp looks
    cases first with
    | false =>
      obtain rfl := Option.some.inj looks
      exact seq_fails (left false shown)
    | true =>
      obtain ⟨trees,gives⟩ := left true shown
      have second := right passes looks
      cases passes with
      | false => exact gives_seq gives second
      | true =>
        obtain ⟨trees',gives'⟩ := second
        exact ⟨_,gives_seq gives gives'⟩
  | sor e f left right =>
    obtain ⟨first,shown,looks⟩ := Option.bind_eq_some_iff.mp looks
    cases first with
    | true =>
      obtain rfl := Option.some.inj looks
      obtain ⟨trees,gives⟩ := left true shown
      exact ⟨trees,sor_matches gives⟩
    | false =>
      have second := right passes looks
      cases passes with
      | false => exact sor_gives (left false shown) second
      | true =>
        obtain ⟨trees,gives⟩ := second
        exact ⟨trees,sor_gives (left false shown) gives⟩
  | star e ih =>
    obtain ⟨first,shown,looks⟩ := Option.bind_eq_some_iff.mp looks
    cases first with
    | true => cases looks
    | false =>
      obtain rfl := Option.some.inj looks
      exact ⟨[],star_done (ih false shown)⟩
  | notAt e ih =>
    obtain ⟨first,shown,rfl⟩ := Option.map_eq_some_iff.mp looks
    cases first with
    | false => exact ⟨[],notAt_passes (ih false shown)⟩
    | true =>
      obtain ⟨trees,gives⟩ := ih true shown
      exact notAt_fails gives
  | must e ih =>
    obtain ⟨first,shown,looks⟩ := Option.bind_eq_some_iff.mp looks
    cases first with
    | false => cases looks
    | true =>
      obtain rfl := Option.some.inj looks
      obtain ⟨trees,gives⟩ := ih true shown
      exact ⟨trees,must_matches gives⟩
  | rule name => exact known name passes looks
  | labelled label e ih =>
    have inner := ih passes looks
    cases passes with
    | false => exact labelled_gives inner
    | true =>
      obtain ⟨trees,gives⟩ := inner
      exact ⟨_,labelled_gives gives⟩

theorem lookAt_shows (depth : ℕ) (passes : Bool) (looks : lookAt body input.head? depth e = some passes) :
    Shows body input e passes := by
  induction depth generalizing e passes with
  | zero => exact look_shows (fun _ => none) (fun _ _ unknown => nomatch unknown) passes looks
  | succ depth ih =>
    refine look_shows _ (fun name passes shown => ?_) passes looks
    have inner := ih passes shown
    cases passes with
    | false => exact rule_gives inner
    | true =>
      obtain ⟨trees,gives⟩ := inner
      exact ⟨_,rule_gives gives⟩

theorem fails_at (depth : ℕ) (head : Option α) (starts : input.head? = head)
    (looks : lookAt body head depth e = some false) : Fails body e input :=
  lookAt_shows depth false (starts ▸ looks)

end Looks

end LoreDB.Library.Peg
