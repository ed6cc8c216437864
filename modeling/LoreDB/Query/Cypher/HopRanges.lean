import LoreDB.Query.Cypher.ParsedExpressions

/-! Ranges of hops as texts. The five forms of a range, and what the parser reads where one of them and
what follows it stand before a closing bracket. -/
namespace LoreDB.Query.Cypher
open LoreDB.Storage LoreDB.Library Grammar Peg

namespace Written

inductive HopRange where
  | absent | star | exactly (count : ℤ) | between (low high : ℤ) | atLeast (low : ℤ) | atMost (high : ℤ)
  deriving DecidableEq

namespace HopRange

def hops : HopRange → ℤ × ℤ
  | .absent => (1,1)
  | .star => (1,-1)
  | .exactly count => (count,count)
  | .between low high => (low,high)
  | .atLeast low => (low,-1)
  | .atMost high => (1,high)

def numbers : HopRange → List ℤ
  | .absent | .star => []
  | .exactly number | .atLeast number | .atMost number => [number]
  | .between low high => [low,high]

/-- Every number fits an int. -/
def Fits (range : HopRange) : Prop :=
  ∀ number ∈ range.numbers, Int32.minValue.toInt ≤ number ∧ number ≤ Int32.maxValue.toInt

instance (range : HopRange) : Decidable range.Fits :=
  inferInstanceAs (Decidable (∀ number ∈ range.numbers, _))

end HopRange

def rangeOf (range : CypherTree) : HopRange :=
  match ((range.inside (is .minHops)).head?.map fun low => integer low.text),
    ((range.inside (is .maxHops)).head?.map fun high => integer high.text) with
  | none, none => .star
  | some low, none => if byte '.' ∈ range.text then .atLeast low else .exactly low
  | some low, some high => .between low high
  | none, some high => .atMost high

end Written

/-! What a range is read as. -/

/-- One hop, written as one number or as two. -/
def ReadsOne (text : Bytes) : Prop :=
  match splitDots text with
  | none => Conversions.leadingInteger text = some 1
  | some (low,high) =>
    (low = [] ∨ Conversions.leadingInteger low = some 1) ∧ Conversions.leadingInteger high = some 1

/-- No second bound, or one that is read as the number. -/
def ReadsAgain (count : ℤ) (text : Bytes) : Prop :=
  match splitDots text with
  | none => True
  | some (_,high) => if high = [] then count = -1 else Conversions.leadingInteger high = some count

/-- After a range that does not end in a number nothing may come before the closing bracket, and after a
single number nothing that is read as another bound. -/
def Followed : Written.HopRange → Bytes → Prop
  | .star, following | .atLeast _, following => following = []
  | .exactly count, following => ReadsAgain count following
  | .absent, _ | .between _ _, _ | .atMost _, _ => True

section Texts

variable (conversions : Conversions)

/-- A result is a number. -/
def Is (result : Except String Int32) (number : ℤ) : Prop :=
  ∃ found, result = .ok found ∧ found.toInt = number

/-- A result is a range of hops. -/
def AreHops (result : Except String (Int32 × Int32)) (hops : ℤ × ℤ) : Prop :=
  ∃ found, result = .ok found ∧ found.1.toInt = hops.1 ∧ found.2.toInt = hops.2

theorem ofInt_fits (number : ℤ)
    (fits : Int32.minValue.toInt ≤ number ∧ number ≤ Int32.maxValue.toInt) :
    (Int32.ofInt number).toInt = number := by
  have most : Int32.maxValue.toInt < 2 ^ 31 := by decide
  exact Int32.toInt_ofInt_of_le fits.1 (by omega)

theorem stoi_is (text : Bytes) (number : ℤ)
    (fits : Int32.minValue.toInt ≤ number ∧ number ≤ Int32.maxValue.toInt) :
    Is (conversions.stoi text) number ↔ Conversions.leadingInteger text = some number := by
  rw [Is,Conversions.stoi]
  cases read : Conversions.leadingInteger text with
  | none => simp
  | some value =>
    dsimp only
    rw [Option.some.injEq]
    constructor
    · rintro ⟨hops,parsed,rfl⟩
      split at parsed
      · rename_i bounds
        obtain rfl := Except.ok.inj parsed
        exact (ofInt_fits value bounds).symm
      · cases parsed
    · rintro rfl
      rw [if_pos fits]
      exact ⟨_,rfl,ofInt_fits value fits⟩

theorem pair_hops (low high : Except String Int32) (hops : ℤ × ℤ) :
    AreHops (low.bind fun low => high.map fun high => (low,high)) hops ↔ Is low hops.1 ∧ Is high hops.2 := by
  cases low <;> cases high <;> simp [AreHops,Is,Except.bind,Except.map]

/-! Two dots. -/

theorem splitDots_some (text low high : Bytes) (split : splitDots text = some (low,high)) :
    text = low ++ byte '.' :: byte '.' :: high := by
  induction text generalizing low with
  | nil => cases split
  | cons b rest ih =>
    rw [splitDots] at split
    split at split
    · rename_i dots
      obtain ⟨rfl,second⟩ := dots
      obtain ⟨later,rfl⟩ := List.head?_eq_some_iff.mp second
      cases split
      rfl
    · obtain ⟨parts,further,same⟩ := Option.map_eq_some_iff.mp split
      obtain ⟨low',high'⟩ := parts
      cases same
      rw [ih low' further,List.cons_append]

theorem splitDots_append (before after : Bytes) (none : byte '.' ∉ before) :
    splitDots (before ++ after) = (splitDots after).map fun parts => (before ++ parts.1,parts.2) := by
  induction before with
  | nil => simp
  | cons b before ih =>
    rw [List.mem_cons,not_or] at none
    rw [List.cons_append,splitDots,if_neg fun dots => none.1 dots.1.symm,ih none.2,Option.map_map]
    rfl

theorem splitDots_dots (after : Bytes) : splitDots (byte '.' :: byte '.' :: after) = some ([],after) := rfl

/-! The range as the parser reads it. -/

def BothFit (hops : ℤ × ℤ) : Prop :=
  (Int32.minValue.toInt ≤ hops.1 ∧ hops.1 ≤ Int32.maxValue.toInt) ∧
    Int32.minValue.toInt ≤ hops.2 ∧ hops.2 ≤ Int32.maxValue.toInt

theorem whole_hops (text : Bytes) (hops : ℤ × ℤ) (fits : BothFit hops) (nonempty : text ≠ [])
    (whole : splitDots text = none) : AreHops (hopRange conversions text) hops ↔
      Conversions.leadingInteger text = some hops.1 ∧ hops.1 = hops.2 := by
  rw [hopRange,if_neg (by simpa using nonempty),whole,← stoi_is conversions text hops.1 fits.1]
  cases conversions.stoi text with
  | error what => simp [AreHops,Is,Except.map]
  | ok found =>
    simp only [AreHops,Is,Except.map,Except.ok.injEq,exists_eq_left']
    exact and_congr_right fun same => by rw [same]

theorem split_hops (text low high : Bytes) (hops : ℤ × ℤ) (fits : BothFit hops)
    (split : splitDots text = some (low,high)) : AreHops (hopRange conversions text) hops ↔
      (if low = [] then hops.1 = 1 else Conversions.leadingInteger low = some hops.1) ∧
      (if high = [] then hops.2 = -1 else Conversions.leadingInteger high = some hops.2) := by
  have nonempty : text ≠ [] := by
    rintro rfl
    cases split
  rw [hopRange,if_neg (by simpa using nonempty),split]
  dsimp only
  rw [pair_hops,← stoi_is conversions low hops.1 fits.1,← stoi_is conversions high hops.2 fits.2]
  refine and_congr ?_ ?_
  · cases low with
    | nil => simp [Is,eq_comm]
    | cons => simp
  · cases high with
    | nil =>
      simp [Is,eq_comm]
    | cons => simp

/-! What can follow a range: blanks, and then nothing or the properties. -/

def Closing (text : Bytes) : Prop :=
  ∃ blanks rest, text = blanks ++ rest ∧ (blanks.all isSpace) = true ∧
    (rest = [] ∨ rest.head? = some (byte '{'))

theorem closing_before (before after : Bytes) (closing : Closing (before ++ after)) : Closing before := by
  obtain ⟨blanks,rest,same,spaces,opens⟩ := closing
  rcases List.append_eq_append_iff.mp same with ⟨more,rfl,-⟩ | ⟨more,rfl,rfl⟩
  · rw [List.all_append,Bool.and_eq_true] at spaces
    exact ⟨before,[],(List.append_nil _).symm,spaces.1,.inl rfl⟩
  · refine ⟨blanks,more,rfl,spaces,?_⟩
    cases more with
    | nil => exact .inl rfl
    | cons b more => exact .inr (opens.resolve_left (by simp))

theorem closing_unread (text : Bytes) (closing : Closing text) :
    Conversions.leadingInteger text = none := by
  obtain ⟨blanks,rest,rfl,spaces,opens⟩ := closing
  have skipped : (blanks ++ rest).dropWhile isSpace = rest.dropWhile isSpace := by
    rw [List.dropWhile_append_of_pos (List.all_eq_true.mp spaces)]
  rw [Conversions.leadingInteger,skipped]
  rcases opens with rfl | opens
  · rfl
  · obtain ⟨more,rfl⟩ := List.head?_eq_some_iff.mp opens
    rfl

/-- No digit and no dot comes first. -/
theorem closing_first (text : Bytes) (b : UInt8) (closing : Closing text) (first : text.head? = some b) :
    isDigit b = false ∧ b ≠ byte '.' := by
  obtain ⟨blanks,rest,rfl,spaces,opens⟩ := closing
  cases blanks with
  | nil =>
    rcases opens with rfl | opens
    · cases first
    · obtain rfl := Option.some.inj (opens.symm.trans first)
      decide
  | cons c blanks =>
    obtain rfl : c = b := by simpa using first
    rw [List.all_cons,Bool.and_eq_true] at spaces
    refine ⟨?_,?_⟩
    · cases digit : isDigit c with
      | false => rfl
      | true => exact absurd spaces.1 (by simp [(digit_facts c digit).1])
    · rintro rfl
      exact absurd spaces.1 (by decide)

/-- A number ends where no further digit comes. -/
theorem number_followed {text : Bytes} {trees : List CypherTree} (after : Bytes)
    (derived : Derives body integerBody text trees) (ends : ∀ b, after.head? = some b → isDigit b = false) :
    Conversions.leadingInteger (text ++ after) = some (Written.integer text) := by
  have whole := integer_written derived
  obtain ⟨-,d,rest,here,digits,same⟩ := integer_text derived
  obtain ⟨space,minus,sign,-⟩ := digit_facts d here
  have taken : (rest ++ after).takeWhile isDigit = rest := by
    rw [List.takeWhile_append_of_pos (List.all_eq_true.mp digits)]
    cases after with
    | nil => exact List.append_nil _
    | cons b after => rw [List.takeWhile_cons_of_neg (by simp [ends b rfl]),List.append_nil]
  have alone : rest.takeWhile isDigit = rest :=
    List.takeWhile_eq_self_iff.mpr (List.all_eq_true.mp digits)
  have blank : isSpace (byte '-') = false := by decide
  rw [← whole]
  rcases same with rfl | rfl
  · simp [Conversions.leadingInteger,space,minus,sign,here,taken,alone]
  · simp [Conversions.leadingInteger,blank,here,taken,alone]

/-! The five ranges. -/

theorem one_fits : Int32.minValue.toInt ≤ 1 ∧ (1 : ℤ) ≤ Int32.maxValue.toInt := by decide

theorem none_fits : Int32.minValue.toInt ≤ -1 ∧ (-1 : ℤ) ≤ Int32.maxValue.toInt := by decide

variable {following : Bytes}

theorem star_hops (closing : Closing following) :
    AreHops (hopRange conversions following) (1,-1) ↔ following = [] := by
  constructor
  · intro read
    by_contra nonempty
    have unread := closing_unread following closing
    cases split : splitDots following with
    | none =>
      have whole := (whole_hops conversions following (1,-1) ⟨one_fits,none_fits⟩ nonempty split).mp read
      exact absurd (unread.symm.trans whole.1) (by simp)
    | some parts =>
      obtain ⟨low,high⟩ := parts
      have same := splitDots_some following low high split
      have bounds := ((split_hops conversions following low high _ ⟨one_fits,none_fits⟩ split).mp read).1
      by_cases first : low = []
      · subst first
        exact (closing_first following _ closing (by rw [same]; rfl)).2 rfl
      · rw [if_neg first,closing_unread low (closing_before low _ (same ▸ closing))] at bounds
        cases bounds
  · rintro rfl
    exact ⟨(1,-1),rfl,by decide,by decide⟩

variable {low high : Bytes} {lowTrees highTrees : List CypherTree}

theorem integer_nonempty {text : Bytes} {trees : List CypherTree}
    (derived : Derives body integerBody text trees) : text ≠ [] := by
  obtain ⟨-,d,rest,-,-,same⟩ := integer_text derived
  rcases same with rfl | rfl <;> simp

theorem exactly_hops (lows : Derives body integerBody low lowTrees) (closing : Closing following)
    (fits : BothFit (Written.integer low,Written.integer low)) :
    AreHops (hopRange conversions (low ++ following)) (Written.integer low,Written.integer low) ↔
      ReadsAgain (Written.integer low) following := by
  have nonempty (after : Bytes) : low ++ after ≠ [] := by simp [integer_nonempty lows]
  have digitless (b : UInt8) (first : following.head? = some b) : isDigit b = false :=
    (closing_first following b closing first).1
  have split := splitDots_append low following (integer_dots lows)
  unfold ReadsAgain
  cases dots : splitDots following with
  | none =>
    rw [dots] at split
    rw [whole_hops conversions _ _ fits (nonempty following) split]
    simp [number_followed following lows digitless]
  | some parts =>
    obtain ⟨before,after⟩ := parts
    rw [dots] at split
    have closes := closing_before before _ (splitDots_some following before after dots ▸ closing)
    rw [split_hops conversions _ _ _ _ fits split,if_neg (nonempty before),
      number_followed before lows fun b first => (closing_first before b closes first).1]
    simp

theorem split_at (low after : Bytes) (dotless : byte '.' ∉ low) :
    splitDots (low ++ byte '.' :: byte '.' :: after) = some (low,after) := by
  rw [splitDots_append low _ dotless,splitDots_dots,Option.map_some,List.append_nil]

theorem between_hops (lows : Derives body integerBody low lowTrees)
    (highs : Derives body integerBody high highTrees) (closing : Closing following)
    (fits : BothFit (Written.integer low,Written.integer high)) :
    AreHops (hopRange conversions (low ++ byte '.' :: byte '.' :: (high ++ following)))
      (Written.integer low,Written.integer high) := by
  have first := integer_written lows
  have second := number_followed following highs fun b first => (closing_first following b closing first).1
  rw [split_hops conversions _ low (high ++ following) _ fits (split_at low _ (integer_dots lows)),
    if_neg (integer_nonempty lows),if_neg (by simp [integer_nonempty highs]),first,second]
  exact ⟨rfl,rfl⟩

theorem atLeast_hops (lows : Derives body integerBody low lowTrees) (closing : Closing following)
    (fits : BothFit (Written.integer low,-1)) :
    AreHops (hopRange conversions (low ++ byte '.' :: byte '.' :: following)) (Written.integer low,-1) ↔
      following = [] := by
  rw [split_hops conversions _ low following _ fits (split_at low _ (integer_dots lows)),
    if_neg (integer_nonempty lows),integer_written lows,closing_unread following closing]
  simp

theorem atMost_hops (highs : Derives body integerBody high highTrees) (closing : Closing following)
    (fits : BothFit (1,Written.integer high)) :
    AreHops (hopRange conversions (byte '.' :: byte '.' :: (high ++ following)))
      (1,Written.integer high) := by
  have read := number_followed following highs fun b first => (closing_first following b closing first).1
  rw [split_hops conversions _ [] (high ++ following) _ fits (splitDots_dots _),if_pos rfl,
    if_neg (by simp [integer_nonempty highs]),read]
  exact ⟨rfl,rfl⟩

theorem integer_plain {text : Bytes} {trees : List CypherTree} (b : UInt8)
    (derived : Derives body integerBody text trees) (among : b ∈ text) :
    isDigit b = true ∨ b = byte '-' := by
  obtain ⟨-,d,rest,here,digits,same⟩ := integer_text derived
  have plain (among : b ∈ d :: rest) : isDigit b = true := by
    rcases List.mem_cons.mp among with rfl | later
    · exact here
    · exact List.all_eq_true.mp digits b later
  rcases same with rfl | rfl
  · exact .inl (plain among)
  · exact (List.mem_cons.mp among).elim .inr fun later => .inl (plain later)

theorem integer_open {text : Bytes} {trees : List CypherTree}
    (derived : Derives body integerBody text trees) : byte ']' ∉ text := by
  intro among
  rcases integer_plain _ derived among with digit | same
  · exact absurd digit (by decide)
  · exact absurd same (by decide)

theorem dots_then {es : List Expr} {text : Bytes} {trees : List CypherTree}
    (derived : Derives body (all (string ['.','.'] :: es)) text trees) :
    ∃ after, text = byte '.' :: byte '.' :: after ∧ Derives body (all es) after trees := by
  obtain ⟨before,after,first,second,rfl,rfl,dots,later⟩ := (derives_all_cons _ _).mp derived
  obtain rfl := string_bare _ dots
  obtain rfl := string_text _ dots
  exact ⟨after,rfl,later⟩

/-- The five forms of a range. -/
theorem range_forms {text : Bytes} {trees : List CypherTree}
    (derived : Derives body (body .variableLengthRange) text trees) :
    (text = [byte '*'] ∧ Written.rangeOf (.node .variableLengthRange text trees) = .star) ∨
    (∃ low lowTrees, Derives body integerBody low lowTrees ∧ text = byte '*' :: low ∧
      Written.rangeOf (.node .variableLengthRange text trees) = .exactly (Written.integer low)) ∨
    (∃ low lowTrees high highTrees, Derives body integerBody low lowTrees ∧
      Derives body integerBody high highTrees ∧
      text = byte '*' :: (low ++ byte '.' :: byte '.' :: high) ∧
      Written.rangeOf (.node .variableLengthRange text trees) =
        .between (Written.integer low) (Written.integer high)) ∨
    (∃ low lowTrees, Derives body integerBody low lowTrees ∧
      text = byte '*' :: (low ++ [byte '.',byte '.']) ∧
      Written.rangeOf (.node .variableLengthRange text trees) = .atLeast (Written.integer low)) ∨
    (∃ high highTrees, Derives body integerBody high highTrees ∧
      text = byte '*' :: byte '.' :: byte '.' :: high ∧
      Written.rangeOf (.node .variableLengthRange text trees) = .atMost (Written.integer high)) := by
  simp only [body,Grammar.one,Grammar.optional,derives_all_one,derives_all_labelled,derives_all_nil,
    beq_iff_eq] at derived
  obtain ⟨_,_,rfl,rfl,spec,_,specTrees,_,rfl,rfl,maybe,rfl,rfl⟩ := derived
  rw [List.append_nil]
  rcases (derives_opt _).mp maybe with one | ⟨rfl,rfl⟩
  · obtain ⟨inner,rfl,within⟩ := (derives_rule _).mp one
    simp only [body,first,group,derives_sor,derives_labelled,derives_rule,derives_all_rule] at within
    have noMin {text : Bytes} {trees : List CypherTree} (number : Derives body integerBody text trees) :
        Tree.insideAll (is .minHops) trees = [] ∧ Tree.insideAll (is .maxHops) trees = [] := by
      obtain ⟨rfl,-⟩ := integer_text number
      exact ⟨rfl,rfl⟩
    rcases within with ⟨parts,rfl,low,_,lowTrees,_,rfl,rfl,lows,later⟩ |
      ⟨parts,rfl,low,_,lowTrees,_,rfl,rfl,lows,later⟩ | ⟨parts,rfl,later⟩ | ⟨parts,rfl,lows⟩
    · obtain ⟨_,rfl,bound⟩ := dots_then later
      simp only [derives_all_rule,derives_all_nil] at bound
      obtain ⟨high,_,highTrees,_,rfl,rfl,highs,rfl,rfl⟩ := bound
      refine .inr (.inr (.inl ⟨low,lowTrees,high,highTrees,lows,highs,by simp,?_⟩))
      simp (disch := decide) [Written.rangeOf,Tree.inside_below,Tree.inside_here,noMin lows]
    · obtain ⟨_,rfl,done⟩ := dots_then later
      obtain ⟨rfl,rfl⟩ := derives_all_nil.mp done
      refine .inr (.inr (.inr (.inl ⟨low,lowTrees,lows,by simp,?_⟩)))
      simp (disch := decide) [Written.rangeOf,Tree.inside_below,Tree.inside_here,noMin lows]
    · obtain ⟨_,rfl,bound⟩ := dots_then later
      simp only [derives_all_rule,derives_all_nil] at bound
      obtain ⟨high,_,highTrees,_,rfl,rfl,highs,rfl,rfl⟩ := bound
      refine .inr (.inr (.inr (.inr ⟨high,highTrees,highs,by simp,?_⟩)))
      simp (disch := decide) [Written.rangeOf,Tree.inside_below,Tree.inside_here,noMin highs]
    · refine .inr (.inl ⟨spec,parts,lows,rfl,?_⟩)
      have dotless : byte '.' ∉ byte '*' :: spec := by
        rw [List.mem_cons,not_or]
        exact ⟨by decide,integer_dots lows⟩
      simp (disch := decide) only [Written.rangeOf,Tree.inside_below,Tree.inside_here,Tree.insideAll_cons,
        Tree.insideAll_nil,noMin lows,List.append_nil,List.head?_cons,List.head?_nil,Option.map_some,
        Option.map_none,Tree.text_node]
      exact if_neg dotless
  · left
    refine ⟨rfl,?_⟩
    simp (disch := decide) [Written.rangeOf,Tree.inside_below]

/-- A range is read as it is written where what follows lets it. -/
theorem range_read {text : Bytes} {trees : List CypherTree}
    (derived : Derives body (body .variableLengthRange) text trees) (closing : Closing following)
    (fits : (Written.rangeOf (.node .variableLengthRange text trees)).Fits) :
    (∃ spec, text = byte '*' :: spec ∧ byte ']' ∉ spec) ∧
      (AreHops (hopRange conversions (text.tail ++ following))
          (Written.rangeOf (.node .variableLengthRange text trees)).hops ↔
        Followed (Written.rangeOf (.node .variableLengthRange text trees)) following) := by
  have dots (high : Bytes) (open_high : byte ']' ∉ high) : byte ']' ∉ byte '.' :: byte '.' :: high := by
    simpa [show byte ']' ≠ byte '.' by decide] using open_high
  rcases range_forms derived with ⟨rfl,written⟩ | ⟨low,_,lows,rfl,written⟩ |
    ⟨low,_,high,_,lows,highs,rfl,written⟩ | ⟨low,_,lows,rfl,written⟩ | ⟨high,_,highs,rfl,written⟩
  all_goals rw [written] at fits ⊢
  · exact ⟨⟨[],rfl,by simp⟩,star_hops conversions closing⟩
  · have number := fits _ (List.mem_singleton_self _)
    exact ⟨⟨low,rfl,integer_open lows⟩,exactly_hops conversions lows closing ⟨number,number⟩⟩
  · refine ⟨⟨_,rfl,?_⟩,?_⟩
    · rw [List.mem_append,not_or]
      exact ⟨integer_open lows,dots high (integer_open highs)⟩
    · have read := between_hops conversions lows highs closing
        ⟨fits _ (List.mem_cons_self),fits _ (List.mem_cons_of_mem _ (List.mem_singleton_self _))⟩
      rw [List.tail_cons,List.append_assoc]
      exact iff_of_true read trivial
  · refine ⟨⟨_,rfl,?_⟩,?_⟩
    · rw [List.mem_append,not_or]
      exact ⟨integer_open lows,dots [] (by simp)⟩
    · rw [List.tail_cons,List.append_assoc]
      exact atLeast_hops conversions lows closing ⟨fits _ (List.mem_singleton_self _),none_fits⟩
  · refine ⟨⟨_,rfl,dots high (integer_open highs)⟩,?_⟩
    · have read := atMost_hops conversions highs closing ⟨one_fits,fits _ (List.mem_singleton_self _)⟩
      exact iff_of_true read trivial

end Texts

end LoreDB.Query.Cypher
