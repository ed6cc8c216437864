import LoreDB.Query.Cypher.WrittenQueries
import Mathlib.Data.List.TakeWhile

/-! Values and property pairs of a text become the values and pairs that are written there. -/
namespace LoreDB.Query.Cypher
open LoreDB.Storage LoreDB.Library Grammar Peg

/-! Labels that do not occur under an expression of the grammar. -/

def among (rules : List Rule) (rule : Rule) : Bool := rules.contains rule

def Closed (rules : List Rule) : Prop :=
  (rules.all fun rule => (body rule).within (among rules)) = true

instance (rules : List Rule) : Decidable (Closed rules) := inferInstanceAs (Decidable (_ = true))

theorem all_among (rules : List Rule) (closed : Closed rules) {e : Expr} {text : Bytes}
    {trees : List CypherTree} (derived : Derives body e text trees)
    (holds : e.within (among rules) = true) : ∀ tree ∈ trees, tree.All (among rules) := by
  refine derives_within (among rules) (fun name kind => ?_) derived holds
  exact List.all_eq_true.mp closed name (List.contains_iff_mem.mp kind)

theorem inside_absent (rules : List Rule) (closed : Closed rules) (wanted : Rule → Bool)
    (apart : (rules.all fun rule => !wanted rule) = true) {e : Expr} {text : Bytes}
    {trees : List CypherTree} (derived : Derives body e text trees)
    (holds : e.within (among rules) = true) : Tree.insideAll wanted trees = [] := by
  apply Tree.insideAll_none
  intro tree member
  refine (all_among rules closed derived holds tree member).mono fun rule kind => ?_
  exact List.all_eq_true.mp apart rule (List.contains_iff_mem.mp kind)

def blankRules : List Rule := [.ws,.optWs]

def valueRules : List Rule := [.stringValue,.stringLiteral,.singleQuoteString,.number,.decimal,.integer,
  .boolean,.trueLiteral,.falseLiteral,.propertyValue]

theorem star_written {accepts : UInt8 → Bool} {text : Bytes} {trees : List CypherTree}
    (derived : Derives body (.star (.one accepts)) text trees) : text.all accepts = true ∧ trees = [] := by
  refine star_rounds (fun text trees => text.all accepts = true ∧ trees = []) ⟨rfl,rfl⟩ ?_ derived
  rintro text trees text' trees' one ⟨rest,rfl⟩
  obtain ⟨b,here,rfl,rfl⟩ := (derives_one _).mp one
  exact ⟨by simp [here,rest],rfl⟩

theorem star_bare {accepts : UInt8 → Bool} {text : Bytes} {trees : List CypherTree}
    (derived : Derives body (.star (.one accepts)) text trees) : trees = [] := (star_written derived).2

/-! Numbers. -/

theorem digit_facts (b : UInt8) (here : isDigit b = true) :
    isSpace b = false ∧ b ≠ byte '-' ∧ b ≠ byte '+' ∧ b ≠ byte '.' := by
  simp only [isDigit,Bool.and_eq_true,decide_eq_true_eq,UInt8.le_iff_toNat_le] at here
  obtain ⟨low,high⟩ := here
  have apart (c : UInt8) (below : c.toNat < (byte '0').toNat) : b ≠ c := by
    rintro rfl
    omega
  refine ⟨?_,apart _ (by decide),apart _ (by decide),apart _ (by decide)⟩
  have thirteen : ¬b ≤ 13 := by
    rw [UInt8.le_iff_toNat_le]
    have : (13 : UInt8).toNat < (byte '0').toNat := by decide
    omega
  simp [isSpace,apart (byte ' ') (by decide),thirteen]

theorem plus_digits {text : Bytes} {trees : List CypherTree}
    (derived : Derives body (plus digit) text trees) :
    (∃ d rest, text = d :: rest ∧ isDigit d = true ∧ (rest.all isDigit) = true) ∧ trees = [] := by
  obtain ⟨before,after,first,second,rfl,rfl,one,more⟩ := (derives_seq _ _).mp derived
  obtain ⟨d,here,rfl,rfl⟩ := (derives_one _).mp one
  obtain ⟨digits,rfl⟩ := star_written more
  exact ⟨⟨d,after,rfl,here,digits⟩,rfl⟩

theorem leading_digits (d : UInt8) (rest : Bytes) (here : isDigit d = true)
    (digits : (rest.all isDigit) = true) :
    Conversions.leadingInteger (d :: rest) = some (Conversions.digitsValue (d :: rest) : ℤ) ∧
      Conversions.leadingInteger (byte '-' :: d :: rest) =
        some (-(Conversions.digitsValue (d :: rest) : ℤ)) := by
  obtain ⟨space,minus,sign,-⟩ := digit_facts d here
  have whole : rest.takeWhile isDigit = rest :=
    List.takeWhile_eq_self_iff.mpr fun b among => List.all_eq_true.mp digits b among
  have blank : isSpace (byte '-') = false := by decide
  constructor
  · simp [Conversions.leadingInteger,space,minus,sign,here,whole]
  · simp [Conversions.leadingInteger,blank,here,whole]

/-- An optional sign and digits. -/
theorem integer_text {text : Bytes} {trees : List CypherTree}
    (derived : Derives body integerBody text trees) : trees = [] ∧ ∃ d rest, isDigit d = true ∧
      (rest.all isDigit) = true ∧ (text = d :: rest ∨ text = byte '-' :: d :: rest) := by
  obtain ⟨before,after,first,second,rfl,rfl,sign,more⟩ := (derives_seq _ _).mp derived
  obtain ⟨⟨d,rest,rfl,here,digits⟩,rfl⟩ := plus_digits more
  rcases (derives_opt _).mp sign with minus | ⟨rfl,rfl⟩
  · obtain ⟨b,same,rfl,rfl⟩ := (derives_one _).mp minus
    obtain rfl : b = byte '-' := by simpa using same
    exact ⟨rfl,d,rest,here,digits,.inr rfl⟩
  · exact ⟨rfl,d,rest,here,digits,.inl rfl⟩

theorem integer_written {text : Bytes} {trees : List CypherTree}
    (derived : Derives body integerBody text trees) :
    Conversions.leadingInteger text = some (Written.integer text) := by
  obtain ⟨-,d,rest,here,digits,same⟩ := integer_text derived
  obtain ⟨-,minus,-,-⟩ := digit_facts d here
  obtain ⟨plain,signed⟩ := leading_digits d rest here digits
  rcases same with rfl | rfl
  · simpa [Written.integer,minus] using plain
  · simpa [Written.integer] using signed

theorem integer_dots {text : Bytes} {trees : List CypherTree}
    (derived : Derives body integerBody text trees) : byte '.' ∉ text := by
  obtain ⟨-,d,rest,here,digits,same⟩ := integer_text derived
  have plain : byte '.' ∉ d :: rest := by
    intro dot
    have digit : isDigit (byte '.') = true := by
      rcases List.mem_cons.mp dot with same | later
      · rw [same]
        exact here
      · exact List.all_eq_true.mp digits _ later
    exact absurd digit (by decide)
  rcases same with rfl | rfl
  · exact plain
  · simpa [show byte '.' ≠ byte '-' by decide] using plain

/-! Literals. -/

section Literals

variable (conversions : Conversions)

theorem quoted_text (quote : Char) {text : Bytes} {trees : List CypherTree}
    (derived : Derives body (quoted quote) text trees) :
    trees = [] ∧ ∃ inner, text = byte quote :: (inner ++ [byte quote]) := by
  obtain ⟨before,after,first,second,rfl,rfl,opening,more⟩ := (derives_seq _ _).mp derived
  obtain ⟨b,same,rfl,rfl⟩ := (derives_one _).mp opening
  obtain rfl : b = byte quote := by simpa using same
  obtain ⟨inner,last,skipped,ended,rfl,rfl,skip,closing⟩ :=
    (derives_seq _ _).mp ((derives_must _).mp more)
  obtain ⟨c,same',rfl,rfl⟩ := (derives_one _).mp closing
  obtain rfl : c = byte quote := by simpa using same'
  have bare : skipped = [] := by
    refine star_rounds (fun _ trees => trees = []) rfl ?_ skip
    rintro text trees text' trees' one rfl
    obtain ⟨_,_,_,_,-,rfl,ahead,any⟩ := (derives_seq _ _).mp one
    obtain ⟨-,rfl⟩ := (derives_notAt _).mp ahead
    obtain ⟨_,-,-,rfl⟩ := (derives_one _).mp any
    rfl
  subst bare
  exact ⟨rfl,inner,rfl⟩

theorem string_written {text : Bytes} {trees : List CypherTree}
    (derived : Derives body (body .stringValue) text trees) : unquoted text = text.tail.dropLast := by
  have shape : ∃ quote inner, (quote = byte '"' ∨ quote = byte '\'') ∧
      text = quote :: (inner ++ [quote]) := by
    simp only [body,first,derives_sor,derives_rule] at derived
    rcases derived with ⟨children,-,within⟩ | ⟨children,-,within⟩
    · obtain ⟨-,inner,rfl⟩ := quoted_text _ within
      exact ⟨_,inner,.inl rfl,rfl⟩
    · obtain ⟨-,inner,rfl⟩ := quoted_text _ within
      exact ⟨_,inner,.inr rfl,rfl⟩
  obtain ⟨quote,inner,which,rfl⟩ := shape
  simp [unquoted,which]

theorem number_written {text : Bytes} {trees : List CypherTree}
    (derived : Derives body (body .number) text trees) (value : PropertyValue)
    (read : numberValue conversions text = .ok value) :
    Written.literal conversions (.node .number text trees) = some value := by
  simp only [body,first,derives_sor,derives_rule] at derived
  unfold numberValue at read
  rw [Written.literal_number]
  split at read
  · rename_i dot
    rw [if_pos dot]
    cases h : conversions.stod text with
    | error what => simp [h,Except.map] at read
    | ok bits =>
      obtain rfl : PropertyValue.float bits = value := by simpa [h,Except.map] using read
      rfl
  · rename_i dotless
    rw [if_neg dotless]
    rcases derived with ⟨children,-,within⟩ | ⟨children,-,within⟩
    · exfalso
      simp only [body,Grammar.one,derives_all_rule,derives_all_one] at within
      obtain ⟨_,_,_,_,rfl,-,-,b,_,rfl,same,-⟩ := within
      obtain rfl : b = byte '.' := by simpa using same
      simp at dotless
    · rw [show conversions.stoll text = _ from rfl,Conversions.stoll,integer_written within] at read
      dsimp only at read
      split at read
      · rename_i bounds
        rw [if_pos bounds]
        simpa [Except.map] using read
      · simp [Except.map] at read

theorem value_written {text : Bytes} {trees : List CypherTree}
    (derived : Derives body propertyValueBody text trees) : ∃ rule children,
      trees = [.node rule text children] ∧ isLiteral rule = true ∧
        Derives body (body rule) text children := by
  simp only [propertyValueBody,first,derives_sor,derives_rule] at derived
  rcases derived with ⟨children,rfl,within⟩ | ⟨children,rfl,within⟩ | ⟨children,rfl,within⟩
  · exact ⟨_,children,rfl,rfl,within⟩
  · exact ⟨_,children,rfl,rfl,within⟩
  · exact ⟨_,children,rfl,rfl,within⟩

theorem literal_written {rule : Rule} {text : Bytes} {children : List CypherTree}
    (kind : isLiteral rule = true) (derived : Derives body (body rule) text children)
    (before value : PropertyValue)
    (read : pairValue conversions before (.node rule text children) = .ok value) :
    Written.literal conversions (.node rule text children) = some value := by
  simp only [isLiteral,Bool.or_eq_true,beq_iff_eq] at kind
  rcases kind with (rfl | rfl) | rfl
  · simp only [pairValue,Tree.label_node,Tree.text_node,string_written derived,Except.ok.injEq] at read
    simpa [Written.literal] using read
  · exact number_written conversions derived value read
  · simp only [pairValue,Tree.label_node,Tree.text_node,booleanValue,Except.ok.injEq] at read
    simpa [Written.literal] using read

theorem identifier_text {text : Bytes} {trees : List CypherTree}
    (derived : Derives body identifierBody text trees) : text ≠ [] ∧ trees = [] := by
  obtain ⟨before,after,first,second,rfl,rfl,one,more⟩ := (derives_seq _ _).mp derived
  obtain ⟨b,-,rfl,rfl⟩ := (derives_one _).mp one
  exact ⟨by simp,star_bare more⟩

/-- The value stands in the last child, the key in the first. -/
theorem pair_written {text : Bytes} {children : List CypherTree}
    (derived : Derives body (body .propertyPair) text children) (pair : Bytes × PropertyValue)
    (read : pairOf conversions children = .ok pair) :
    Written.pair conversions (.node .propertyPair text children) = some pair ∧ pair.1 ≠ [] := by
  simp only [body,Grammar.one,derives_all_rule,derives_all_one,derives_all_nil] at derived
  obtain ⟨key,_,_,_,-,rfl,named,blank,_,k,_,-,rfl,spaces,_,_,-,-,blank',_,k',_,-,rfl,spaces',
    valueText,_,_,_,-,rfl,valued,-,rfl⟩ := derived
  obtain ⟨nonempty,rfl⟩ := identifier_text named
  obtain ⟨rule,inner,rfl,kind,literal⟩ := value_written valued
  obtain rfl := star_bare spaces
  obtain rfl := star_bare spaces'
  have given : ∃ value, pairValue conversions (.string []) (.node rule valueText inner) = .ok value ∧
      pair = (key,value) := by
    cases h : pairValue conversions (.string []) (.node rule valueText inner) with
    | error what => simp [pairOf,h,bind,Except.bind,Except.map] at read
    | ok value => exact ⟨value,rfl,by
      simpa [pairOf,h,bind,Except.bind,Except.map,pure,Except.pure] using read.symm⟩
  obtain ⟨value,valueRead,rfl⟩ := given
  have literal := literal_written conversions kind literal _ value valueRead
  refine ⟨?_,nonempty⟩
  have keys : Tree.insideAll (is .propertyKey) [.node rule valueText inner] = [] :=
    inside_absent valueRules (by decide) _ (by decide) valued (by decide)
  have value : Tree.inside isLiteral (.node rule valueText inner) = [.node rule valueText inner] :=
    Tree.inside_here _ _ _ kind
  rw [Tree.insideAll_cons,Tree.insideAll_nil,List.append_nil] at keys
  simp (disch := decide) [Written.pair,Tree.inside_here,Tree.inside_below,keys,value,literal]

end Literals

end LoreDB.Query.Cypher
