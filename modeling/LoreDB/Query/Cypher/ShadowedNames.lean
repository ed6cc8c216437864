import LoreDB.Library.PegSteps
import LoreDB.Query.Cypher.ParsedPatterns

/-! Names in expressions. The grammar tries the literals before the names, and takes true or false from a name
that only begins with it. -/
namespace LoreDB.Query.Cypher
open LoreDB.Storage LoreDB.Library Grammar Peg

/-! The parts of a tree that the parser builds from without an error, where a match clause stays. -/

section Building

variable (conversions : Conversions)

def Good (tree : CypherTree) : Prop :=
  ∀ s, ∃ s', Tree.visit (buildNodeOf conversions) tree s = .ok s' ∧
    (s.query.matchClause.isSome = true → s'.query.matchClause.isSome = true)

/-- The rules whose nodes have no number to convert. -/
def converts (rule : Rule) : Bool :=
  rule == .number || rule == .propertyPair || rule == .directedEdge || rule == .undirectedEdge ||
    rule == .simpleUndirectedEdge || rule == .limitClause

theorem built (rule : Rule) (text : Bytes) (children : List CypherTree) (s : ParserState)
    (plain : converts rule = false) : ∃ s', buildNodeOf conversions rule text children s = .ok s' ∧
      (s.query.matchClause.isSome = true → s'.query.matchClause.isSome = true) := by
  cases rule
  case propertyAccessExpression =>
    refine ⟨_,rfl,fun opened => ?_⟩
    split <;> exact opened
  case comparisonExpression | propertyMap | label | edgeType | pattern | returnItem |
      whereClause | setClause | deleteClause =>
    refine ⟨_,rfl,fun opened => ?_⟩
    simp only [ParserState.buildComparison,ParserState.buildPropertyMap,ParserState.addLabel,
      ParserState.addEdgeType,ParserState.buildPattern,ParserState.buildReturnItem,ParserState.buildWhere,
      ParserState.buildSet,ParserState.buildDelete]
    repeat' split
    all_goals exact opened
  case matchClause => exact ⟨_,rfl,fun _ => rfl⟩
  all_goals first
    | exact ⟨_,rfl,id⟩
    | exact absurd plain (by decide)

variable {conversions}

theorem trees_good (trees : List CypherTree) (good : ∀ tree ∈ trees, Good conversions tree) (s : ParserState) :
    ∃ s', Tree.visitAll (buildNodeOf conversions) trees s = .ok s' ∧
      (s.query.matchClause.isSome = true → s'.query.matchClause.isSome = true) := by
  induction trees generalizing s with
  | nil => exact ⟨s,rfl,id⟩
  | cons tree trees ih =>
    obtain ⟨middle,visited,keeps⟩ := good tree (.head _) s
    obtain ⟨s',others,keeps'⟩ := ih (fun other among => good other (.tail _ among)) middle
    exact ⟨s',(Tree.visitAll_cons ..).mpr ⟨middle,visited,others⟩,keeps' ∘ keeps⟩

theorem node_good (rule : Rule) (text : Bytes) (children : List CypherTree) (plain : converts rule = false)
    (good : ∀ tree ∈ children, Good conversions tree) : Good conversions (.node rule text children) := by
  intro s
  obtain ⟨middle,inside,keeps⟩ := trees_good children good s
  obtain ⟨s',done,keeps'⟩ := built conversions rule text children middle plain
  exact ⟨s',(Tree.visit_node ..).mpr ⟨middle,inside,done⟩,keeps' ∘ keeps⟩

abbrev Takes (conversions : Conversions) (e : Expr) (input rest : Bytes) : Prop :=
  Accepts body (Good conversions) e input rest

variable {e : Expr} {input middle rest : Bytes}

theorem takes_rule {rule : Rule} (plain : converts rule = false)
    (takes : Takes conversions (body rule) input rest) : Takes conversions (.rule rule) input rest :=
  accepts_rule (fun text trees good => node_good rule text trees plain good) takes

theorem takes_unnamed (takes : Takes conversions e input rest) :
    Takes conversions (.labelled .unnamed e) input rest :=
  accepts_labelled (fun text trees good => node_good .unnamed text trees rfl good) takes

theorem takes_last (takes : Takes conversions e input rest) : Takes conversions (all [e]) input rest :=
  accepts_seq takes accepts_empty

end Building

/-! What a first byte decides. -/

theorem every_byte (property : UInt8 → Bool)
    (checked : ((List.range 256).all fun n => property (.ofNat n)) = true) (b : UInt8) : property b = true := by
  have here := List.all_eq_true.mp checked b.toNat (List.mem_range.mpr b.toNat_lt)
  rwa [UInt8.ofNat_toNat] at here

theorem fails_on (kind : UInt8 → Bool) (depth : ℕ) {e : Expr} (checked : ((List.range 256).all fun n =>
      !kind (.ofNat n) || decide (lookAt body (some (UInt8.ofNat n)) depth e = some false)) = true)
    (b : UInt8) (here : kind b = true) (rest : Bytes) : Fails body e (b::rest) := by
  have fails := every_byte (fun b => !kind b || decide (lookAt body (some b) depth e = some false)) checked b
  rw [here] at fails
  exact fails_at depth _ rfl (of_decide_eq_true fails)

/-! Blanks, names and words. -/

section Words

variable {conversions : Conversions}

def isName : Bytes → Bool
  | [] => false
  | b::rest => isLetter b && rest.all isIdentifierOther

/-- No input that starts so goes on with a name. -/
def Apart (rest : Bytes) : Prop := rest.head?.any isIdentifierOther = false

def Unspaced (input : Bytes) : Prop := input.head?.any isSpace = false

theorem takes_none {input : Bytes} (unspaced : Unspaced input) : Takes conversions (.rule .optWs) input input := by
  refine takes_rule rfl (accepts_done (fails_at 0 _ rfl ?_))
  rw [lookAt,space,look,unspaced]
  rfl

theorem takes_blank {input : Bytes} (unspaced : Unspaced input) :
    Takes conversions (.rule .optWs) (byte ' '::input) input := by
  refine takes_rule rfl (accepts_more (accepts_one rfl) (accepts_done (fails_at 0 _ rfl ?_)))
  rw [lookAt,space,look,unspaced]
  rfl

theorem takes_space {input : Bytes} (unspaced : Unspaced input) :
    Takes conversions (.rule .ws) (byte ' '::input) input := by
  refine takes_rule rfl (accepts_seq (accepts_one rfl) (accepts_done (fails_at 0 _ rfl ?_)))
  rw [lookAt,space,look,unspaced]
  rfl

variable {good : CypherTree → Prop}

theorem accepts_all (accepts : UInt8 → Bool) (text rest : Bytes) (inside : text.all accepts = true)
    (ends : rest.head?.any accepts = false) :
    Accepts body good (.star (.one accepts)) (text ++ rest) rest := by
  induction text with
  | nil =>
    refine accepts_done (fails_at 0 _ rfl ?_)
    rw [lookAt,look,List.nil_append,ends]
    rfl
  | cons b text ih =>
    rw [List.all_cons,Bool.and_eq_true] at inside
    exact accepts_more (accepts_one inside.1) (ih inside.2)

theorem accepts_name {name : Bytes} (named : isName name = true) {rest : Bytes} (apart : Apart rest) :
    Accepts body good identifierBody (name ++ rest) rest := by
  cases name with
  | nil => cases named
  | cons b text =>
    rw [isName,Bool.and_eq_true] at named
    exact accepts_seq (accepts_one named.1) (accepts_all isIdentifierOther text rest named.2 apart)

theorem takes_access {entity key rest : Bytes} (entity_named : isName entity = true) (key_named : isName key = true)
    (apart : Apart rest) : Takes conversions propertyAccessBody (entity ++ byte '.'::(key ++ rest)) rest :=
  accepts_seq (takes_rule rfl (accepts_name entity_named rfl)) (accepts_seq (accepts_one rfl)
    (takes_last (takes_rule rfl (accepts_name key_named apart))))

theorem string_matches (text : List Char) (rest : Bytes) :
    Gives body (string text) (text.map byte ++ rest) (.matched [] rest) := by
  induction text with
  | nil => exact ⟨1,rfl⟩
  | cons c text ih =>
    have first : Gives body (one c) (byte c::(text.map byte ++ rest)) (.matched [] (text.map byte ++ rest)) :=
      gives_one (beq_self_eq_true (byte c))
    exact gives_seq first ih

theorem takes_string (text : List Char) (rest : Bytes) :
    Takes conversions (string text) (text.map byte ++ rest) rest :=
  ⟨[],string_matches text rest,fun _ => (nomatch ·)⟩

theorem string_fails (text : List Char) (input : Bytes) (differs : ¬text.map byte <+: input) :
    Fails body (string text) input := by
  induction text generalizing input with
  | nil => exact absurd (List.nil_prefix) differs
  | cons c text ih =>
    cases input with
    | nil => exact seq_fails ⟨1,rfl⟩
    | cons b input =>
      by_cases same : b = byte c
      · subst same
        have first : Gives body (one c) (byte c::input) (.matched [] input) :=
          gives_one (beq_self_eq_true (byte c))
        exact gives_seq first (ih input fun starts => differs (List.cons_prefix_cons.mpr ⟨rfl,starts⟩))
      · refine seq_fails (fails_at 0 _ rfl ?_)
        have refused : ¬(b == byte c) = true := fun equal => same (eq_of_beq equal)
        exact if_neg refused

/-- A word of letters and digits cannot begin in a name and end behind it. -/
theorem prefix_name {word name rest : Bytes} (letters : word.all isIdentifierOther = true) (apart : Apart rest)
    (starts : word <+: name ++ rest) : word <+: name := by
  rcases List.prefix_or_prefix_of_prefix starts (List.prefix_append name rest) with within | beyond
  · exact within
  · obtain ⟨more,rfl⟩ := beyond
    rw [List.prefix_append_right_inj] at starts
    cases more with
    | nil => exact (List.append_nil name).symm ▸ List.prefix_refl name
    | cons b more =>
      obtain ⟨rest,rfl⟩ := starts
      have inside : isIdentifierOther b = true := by
        rw [List.all_append,List.all_cons,Bool.and_eq_true,Bool.and_eq_true] at letters
        exact letters.2.1
      exact absurd (inside.symm.trans apart) (by decide)

theorem keyword_matches (text : List Char) {rest : Bytes} (apart : Apart rest) :
    Gives body (keyword text) (text.map byte ++ rest) (.matched [] rest) := by
  have ends : Fails body (.one isIdentifierOther) rest := by
    refine fails_at 0 _ rfl ?_
    rw [lookAt,look,apart]
    rfl
  exact gives_seq (string_matches text rest) (notAt_passes ends)

theorem takes_keyword (text : List Char) {rest : Bytes} (apart : Apart rest) :
    Takes conversions (keyword text) (text.map byte ++ rest) rest :=
  ⟨[],keyword_matches text apart,fun _ => (nomatch ·)⟩

/-- Where a name stands, a keyword is only taken from a name that it is. -/
theorem keyword_fails (text : List Char) {name rest : Bytes} (letters : (text.map byte).all isIdentifierOther = true)
    (named : name.all isIdentifierOther = true) (differs : name ≠ text.map byte) (apart : Apart rest) :
    Fails body (keyword text) (name ++ rest) := by
  by_cases starts : text.map byte <+: name
  · obtain ⟨more,rfl⟩ := starts
    cases more with
    | nil => exact absurd (List.append_nil _) differs
    | cons b more =>
      rw [List.all_append,List.all_cons,Bool.and_eq_true,Bool.and_eq_true] at named
      rw [List.append_assoc]
      have next : Gives body (.one isIdentifierOther) ((b::more) ++ rest) (.matched [] (more ++ rest)) :=
        gives_one named.2.1
      exact gives_seq (string_matches text _) (notAt_fails next)
  · exact seq_fails (string_fails text _ fun within => starts (prefix_name letters apart within))

end Words

/-! Expressions. -/

section Expressions

variable {conversions : Conversions} {entity key rest : Bytes}

/-- A name that begins with a literal. -/
def StartsLiteral (name : Bytes) : Prop := ascii "true" <+: name ∨ ascii "false" <+: name

instance (name : Bytes) : Decidable (StartsLiteral name) := inferInstanceAs (Decidable (_ ∨ _))

theorem letters_name {name : Bytes} (named : isName name = true) : name.all isIdentifierOther = true := by
  cases name with
  | nil => rfl
  | cons b text =>
    rw [isName,Bool.and_eq_true] at named
    rw [List.all_cons,named.2,isIdentifierOther,named.1]
    rfl

theorem inside_fails (depth : ℕ) {e : Expr} (checked : ((List.range 256).all fun n =>
      !(isIdentifierOther (.ofNat n) || UInt8.ofNat n == byte '.') ||
        decide (lookAt body (some (UInt8.ofNat n)) depth e = some false)) = true)
    {name : Bytes} (inside : name.all isIdentifierOther = true) : Fails body e (name ++ byte '.'::rest) := by
  cases name with
  | nil => exact fails_on (fun b => isIdentifierOther b || b == byte '.') depth checked _ rfl rest
  | cons b text =>
    rw [List.all_cons,Bool.and_eq_true] at inside
    refine fails_on (fun b => isIdentifierOther b || b == byte '.') depth checked b ?_ (text ++ byte '.'::rest)
    rw [inside.1,Bool.true_or]

theorem unspaced_name {name : Bytes} (inside : name.all isIdentifierOther = true) :
    Unspaced (name ++ byte '.'::rest) := by
  cases name with
  | nil => rfl
  | cons b text =>
    rw [List.all_cons,Bool.and_eq_true] at inside
    have apart := every_byte (fun b => !isIdentifierOther b || !isSpace b) (by decide +kernel) b
    rw [inside.1,Bool.not_true,Bool.false_or,Bool.not_eq_true'] at apart
    exact apart

theorem unspaced_named (named : isName entity = true) : Unspaced (entity ++ rest) := by
  cases entity with
  | nil => cases named
  | cons b text =>
    have apart := every_byte (fun b => !isLetter b || !isSpace b) (by decide +kernel) b
    rw [isName,Bool.and_eq_true] at named
    rw [named.1,Bool.not_true,Bool.false_or,Bool.not_eq_true'] at apart
    exact apart

theorem name_fails (depth : ℕ) {e : Expr} (checked : ((List.range 256).all fun n =>
      !isLetter (.ofNat n) || decide (lookAt body (some (UInt8.ofNat n)) depth e = some false)) = true)
    (named : isName entity = true) : Fails body e (entity ++ rest) := by
  cases entity with
  | nil => cases named
  | cons b text =>
    rw [isName,Bool.and_eq_true] at named
    exact fails_on isLetter depth checked b named.1 (text ++ rest)

/-- A keyword of the same letters as a name is taken, and what has to follow it is not there. -/
theorem word_fails (text : List Char) {rule : Rule} {next : Expr} {name : Bytes}
    (spelled : body rule = keyword text) (letters : (text.map byte).all isIdentifierOther = true)
    (inside : name.all isIdentifierOther = true) (stuck : Fails body next (byte '.'::rest)) :
    Fails body (.seq (.rule rule) next) (name ++ byte '.'::rest) := by
  by_cases same : name = text.map byte
  · have word : Gives body (body rule) (name ++ byte '.'::rest) (.matched [] (byte '.'::rest)) := by
      rw [spelled,same]
      exact keyword_matches text rfl
    exact gives_seq (rule_gives word) stuck
  · refine seq_fails (rule_fails ?_)
    rw [spelled]
    exact keyword_fails text letters inside same rfl

/-- No text, number or bracket begins like a name. -/
theorem text_unnamed (named : isName entity = true) : Fails body (.rule .stringValue) (entity ++ rest) :=
  name_fails 3 (by decide +kernel) named

theorem number_unnamed (named : isName entity = true) : Fails body (.rule .number) (entity ++ rest) :=
  name_fails 3 (by decide +kernel) named

theorem bracket_unnamed (named : isName entity = true) :
    Fails body (.rule .parenthesizedExpression) (entity ++ rest) :=
  name_fails 2 (by decide +kernel) named

theorem literal_fails (named : isName entity = true) (plain : ¬StartsLiteral entity) :
    Fails body (.rule .literalExpression) (entity ++ byte '.'::rest) := by
  have noTrue : Fails body (.rule .trueLiteral) (entity ++ byte '.'::rest) :=
    rule_fails (string_fails _ _ fun starts => plain (.inl (prefix_name (by decide) (by exact rfl) starts)))
  have noFalse : Fails body (.rule .falseLiteral) (entity ++ byte '.'::rest) :=
    rule_fails (string_fails _ _ fun starts => plain (.inr (prefix_name (by decide) (by exact rfl) starts)))
  have noBoolean : Fails body (.rule .boolean) (entity ++ byte '.'::rest) :=
    rule_fails (sor_gives noTrue noFalse)
  exact rule_fails (sor_gives (text_unnamed named) (sor_gives (number_unnamed named) noBoolean))

theorem primary_access (entity_named : isName entity = true) (key_named : isName key = true)
    (plain : ¬StartsLiteral entity) (apart : Apart rest) :
    Takes conversions (.rule .primaryExpression) (entity ++ byte '.'::(key ++ rest)) rest := by
  exact takes_rule rfl (accepts_right (bracket_unnamed entity_named) (accepts_right
    (literal_fails entity_named plain) (accepts_left (takes_rule rfl (takes_access entity_named key_named apart)))))

/-- Of a name that begins with a literal only that is taken. -/
theorem primary_literal (literal more : Bytes) (either : literal = ascii "true" ∨ literal = ascii "false") :
    Takes conversions (.rule .primaryExpression) (literal ++ more) more := by
  have named : isName literal = true := by
    rcases either with rfl | rfl <;> decide
  have boolean : Takes conversions (.rule .boolean) (literal ++ more) more := by
    rcases either with rfl | rfl
    · exact takes_rule rfl (accepts_left (takes_rule rfl (takes_string ['t','r','u','e'] more)))
    · have noTrue : Fails body (.rule .trueLiteral) (ascii "false" ++ more) :=
        fails_at 1 (some (byte 'f')) rfl (by decide)
      exact takes_rule rfl (accepts_right noTrue (takes_rule rfl (takes_string ['f','a','l','s','e'] more)))
  exact takes_rule rfl (accepts_right (bracket_unnamed named) (accepts_left (takes_rule rfl
    (accepts_right (text_unnamed named) (accepts_right (number_unnamed named) boolean)))))

theorem one_good (children : List CypherTree) (good : ∀ tree ∈ children, Good conversions tree) :
    Good conversions (.node .number [byte '1'] children) := by
  intro s
  obtain ⟨middle,inside,keeps⟩ := trees_good children good s
  exact ⟨middle.push (.literal (.integer 1)),(Tree.visit_node ..).mpr ⟨middle,inside,rfl⟩,keeps⟩

theorem primary_one (more : Bytes) :
    Takes conversions (.rule .primaryExpression) (byte '1'::byte ' '::more) (byte ' '::more) := by
  have noParenthesis : Fails body (.rule .parenthesizedExpression) (byte '1'::byte ' '::more) :=
    fails_at 2 (some (byte '1')) rfl (by decide)
  have noString : Fails body (.rule .stringValue) (byte '1'::byte ' '::more) :=
    fails_at 3 (some (byte '1')) rfl (by decide)
  have noSign : Fails body (one '-') (byte '1'::byte ' '::more) := fails_at 0 (some (byte '1')) rfl (by decide)
  have noDigit : Fails body digit (byte ' '::more) := fails_at 0 (some (byte ' ')) rfl (by decide)
  have noPoint : Fails body (.seq (one '.') (all [plus digit])) (byte ' '::more) :=
    fails_at 0 (some (byte ' ')) rfl (by decide)
  have integer : Takes conversions (.rule .integer) (byte '1'::byte ' '::more) (byte ' '::more) :=
    takes_rule rfl (accepts_seq (accepts_absent noSign) (accepts_seq (accepts_one rfl) (accepts_done noDigit)))
  have noDecimal : Fails body (.rule .decimal) (byte '1'::byte ' '::more) :=
    rule_fails (fails_after integer noPoint)
  obtain ⟨trees,gives,good⟩ : Takes conversions (body .number) (byte '1'::byte ' '::more) (byte ' '::more) :=
    accepts_right noDecimal integer
  have number : Takes conversions (.rule .number) (byte '1'::byte ' '::more) (byte ' '::more) := by
    refine ⟨_,rule_gives gives,fun tree among => ?_⟩
    obtain rfl := List.mem_singleton.mp among
    rw [List.length_cons,Nat.add_sub_cancel_left,List.take_succ_cons,List.take_zero]
    exact one_good trees good
  exact takes_rule rfl (accepts_right noParenthesis (accepts_left (takes_rule rfl
    (accepts_right noString (accepts_left number)))))

/-! No logical expression begins with an operand that no AND or OR follows. -/

variable {input middle after : Bytes}

theorem operation_fails {operator : Rule} (first : Takes conversions (.rule .primaryExpression) input middle)
    (blanks : Takes conversions (.rule .optWs) middle after)
    (fails : Fails body (all [.rule operator,.rule .optWs,.rule .primaryExpression]) after) :
    Fails body (operation operator) input := fails_after first (fails_after blanks fails)

theorem not_fails (named : isName entity = true) :
    Fails body (.rule .notExpression) (entity ++ byte '.'::rest) :=
  rule_fails (word_fails ['N','O','T'] rfl (by decide) (letters_name named)
    (seq_fails (fails_at 1 (some (byte '.')) rfl (by decide))))

/-- No operator follows an operand. -/
structure Unfollowed (after : Bytes) : Prop where
  orOp : Fails body (all [.rule .orOp,.rule .optWs,.rule .primaryExpression]) after
  andOp : Fails body (all [.rule .andOp,.rule .optWs,.rule .primaryExpression]) after

theorem logical_fails (first : Takes conversions (.rule .primaryExpression) input middle)
    (blanks : Takes conversions (.rule .optWs) middle after) (ended : Unfollowed after)
    (noNot : Fails body (.rule .notExpression) input) : Fails body (.rule .logicalExpression) input :=
  rule_fails (sor_gives (rule_fails (operation_fails first blanks ended.orOp))
    (sor_gives (rule_fails (operation_fails first blanks ended.andOp)) noNot))

theorem takes_primary (first : Takes conversions (.rule .primaryExpression) input middle)
    (blanks : Takes conversions (.rule .optWs) middle after) (ended : Unfollowed after)
    (noNot : Fails body (.rule .notExpression) input) (noComparison : Fails body (.rule .comparisonOp) after) :
    Takes conversions (.rule .expression) input middle := by
  have noLogical := logical_fails first blanks ended noNot
  have noOther : Fails body (.rule .comparisonExpression) input :=
    rule_fails (operation_fails first blanks (seq_fails noComparison))
  exact takes_rule rfl (accepts_right noLogical (accepts_right noOther first))

theorem takes_comparison (first : Takes conversions (.rule .primaryExpression) input middle)
    (blanks : Takes conversions (.rule .optWs) middle after) (ended : Unfollowed after)
    (noNot : Fails body (.rule .notExpression) input)
    (others : Takes conversions (all [.rule .comparisonOp,.rule .optWs,.rule .primaryExpression]) after rest) :
    Takes conversions (.rule .expression) input rest := by
  have noLogical := logical_fails first blanks ended noNot
  exact takes_rule rfl (accepts_right noLogical (accepts_left (takes_rule rfl
    (accepts_seq first (accepts_seq blanks others)))))

/-- Without a literal at its front the access is taken as a whole, before the end and before a comparison. -/
theorem access_taken (entity_named : isName entity = true) (key_named : isName key = true)
    (plain : ¬StartsLiteral entity) : Takes conversions (.rule .expression) (entity ++ byte '.'::key) [] := by
  have first : Takes conversions (.rule .primaryExpression) (entity ++ byte '.'::(key ++ [])) [] :=
    primary_access entity_named key_named plain rfl
  rw [List.append_nil] at first
  refine takes_primary first (takes_none rfl) ⟨?_,?_⟩ (not_fails entity_named) ?_
  · exact fails_at 1 none rfl (by decide)
  · exact fails_at 1 none rfl (by decide)
  · exact fails_at 2 none rfl (by decide)

theorem comparison_taken (entity_named : isName entity = true) (key_named : isName key = true)
    (plain : ¬StartsLiteral entity) (more : Bytes) : Takes conversions (.rule .expression)
      (entity ++ byte '.'::(key ++ byte ' '::byte '='::byte ' '::byte '1'::byte ' '::more)) (byte ' '::more) := by
  have first : Takes conversions (.rule .primaryExpression)
      (entity ++ byte '.'::(key ++ byte ' '::byte '='::byte ' '::byte '1'::byte ' '::more))
      (byte ' '::byte '='::byte ' '::byte '1'::byte ' '::more) :=
    primary_access entity_named key_named plain rfl
  have equal : Takes conversions (.rule .comparisonOp) (byte '='::byte ' '::byte '1'::byte ' '::more)
      (byte ' '::byte '1'::byte ' '::more) := by
    have noLe : Fails body (.rule .leOp) (byte '='::byte ' '::byte '1'::byte ' '::more) :=
      fails_at 1 (some (byte '=')) rfl (by decide)
    have noGe : Fails body (.rule .geOp) (byte '='::byte ' '::byte '1'::byte ' '::more) :=
      fails_at 1 (some (byte '=')) rfl (by decide)
    have noNe : Fails body (.rule .neOp) (byte '='::byte ' '::byte '1'::byte ' '::more) :=
      fails_at 1 (some (byte '=')) rfl (by decide)
    exact takes_rule rfl (accepts_right noLe (accepts_right noGe (accepts_right noNe
      (accepts_left (takes_rule rfl (takes_string ['='] _))))))
  refine takes_comparison first (takes_blank rfl) ⟨?_,?_⟩ (not_fails entity_named) ?_
  · exact fails_at 1 (some (byte '=')) rfl (by decide)
  · exact fails_at 1 (some (byte '=')) rfl (by decide)
  · exact accepts_seq equal (accepts_seq (takes_blank rfl) (takes_last (primary_one more)))

/-- Only the literal is taken from a name that begins with it. -/
theorem literal_taken (literal name more : Bytes) (either : literal = ascii "true" ∨ literal = ascii "false")
    (named : isName (literal ++ name) = true) :
    Takes conversions (.rule .expression) (literal ++ (name ++ byte '.'::more)) (name ++ byte '.'::more) := by
  have inside : name.all isIdentifierOther = true := by
    have all := letters_name named
    rw [List.all_append,Bool.and_eq_true] at all
    exact all.2
  have stuck : Fails body (all [.rule .optWs,.rule .primaryExpression]) (byte '.'::more) :=
    fails_at 6 (some (byte '.')) rfl (by decide)
  have noNot : Fails body (.rule .notExpression) (literal ++ (name ++ byte '.'::more)) := by
    rw [← List.append_assoc]
    exact not_fails named
  refine takes_primary (primary_literal literal _ either) (takes_none (unspaced_name inside)) ⟨?_,?_⟩ noNot ?_
  · exact word_fails ['O','R'] rfl (by decide) inside stuck
  · exact word_fails ['A','N','D'] rfl (by decide) inside stuck
  · exact inside_fails 2 (by decide +kernel) inside

end Expressions

/-! The clauses. -/

section Clauses

variable {conversions : Conversions} {entity key input rest : Bytes}

theorem takes_match (named : isName entity = true) (more : Bytes) :
    Takes conversions (body .matchClause) (ascii "MATCH (" ++ (entity ++ byte ')'::byte ' '::byte 'W'::more))
      (byte ' '::byte 'W'::more) := by
  have noLabels : Takes conversions (optional (.rule .nodeLabels)) (byte ')'::byte ' '::byte 'W'::more)
      (byte ')'::byte ' '::byte 'W'::more) :=
    takes_unnamed (accepts_left (takes_rule rfl (accepts_done (fails_at 1 (some (byte ')')) rfl (by decide)))))
  have noMap : Takes conversions (optional (.rule .propertyMap)) (byte ')'::byte ' '::byte 'W'::more)
      (byte ')'::byte ' '::byte 'W'::more) :=
    takes_unnamed (accepts_absent (fails_at 1 (some (byte ')')) rfl (by decide)))
  have variable_taken : Takes conversions (.rule .optIdentifier) (entity ++ byte ')'::byte ' '::byte 'W'::more)
      (byte ')'::byte ' '::byte 'W'::more) :=
    takes_rule rfl (accepts_left (takes_rule rfl (accepts_name named rfl)))
  have node : Takes conversions (.rule .nodePattern) (byte '('::(entity ++ byte ')'::byte ' '::byte 'W'::more))
      (byte ' '::byte 'W'::more) :=
    takes_rule rfl (accepts_seq (accepts_one rfl) (accepts_seq (takes_none (unspaced_named named))
      (accepts_seq variable_taken (accepts_seq (takes_none rfl) (accepts_seq noLabels (accepts_seq (takes_none rfl)
        (accepts_seq noMap (accepts_seq (takes_none rfl) (takes_last (accepts_one rfl))))))))))
  have pattern : Takes conversions (.rule .pattern) (byte '('::(entity ++ byte ')'::byte ' '::byte 'W'::more))
      (byte ' '::byte 'W'::more) :=
    takes_rule rfl (accepts_seq node (takes_last (takes_unnamed (accepts_done
      (fails_at 3 (some (byte ' ')) rfl (by decide))))))
  have blank : Takes conversions (.rule .optWs) (byte ' '::byte 'W'::more) (byte 'W'::more) := takes_blank rfl
  have noComma : Fails body comma (byte ' '::byte 'W'::more) :=
    labelled_gives (fails_after blank (fails_at 1 (some (byte 'W')) rfl (by decide)))
  have patterns : Takes conversions (.rule .patternList)
      (byte '('::(entity ++ byte ')'::byte ' '::byte 'W'::more)) (byte ' '::byte 'W'::more) :=
    takes_rule rfl (accepts_seq pattern (accepts_done (seq_fails noComma)))
  exact accepts_seq (takes_rule rfl (takes_keyword ['M','A','T','C','H'] rfl))
    (accepts_seq (takes_space rfl) (takes_last patterns))

theorem takes_where (unspaced : Unspaced input) (takes : Takes conversions (.rule .expression) input rest) :
    Takes conversions (further .whereClause) (ascii " WHERE " ++ input) rest :=
  takes_unnamed (accepts_left (takes_unnamed (accepts_seq (takes_space rfl) (takes_last (takes_rule rfl
    (accepts_seq (takes_rule rfl (takes_keyword ['W','H','E','R','E'] rfl))
      (accepts_seq (takes_space unspaced) (takes_last takes))))))))

theorem takes_return (entity_named : isName entity = true) (key_named : isName key = true)
    (plain : ¬StartsLiteral entity) (differs : entity ≠ ascii "DISTINCT") :
    Takes conversions returning (ascii " RETURN " ++ (entity ++ byte '.'::key)) [] := by
  have space : Takes conversions (.rule .ws) (byte ' '::(entity ++ byte '.'::key)) (entity ++ byte '.'::key) :=
    takes_space (unspaced_named entity_named)
  have noWord : Fails body (.rule .distinctKeyword) (entity ++ byte '.'::key) :=
    rule_fails (keyword_fails ['D','I','S','T','I','N','C','T'] (by decide) (letters_name entity_named) differs
      (by exact rfl))
  have noDistinct : Fails body (group [.rule .ws,.rule .distinctKeyword]) (byte ' '::(entity ++ byte '.'::key)) :=
    labelled_gives (fails_after space (seq_fails noWord))
  have item : Takes conversions (.rule .returnItem) (entity ++ byte '.'::key) [] :=
    takes_rule rfl (accepts_seq (access_taken entity_named key_named plain)
      (takes_last (takes_unnamed (accepts_absent (fails_at 1 none rfl (by decide))))))
  have items : Takes conversions (.rule .returnList) (entity ++ byte '.'::key) [] :=
    takes_rule rfl (accepts_seq item (accepts_done (fails_at 1 none rfl (by decide))))
  have clause : Takes conversions (.rule .returnClause) (ascii "RETURN " ++ (entity ++ byte '.'::key)) [] :=
    takes_rule rfl (accepts_seq (takes_rule rfl (takes_keyword ['R','E','T','U','R','N'] rfl))
      (accepts_seq (takes_unnamed (accepts_absent noDistinct))
        (accepts_seq space (takes_last items))))
  have noOrder : Takes conversions (further .orderByClause) [] [] :=
    takes_unnamed (accepts_absent (fails_at 1 none rfl (by decide)))
  have noLimit : Takes conversions (further .limitClause) [] [] :=
    takes_unnamed (accepts_absent (fails_at 1 none rfl (by decide)))
  exact takes_unnamed (accepts_seq (takes_space rfl) (accepts_seq clause (accepts_seq noOrder (takes_last noLimit))))

/-- After a blank that is none of the words of the clauses that can follow, the query has ended. -/
theorem distinct_left : Takes conversions
    (optional (choice [returning,group [.rule .ws,.rule .setClause],group [.rule .ws,.rule .deleteClause]]))
    (ascii " RETURN DISTINCT." ++ input) (ascii " RETURN DISTINCT." ++ input) := by
  have space : Takes conversions (.rule .ws) (ascii " RETURN DISTINCT." ++ input)
      (ascii "RETURN DISTINCT." ++ input) := takes_space rfl
  have word : Takes conversions (.rule .returnKeyword) (ascii "RETURN DISTINCT." ++ input)
      (ascii " DISTINCT." ++ input) := takes_rule rfl (takes_keyword ['R','E','T','U','R','N'] rfl)
  have distinct : Takes conversions (optional (group [.rule .ws,.rule .distinctKeyword]))
      (ascii " DISTINCT." ++ input) (byte '.'::input) :=
    takes_unnamed (accepts_left (takes_unnamed (accepts_seq (takes_space rfl)
      (takes_last (takes_rule rfl (takes_keyword ['D','I','S','T','I','N','C','T'] rfl))))))
  have noBlank : Fails body (all [.rule .ws,.rule .returnList]) (byte '.'::input) :=
    fails_at 1 (some (byte '.')) rfl (by decide)
  have noClause : Fails body (.rule .returnClause) (ascii "RETURN DISTINCT." ++ input) :=
    rule_fails (fails_after word (fails_after distinct noBlank))
  have noReturn : Fails body returning (ascii " RETURN DISTINCT." ++ input) :=
    labelled_gives (fails_after space (seq_fails noClause))
  have noSet : Fails body (group [.rule .ws,.rule .setClause]) (ascii " RETURN DISTINCT." ++ input) :=
    labelled_gives (fails_after space (fails_at 2 (some (byte 'R')) rfl (by decide)))
  have noDelete : Fails body (group [.rule .ws,.rule .deleteClause]) (ascii " RETURN DISTINCT." ++ input) :=
    labelled_gives (fails_after space (fails_at 2 (some (byte 'R')) rfl (by decide)))
  exact takes_unnamed (accepts_absent (labelled_gives (sor_gives noReturn (sor_gives noSet noDelete))))

theorem nothing_further {name : Bytes} (inside : name.all isIdentifierOther = true) : Takes conversions
    (optional (choice [returning,group [.rule .ws,.rule .setClause],group [.rule .ws,.rule .deleteClause]]))
    (name ++ byte '.'::rest) (name ++ byte '.'::rest) :=
  takes_unnamed (accepts_absent (inside_fails 3 (by decide +kernel) inside))

end Clauses

/-! Whole queries. -/

section Queries

variable {conversions : Conversions} {e f : Expr} {input middle last : Bytes}

/-- The match leaves trees from which the parser builds a match clause. -/
def Opens (conversions : Conversions) (e : Expr) (input rest : Bytes) : Prop :=
  ∃ trees, Gives body e input (.matched trees rest) ∧ ∀ s, ∃ s',
    Tree.visitAll (buildNodeOf conversions) trees s = .ok s' ∧ s'.query.matchClause.isSome = true

theorem opens_clause (clause : Takes conversions (body .matchClause) input middle) :
    Opens conversions (.rule .matchClause) input middle := by
  obtain ⟨trees,gives,good⟩ := clause
  refine ⟨_,rule_gives gives,fun s => ?_⟩
  obtain ⟨inner,inside,-⟩ := trees_good trees good s
  have visited (text : Bytes) :
      Tree.visit (buildNodeOf conversions) (.node .matchClause text trees) s = .ok inner.buildMatch :=
    (Tree.visit_node ..).mpr ⟨inner,inside,rfl⟩
  exact ⟨inner.buildMatch,(Tree.visitAll_cons ..).mpr ⟨_,visited _,(Tree.visitAll_nil ..).mpr rfl⟩,rfl⟩

theorem opens_node {rule : Rule} {text : Bytes} {trees : List CypherTree} (plain : converts rule = false)
    (opens : ∀ s, ∃ s', Tree.visitAll (buildNodeOf conversions) trees s = .ok s' ∧
      s'.query.matchClause.isSome = true) (s : ParserState) :
    ∃ s', Tree.visitAll (buildNodeOf conversions) [.node rule text trees] s = .ok s' ∧
      s'.query.matchClause.isSome = true := by
  obtain ⟨inner,inside,opened⟩ := opens s
  obtain ⟨s',done,keeps⟩ := built conversions rule text trees inner plain
  have visited : Tree.visit (buildNodeOf conversions) (.node rule text trees) s = .ok s' :=
    (Tree.visit_node ..).mpr ⟨inner,inside,done⟩
  exact ⟨s',(Tree.visitAll_cons ..).mpr ⟨_,visited,(Tree.visitAll_nil ..).mpr rfl⟩,keeps opened⟩

theorem opens_rule {rule : Rule} (plain : converts rule = false)
    (opens : Opens conversions (body rule) input last) : Opens conversions (.rule rule) input last := by
  obtain ⟨trees,gives,opens⟩ := opens
  exact ⟨_,rule_gives gives,opens_node plain opens⟩

theorem opens_unnamed (opens : Opens conversions e input last) :
    Opens conversions (.labelled .unnamed e) input last := by
  obtain ⟨trees,gives,opens⟩ := opens
  exact ⟨_,labelled_gives gives,opens_node rfl opens⟩

theorem opens_left (opens : Opens conversions e input last) : Opens conversions (.sor e f) input last := by
  obtain ⟨trees,gives,opens⟩ := opens
  exact ⟨trees,sor_matches gives,opens⟩

theorem opens_then (opens : Opens conversions e input middle) (takes : Takes conversions f middle last) :
    Opens conversions (.seq e f) input last := by
  obtain ⟨trees,gives,opens⟩ := opens
  obtain ⟨trees',gives',good⟩ := takes
  refine ⟨_,gives_seq gives gives',fun s => ?_⟩
  obtain ⟨inner,first,opened⟩ := opens s
  obtain ⟨s',second,keeps⟩ := trees_good trees' good inner
  exact ⟨s',(Tree.visitAll_append ..).mpr ⟨inner,first,second⟩,keeps opened⟩

theorem opens_after (takes : Takes conversions e input middle) (opens : Opens conversions f middle last) :
    Opens conversions (.seq e f) input last := by
  obtain ⟨trees,gives,good⟩ := takes
  obtain ⟨trees',gives',opens⟩ := opens
  refine ⟨_,gives_seq gives gives',fun s => ?_⟩
  obtain ⟨inner,first,-⟩ := trees_good trees good s
  obtain ⟨s',second,opened⟩ := opens inner
  exact ⟨s',(Tree.visitAll_append ..).mpr ⟨inner,first,second⟩,opened⟩

def matchTail : Expr := all matchQuery.tail

theorem query_accepted (unspaced : Unspaced input) (clause : Takes conversions (body .matchClause) input middle)
    (others : Takes conversions matchTail middle []) :
    ∃ query, CypherParser.parse conversions input = .ok query := by
  have matched : Opens conversions (group matchQuery) input [] :=
    opens_unnamed (opens_then (opens_clause clause) others)
  have chosen : Opens conversions (choice [group matchQuery,group (writeQuery .createClause),
      group (writeQuery .setClause),group (writeQuery .deleteClause)]) input [] :=
    opens_unnamed (opens_left matched)
  have ending : Takes conversions (all [.rule .optWs,.eof]) [] [] :=
    accepts_seq (takes_none rfl) (takes_last accepts_eof)
  obtain ⟨trees,gives,opens⟩ : Opens conversions (.rule .query) input [] :=
    opens_rule rfl (opens_after (takes_none unspaced) (opens_then chosen ending))
  obtain ⟨s,visited,opened⟩ := opens {}
  have valid : s.query.isValid = true := by rw [Query.isValid,opened,Bool.true_or,Bool.true_or,Bool.true_or]
  refine ⟨s.query,?_⟩
  rw [CypherParser.parse,parse_gives ranking .query input _ gives,CypherParser.build,visited]
  exact if_pos valid

theorem query_refused (unspaced : Unspaced input) (clause : Takes conversions (body .matchClause) input middle)
    (others : Takes conversions matchTail middle last) (ends : Fails body (all [.rule .optWs,.eof]) last) :
    CypherParser.parse conversions input = .error ⟨.invalidArgument,"Parse error: invalid syntax"⟩ := by
  have matched : Takes conversions (group matchQuery) input last :=
    takes_unnamed (accepts_seq (takes_rule rfl clause) others)
  have chosen : Takes conversions (choice [group matchQuery,group (writeQuery .createClause),
      group (writeQuery .setClause),group (writeQuery .deleteClause)]) input last :=
    takes_unnamed (accepts_left matched)
  have blanks : Takes conversions (.rule .optWs) input input := takes_none unspaced
  have failed : Fails body (.rule .query) input := rule_fails (fails_after blanks (fails_after chosen ends))
  rw [CypherParser.parse,parse_gives ranking .query input _ failed]
  rfl

end Queries

/-- The grammar takes the whole text as an identifier. -/
def Named (name : Bytes) : Prop := ∃ trees, Peg.parse ranking .identifier name = .matched trees []

theorem named_iff (name : Bytes) : Named name ↔ isName name = true := by
  constructor
  · rintro ⟨trees,parsed⟩
    obtain ⟨text,rfl,derived⟩ := parse_derives ranking .identifier name [] trees parsed
    obtain ⟨children,-,within⟩ := (derives_rule _).mp derived
    obtain ⟨before,after,first,second,rfl,-,one,more⟩ := (derives_seq _ _).mp within
    obtain ⟨b,letter,rfl,-⟩ := (derives_one _).mp one
    rw [List.append_nil,List.singleton_append,isName,letter,(star_written more).1]
    rfl
  · intro named
    have taken : Accepts body (fun _ => True) identifierBody (name ++ []) [] := accepts_name named rfl
    rw [List.append_nil] at taken
    obtain ⟨trees,gives,-⟩ : Accepts body (fun _ => True) (.rule .identifier) name [] :=
      accepts_rule (fun _ _ _ => trivial) taken
    exact ⟨trees,parse_gives ranking .identifier name _ gives⟩

def accessQuery (entity key : Bytes) : Bytes :=
  ascii "MATCH (" ++ entity ++ ascii ") WHERE " ++ entity ++ ascii "." ++ key ++ ascii " = 1 RETURN " ++ entity ++
    ascii "." ++ key

/-- What is behind the first dot. -/
def behindDot (entity key : Bytes) : Bytes :=
  key ++ byte ' '::byte '='::byte ' '::byte '1'::byte ' '::(ascii "RETURN " ++ (entity ++ byte '.'::key))

theorem accessQuery_parts (entity key : Bytes) : accessQuery entity key = ascii "MATCH (" ++
    (entity ++ byte ')'::byte ' '::byte 'W'::(ascii "HERE " ++ (entity ++ byte '.'::behindDot entity key))) := by
  simp only [accessQuery,List.append_assoc]
  rfl

section Accesses

variable (conversions : Conversions) (entity key : Bytes)

theorem plain_accepted (entity_named : isName entity = true) (key_named : isName key = true)
    (plain : ¬StartsLiteral entity) (differs : entity ≠ ascii "DISTINCT") :
    ∃ query, CypherParser.parse conversions (accessQuery entity key) = .ok query := by
  have condition : Takes conversions (.rule .expression) (entity ++ byte '.'::behindDot entity key)
      (ascii " RETURN " ++ (entity ++ byte '.'::key)) := comparison_taken entity_named key_named plain _
  have returned : Takes conversions (choice [returning,group [.rule .ws,.rule .setClause],
      group [.rule .ws,.rule .deleteClause]]) (ascii " RETURN " ++ (entity ++ byte '.'::key)) [] :=
    takes_unnamed (accepts_left (takes_return entity_named key_named plain differs))
  rw [accessQuery_parts]
  exact query_accepted rfl (takes_match entity_named _) (accepts_seq
    (takes_where (unspaced_named entity_named) condition) (takes_last (takes_unnamed (accepts_left returned))))

theorem shadowed_refused (entity_named : isName entity = true) (shadowed : StartsLiteral entity) :
    CypherParser.parse conversions (accessQuery entity key) =
      .error ⟨.invalidArgument,"Parse error: invalid syntax"⟩ := by
  obtain ⟨literal,name,either,rfl⟩ : ∃ literal name, (literal = ascii "true" ∨ literal = ascii "false") ∧
      entity = literal ++ name := by
    rcases shadowed with ⟨name,same⟩ | ⟨name,same⟩
    · exact ⟨_,name,.inl rfl,same.symm⟩
    · exact ⟨_,name,.inr rfl,same.symm⟩
  have inside : name.all isIdentifierOther = true := by
    have all := letters_name entity_named
    rw [List.all_append,Bool.and_eq_true] at all
    exact all.2
  have condition : Takes conversions (.rule .expression)
      (literal ++ name ++ byte '.'::behindDot (literal ++ name) key)
      (name ++ byte '.'::behindDot (literal ++ name) key) := by
    rw [List.append_assoc]
    exact literal_taken literal name _ either entity_named
  rw [accessQuery_parts]
  exact query_refused rfl (takes_match entity_named _) (accepts_seq
    (takes_where (unspaced_named entity_named) condition) (takes_last (nothing_further inside)))
    (inside_fails 1 (by decide +kernel) inside)

theorem distinct_refused (key_named : isName key = true) :
    CypherParser.parse conversions (accessQuery (ascii "DISTINCT") key) =
      .error ⟨.invalidArgument,"Parse error: invalid syntax"⟩ := by
  have named : isName (ascii "DISTINCT") = true := by decide
  have condition : Takes conversions (.rule .expression)
      (ascii "DISTINCT" ++ byte '.'::behindDot (ascii "DISTINCT") key) (ascii " RETURN DISTINCT." ++ key) :=
    comparison_taken named key_named (by decide) _
  have blank : Takes conversions (.rule .optWs) (ascii " RETURN DISTINCT." ++ key)
      (ascii "RETURN DISTINCT." ++ key) := takes_blank rfl
  rw [accessQuery_parts]
  exact query_refused rfl (takes_match named _) (accepts_seq (takes_where (unspaced_named named) condition)
    (takes_last distinct_left)) (fails_after blank (fails_at 1 (some (byte 'R')) rfl (by decide)))

/-- The grammar's words, and the literals themselves. -/
def keywords : List Bytes := [ascii "AND",ascii "OR",ascii "NOT",ascii "MATCH",ascii "WHERE",ascii "RETURN",
  ascii "CREATE",ascii "SET",ascii "DELETE",ascii "DETACH",ascii "LIMIT",ascii "ORDER",ascii "BY",ascii "ASC",
  ascii "DESC",ascii "DISTINCT",ascii "AS",ascii "true",ascii "false"]

/-- A name works in the conditions and the items of a query unless it begins with true or false. Of the words
only the one that can stand before an item does not. -/
theorem accesses_accepted (entity_named : Named entity) (key_named : Named key) :
    (∃ query, CypherParser.parse conversions (accessQuery entity key) = .ok query) ↔
      ¬StartsLiteral entity ∧ entity ≠ ascii "DISTINCT" := by
  rw [named_iff] at entity_named key_named
  constructor
  · rintro ⟨query,parsed⟩
    constructor
    · intro shadowed
      rw [shadowed_refused conversions entity key entity_named shadowed] at parsed
      cases parsed
    · rintro rfl
      rw [distinct_refused conversions key key_named] at parsed
      cases parsed
  · rintro ⟨plain,differs⟩
    exact plain_accepted conversions entity key entity_named key_named plain differs

theorem accesses_accepted_person :
    (∃ query, CypherParser.parse wholeNumbers (accessQuery (ascii "person") (ascii "age")) = .ok query) ↔
      ¬StartsLiteral (ascii "person") ∧ ascii "person" ≠ ascii "DISTINCT" :=
  accesses_accepted wholeNumbers _ _ ((named_iff _).mpr (by decide)) ((named_iff _).mpr (by decide))

/-- The identifier names a node but no property of it. -/
theorem trueCost_refused : Named (ascii "trueCost") ∧ Named (ascii "x") ∧ ascii "trueCost" ∉ keywords ∧
    ∀ conversions query,
      CypherParser.parse conversions (accessQuery (ascii "trueCost") (ascii "x")) ≠ .ok query := by
  have named : isName (ascii "trueCost") = true := by decide
  refine ⟨(named_iff _).mpr named,(named_iff _).mpr (by decide),by decide,fun conversions query parsed => ?_⟩
  rw [shadowed_refused conversions _ _ named (by decide)] at parsed
  cases parsed

end Accesses

end LoreDB.Query.Cypher
