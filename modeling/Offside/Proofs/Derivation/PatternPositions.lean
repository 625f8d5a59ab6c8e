import Offside.Proofs.Derivation.PatternExpressions
import Offside.Proofs.Derivation.PatternFindings

/-!
Patterns in every position. What an alternative of a case expression takes for its pattern without a
report is also read on the left of a bind and on the left of an equals sign, with no report either, if
the levels suffice.

Where a bind has its pattern, an expression is read first. Its brackets take more levels, and no
argument of it starts with a tilde. Where a declaration has its pattern, a leading variable is read before
it is known what follows, and a qualified operator behind that is taken for an argument.
-/

namespace Offside.Haskell.Core

set_option autoImplicit false

open Offside.Lexical Offside.Parser Offside.Parse Offside.Haskell.Grammar

/-! Tokens that no pattern holds. -/

def leavesPattern (token : Token) : Bool :=
  token == .arrow || token == .pipe || token == .closeBrace || token == .endOfInput

def Inside (words : List Word) : Prop := ∀ word ∈ words, leavesPattern word.token = false

instance (words : List Word) : Decidable (Inside words) :=
  inferInstanceAs (Decidable (∀ word ∈ words, leavesPattern word.token = false))

section Inside

variable {words : List Word} {first later : List Word → Prop} {token closing : Token}

theorem Beside.inside (beside : Beside first later words) (one : ∀ words, first words → Inside words)
    (other : ∀ words, later words → Inside words) : Inside words := by
  obtain ⟨front, back, rfl, held, further⟩ := beside
  exact List.forall_mem_append.2 ⟨one front held, other back further⟩

theorem Heads.inside (heads : Heads token later words) (stays : leavesPattern token = false)
    (other : ∀ words, later words → Inside words) : Inside words := by
  obtain ⟨word, rest, rfl, rfl, held⟩ := heads
  exact List.forall_mem_cons.2 ⟨stays, other rest held⟩

theorem inside_nil : ∀ words : List Word, words = [] → Inside words := by
  rintro _ rfl
  simp [Inside]

theorem Encloses.inside (encloses : Encloses token closing first words)
    (opens : leavesPattern token = false) (closes : leavesPattern closing = false)
    (content : ∀ words, first words → Inside words) : Inside words :=
  Heads.inside encloses opens fun _ beside =>
    beside.inside content fun _ heads => heads.inside closes inside_nil

theorem inside_single {text : List Char} {gap : Bool} (stays : leavesPattern token = false) :
    Inside [⟨token, text, gap⟩] := by
  simp [Inside, stays]

theorem IsLiteral.inside {text : List Char} (literal : IsLiteral token text words) :
    Inside words := by
  obtain ⟨known, gap, rfl⟩ := literal
  refine inside_single ?_
  cases token <;> first | rfl | cases known

theorem IsDotted.inside {text : List Char} {gap : Bool} {qualifiers : List (List Char)}
    (dotted : IsDotted token text gap qualifiers words) (stays : leavesPattern token = false) :
    Inside words := by
  induction dotted with
  | last gap => exact inside_single stays
  | qualified gap qualifier dot later induction =>
    exact List.forall_mem_cons.2 ⟨rfl, List.forall_mem_cons.2 ⟨rfl, induction⟩⟩

theorem Dotted.inside {name : Dotted} (constructor : name.isConstructor = true)
    (derives : name.Derives words) : Inside words := by
  obtain ⟨gap, dotted⟩ := derives
  refine dotted.inside ?_
  rcases name.kind constructor with same | same <;> (rw [same]; rfl)

theorem leavesPattern_symbol (symbol : token.isConstructorOperator = true) :
    leavesPattern token = false := by
  cases token <;> first | rfl | cases symbol

theorem PatternOperator.inside {operator : PatternOperator} (derives : operator.Derives words) :
    Inside words := by
  cases operator with
  | symbol name =>
    obtain ⟨symbol, gap, dotted⟩ := derives
    refine dotted.inside (leavesPattern_symbol ?_)
    simp only [Dotted.isConstructorSymbol, Bool.and_eq_true] at symbol
    exact symbol.1
  | quoted name =>
    exact derives.2.inside rfl rfl fun _ held => name.inside derives.1 held

end Inside

mutual

theorem PatternAtom.inside (atom : PatternAtom) {words : List Word} (derives : atom.Derives words) :
    Inside words := by
  cases atom with
  | named text =>
    obtain ⟨gap, rfl⟩ := derives
    exact inside_single rfl
  | aliased text atom =>
    obtain ⟨gap, rest, rfl, derives⟩ := derives
    exact List.forall_mem_cons.2 ⟨rfl, derives.inside rfl fun _ held => atom.inside held⟩
  | constructor name => exact name.inside derives.1 derives.2
  | literal token text => exact IsLiteral.inside derives
  | wildcard => exact Heads.inside derives rfl inside_nil
  | irrefutable atom => exact Heads.inside derives rfl fun _ held => atom.inside held
  | unit => exact Encloses.inside derives rfl rfl inside_nil
  | tupleConstructor further =>
    refine Encloses.inside derives rfl rfl fun content commas word member => ?_
    have among := List.mem_map_of_mem (f := Word.token) member
    rw [commas] at among
    rw [List.eq_of_mem_replicate among]
    rfl
  | symbol token text =>
    refine derives.2.inside rfl rfl ?_
    rintro _ ⟨gap, rfl⟩
    exact inside_single (leavesPattern_symbol derives.1)
  | parenthesized inner => exact Encloses.inside derives rfl rfl fun _ held => inner.inside held
  | tuple first second later =>
    refine Encloses.inside derives rfl rfl fun _ held => held.inside (fun _ held => first.inside held)
      fun _ held => held.inside (fun _ held => held.inside rfl fun _ held => second.inside held)
        fun _ held => PatternForm.laterInside later held
  | emptyList => exact Encloses.inside derives rfl rfl inside_nil
  | list first later =>
    exact Encloses.inside derives rfl rfl fun _ held => held.inside (fun _ held => first.inside held)
      fun _ held => PatternForm.laterInside later held

theorem PatternAtom.listInside (atoms : List PatternAtom) {words : List Word}
    (derive : PatternAtom.ListDerives atoms words) : Inside words := by
  cases atoms with
  | nil => exact inside_nil words derive
  | cons atom later =>
    exact Beside.inside derive (fun _ held => atom.inside held)
      fun _ held => PatternAtom.listInside later held

theorem PatternOperand.inside (operand : PatternOperand) {words : List Word}
    (derives : operand.Derives words) : Inside words := by
  cases operand with
  | negative token text => exact derives.2.inside rfl fun _ literal => literal.inside
  | applied function arguments =>
    exact derives.2.inside (fun _ held => function.inside held)
      fun _ held => PatternAtom.listInside arguments held

theorem PatternForm.inside (form : PatternForm) {words : List Word} (derives : form.Derives words) :
    Inside words := by
  cases form with
  | operand only => exact only.inside derives
  | binary left operator right =>
    exact Beside.inside derives (fun _ held => left.inside held) fun _ held =>
      held.inside (fun _ held => operator.inside held) fun _ held => right.inside held

theorem PatternForm.laterInside (forms : List PatternForm) {words : List Word}
    (derive : PatternForm.LaterDerive forms words) : Inside words := by
  cases forms with
  | nil => exact inside_nil words derive
  | cons form later =>
    exact Beside.inside derive (fun _ held => held.inside rfl fun _ held => form.inside held)
      fun _ held => PatternForm.laterInside later held

end

def PatternForm.lone (text : List Char) : PatternForm := .operand (.applied (.named text) [])

theorem PatternForm.derives_lone (text : List Char) (gap : Bool) :
    (PatternForm.lone text).Derives [⟨.identifier, text, gap⟩] :=
  ⟨.inr rfl, [_], [], rfl, ⟨gap, rfl⟩, rfl⟩

/-! Alternatives. -/

section Alternatives

variable {file : FileId} {source : List Char} {further room : Nat}
  {pattern behind later : List Word}

theorem passed_eq {passed after : List Word} (split : pattern ++ behind = passed ++ after)
    (inside : Inside pattern) (own : Inside passed) (leaves : leavesPattern (aheadOf behind) = true)
    (left : leavesPattern (aheadOf after) = true) : passed = pattern := by
  have stays : ∀ {words rest : List Word}, Inside (words ++ rest) → leavesPattern (aheadOf rest) = true →
      rest = [] := by
    intro words rest inside leaves
    cases rest with
    | nil => rfl
    | cons word rest =>
      have other := inside word (by simp)
      cases other.symm.trans leaves
  rcases List.append_eq_append_iff.1 split with ⟨more, rfl, rfl⟩ | ⟨more, rfl, rfl⟩
  · cases more with
    | nil => simp
    | cons word more =>
      have other := own word (by simp)
      cases other.symm.trans leaves
  · cases more with
    | nil => simp
    | cons word more =>
      have other := inside word (by simp)
      cases other.symm.trans left

/-- A right-hand side starts with a guard or a separator, or it is reported. -/
theorem owes_rightSide {inner : Level} {words : List Word} :
    Owes file source room words (rightSide inner .arrow) (leavesPattern (aheadOf words) = true) := by
  by_cases pipe : aheadOf words = .pipe
  · exact fun _ _ _ _ => by rw [pipe]; rfl
  by_cases arrow : aheadOf words = .arrow
  · exact fun _ _ _ _ => by rw [arrow]; rfl
  refine Owes.start fun start => Owes.decided (parses_isAt .pipe) ?_
  rw [if_neg (by simp [pipe])]
  refine Owes.decided (parses_accept_other (by decide) arrow) ?_
  rw [if_neg Bool.false_ne_true]
  exact Owes.of_reports (reportUnexpected_reports.bind .reportUnexpected fun _ => .pure _)

theorem owes_alternative (inside : Inside pattern) (arrow : aheadOf behind = .arrow) :
    Owes file source room (pattern ++ behind) (alternative (level further))
      (∃ form : PatternForm, form.Derives pattern ∧ form.nesting < further) := by
  have logs := level_logs further
  have ended : ∀ start pattern body, Logs (do
      return { pattern, rightSide := body, span := (← spanFrom start) : Alternative }) :=
    fun start pattern body => .look fun _ => .pure _
  refine Owes.start fun start => Owes.bind ((level_findsPatterns further).pattern _) logs.pattern
    (fun value => (rightSide_agrees logs _).bind fun body => ended start value body) ?_
  rintro value passed after split ⟨form, derives, shallow⟩
  refine (owes_rightSide.prior (rightSide_agrees logs _) fun body => ended start value body).mono ?_
  intro left
  have same := passed_eq split inside (form.inside derives) (by rw [arrow]; rfl) left
  exact ⟨form, same ▸ derives, shallow⟩

theorem parses_itemFollows {words : List Word} (brace : aheadOf words ≠ .closeBrace)
    (inner : aheadOf words ≠ .endOfInput) :
    Parses file source room words itemFollows words (· = true) := by
  refine Parses.ahead rfl ?_
  generalize aheadOf words = token at brace inner
  cases token <;> first | exact Parses.pure rfl | exact absurd rfl brace | exact absurd rfl inner

theorem owes_alternativeBlock {opening : Word} {words : List Word} {known : Prop}
    (opens : opening.token = .openBrace) (brace : aheadOf words ≠ .closeBrace)
    (inner : aheadOf words ≠ .endOfInput)
    (owes : Owes file source room words (alternative (level further)) known) :
    Owes file source (room + 1) (opening :: words) (level (further + 1)).alternativeBlock known := by
  have logs := alternative_agrees (level_logs further)
  have ended : ∀ items : List Alternative, Logs (do
      let _ ← expectOrSkipTo .closeBrace
      return items) := fun items => (Agrees.expectOrSkipTo _).bind fun _ => .pure _
  refine Owes.nested (Owes.decided (parses_expect (by decide) opens) ?_)
  rw [if_pos rfl]
  refine Owes.prior ?_ (.many itemFollows_stays (itemThenEnd_agrees logs)) ended
  exact Owes.many (parses_itemFollows brace inner) itemFollows_stays (itemThenEnd_agrees logs)
    (owes.prior logs fun _ => endOfItem_stays.bind fun _ => .pure _)

theorem parses_bareVariable (text : List Char) (gap : Bool) (closes : isCloser (aheadOf later) = true) :
    Parses file source (further + 1) (⟨.identifier, text, gap⟩ :: later)
      (level (further + 1)).expression later fun _ => True := by
  have read := (PatternForm.lone text).isExpression file source ⟨trivial, trivial⟩ (Nat.zero_le further)
  exact PatternForm.parses_expression read (PatternForm.derives_lone text gap) closes

theorem owes_caseOf {leading keyword opening : Word} {words : List Word} {known : Prop}
    (text : List Char) (gap : Bool) (leads : leading.token = .kwCase) (parts : keyword.token = .kwOf)
    (opens : opening.token = .openBrace) (brace : aheadOf words ≠ .closeBrace)
    (inner : aheadOf words ≠ .endOfInput)
    (owes : Owes file source (further + 1) words (alternative (level (further + 1))) known) :
    Owes file source (further + 3)
      (leading :: ⟨.identifier, text, gap⟩ :: keyword :: opening :: words)
      (level (further + 3)).expression known := by
  have logs := level_logs (further + 2)
  refine Owes.nested (Owes.start fun start => ?_)
  refine Owes.prior (Owes.start fun start => ?_) (chain_agrees logs) fun _ => annotated_agrees logs _ _
  refine Owes.prior ?_ (signedOperand_agrees logs) fun _ =>
    (chainFrom_agrees logs _ _ _ _).bind fun _ => .pure _
  refine Owes.decided (parses_isAt .minus) ?_
  rw [if_neg (by simp [aheadOf, leads])]
  refine Owes.ahead leads (Owes.prior ?_ (caseExpression_agrees logs) fun _ => .pure _)
  refine Owes.start fun start => Owes.consume ?_
  refine Owes.after (parses_bareVariable text gap (by rw [aheadOf, parts]; rfl)) fun subject _ => ?_
  refine Owes.decided (parses_expect (by decide) parts) ?_
  exact (owes_alternativeBlock opens brace inner owes).prior logs.alternativeBlock fun _ =>
    .look fun _ => .pure _

theorem owes_variableBinding {inner : Level} {sign : Word} {words : List Word} {known : Prop}
    (text : List Char) (gap : Bool) (equals : sign.token = .equals) (logs : inner.Agrees .logging inner)
    (owes : Owes file source room words inner.expression known) :
    Owes file source room (⟨.identifier, text, gap⟩ :: sign :: words) (bindingDecl inner) known := by
  have ahead : aheadOf (sign :: words) = .equals := equals
  refine Owes.start fun start => Owes.ahead rfl ?_
  refine Owes.after (parses_nameAt (by decide) text gap) fun name _ => ?_
  refine Owes.decided (parses_isAt .comma) (Owes.decided (parses_isAt .doubleColon) ?_)
  rw [if_neg (by simp [ahead])]
  refine Owes.decided (parses_patternContinues ahead) ?_
  refine Owes.decided (parses_no_variableOperator ahead) ?_
  refine Owes.decided (parses_no_patternAtoms ahead) ?_
  refine Owes.prior (Owes.start fun start => ?_) (rightSide_agrees logs _) fun _ => .look fun _ => .pure _
  refine Owes.decided (parses_isAt .pipe) ?_
  rw [if_neg (by simp [ahead])]
  refine Owes.decided (parses_accept (by decide) equals) ?_
  rw [if_pos rfl]
  exact owes.prior logs.expression fun _ => finishRightSide_agrees logs _ _

theorem owes_firstDecl {opening : Word} {words : List Word} {known : Prop}
    (opens : opening.token = .openBrace) (starts : startsItem (aheadOf words) = true)
    (owes : Owes file source room words topDecl known) :
    Owes file source room (opening :: words) program known := by
  have item : Logs (itemThenEnd topDecl) := itemThenEnd_agrees topDecl_logs
  have imports : Parses file source room words (isAt .kwImport) words (· = false) := by
    refine (parses_isAt .kwImport).mono fun _ same => ?_
    rw [same, decide_eq_false]
    intro keyword
    rw [keyword] at starts
    cases starts
  have follows : Parses file source room words itemFollows words (· = true) := by
    refine parses_itemFollows ?_ ?_ <;> (intro same; rw [same] at starts; cases starts)
  have noHeader : Parses file source room (opening :: words) moduleHeader? (opening :: words)
      (· = []) :=
    Parses.unlessAt (by simp [aheadOf, opens]) (Parses.pure rfl)
  have body : Owes file source room (opening :: words) moduleBody? known := by
    refine Owes.decided (parses_isAt .openBrace) ?_
    rw [if_pos (by simp [aheadOf, opens])]
    refine Owes.consume (Owes.decided (parses_many_stop imports) ?_)
    refine Owes.prior ?_ (.many itemFollows_stays item) fun _ =>
      (Agrees.expectOrSkipTo _).bind fun _ => .pure _
    exact Owes.many follows itemFollows_stays item
      (owes.prior topDecl_logs fun _ => endOfItem_stays.bind fun _ => .pure _)
  refine Owes.start fun start => Owes.decided noHeader ?_
  exact Owes.prior body moduleBody?_logs fun _ => skipToEnd_stays.bind fun _ => .look fun _ =>
    .pure _

end Alternatives

/-! Binds. -/

/-- A block of one statement, which binds a pattern. -/
def IsBindBlock (expr : Expr) : Prop :=
  ∃ pattern subject bind span, expr = .doBlock [.bind pattern subject bind] span

def DeclaresVariable (body : Expr → Prop) (decl : Decl) : Prop :=
  ∃ name expr right span, decl = .function (.simple name) [] false ⟨.plain expr, [], right⟩ span ∧
    body expr

section Binds

variable {file : FileId} {source : List Char} {further room : Nat} {words later : List Word}

theorem PatternForm.startsItem {form : PatternForm} (derives : form.Derives words) :
    Core.startsItem (aheadOf (words ++ later)) = true := by
  obtain ⟨word, rest, rfl, starts⟩ := form.head derives
  change Core.startsItem word.token = true
  generalize word.token = token at starts
  cases token <;> first | rfl | (rcases starts with atom | minus <;> contradiction)

theorem parses_bind {arrow : Word} {text : List Char} {gap : Bool}
    (keyword : aheadOf (words ++ arrow :: ⟨.identifier, text, gap⟩ :: later) ≠ .kwLet)
    (binds : arrow.token = .leftArrow) (closes : isCloser (aheadOf later) = true)
    (read : Parses file source (further + 1) (words ++ arrow :: ⟨.identifier, text, gap⟩ :: later)
      (level (further + 1)).expression (arrow :: ⟨.identifier, text, gap⟩ :: later) fun _ => True) :
    Parses file source (further + 1) (words ++ arrow :: ⟨.identifier, text, gap⟩ :: later)
      (statement (level (further + 1))) later
      fun statement => ∃ pattern subject span, statement = .bind pattern subject span := by
  refine Parses.start fun start => Parses.unlessAccepted (by decide) keyword ?_
  refine read.bind fun pattern _ => Parses.whenAccepted (by decide) binds ?_
  refine (parses_bareVariable text gap closes).bind fun subject _ => ?_
  exact Parses.spanFrom fun span => Parses.pure ⟨pattern, subject, span, rfl⟩

theorem parses_bindBlock {leading opening closing : Word} (leads : leading.token = .kwDo)
    (opens : opening.token = .openBrace) (closes : closing.token = .closeBrace)
    (ends : isCloser (aheadOf later) = true) (starts : Core.startsItem (aheadOf words) = true)
    (fewer : (closing :: later).length < words.length)
    (bind : Parses file source (further + 1) words (statement (level (further + 1)))
      (closing :: later) fun statement => ∃ pattern subject span,
        statement = .bind pattern subject span) :
    Parses file source (further + 3) (leading :: opening :: words)
      (level (further + 3)).expression later IsBindBlock := by
  have block : Parses file source (further + 1) (opening :: words)
      (block (statement (level (further + 1)))) later _ :=
    parses_block opens closes starts fewer bind
  refine parses_soleOperand (by simp [aheadOf, leads]) ends (Parses.ahead leads ?_)
  refine Parses.bind (?_ : Parses _ _ _ _ _ _ IsBindBlock) fun expr held => Parses.pure ⟨rfl, held⟩
  refine Parses.start fun start => Parses.consume ((parses_nested block).bind ?_)
  rintro _ ⟨_, rfl, pattern, subject, bind, rfl⟩
  exact Parses.spanFrom fun span => Parses.pure ⟨pattern, subject, bind, span, rfl⟩

end Binds

/-! Declarations. -/

def leadsQualified : List Word → Bool
  | first :: second :: _ => first.token == .identifier && second.token == .properIdentifier
  | _ => false

/-- A declaration of a pattern: a variable without parameters if the pattern is one alone, and a pattern
binding otherwise. -/
def PatternForm.IsDeclared (file : FileId) (source : List Char) (form : PatternForm)
    (decl : Decl) : Prop :=
  (∃ text name expr right span, form = .lone text ∧
    decl = .function (.simple name) [] false ⟨.plain expr, [], right⟩ span) ∨
  (∃ pattern expr right span, (∀ text, form ≠ .lone text) ∧
    decl = .patternBinding pattern ⟨.plain expr, [], right⟩ span ∧
      form.Matches file source pattern)

section Declarations

variable {file : FileId} {source : List Char} {further room : Nat} {words later final : List Word}

theorem parses_declAfterPattern {inner : Level} {sign : Word} {start : Span} {pattern : Expr}
    {holds : Decl → Prop} (equals : sign.token = .equals) (closes : aheadOf later = .closeBrace)
    (reads : Parses file source room words inner.expression later fun _ => True)
    (held : ∀ expr right span, holds (.patternBinding pattern ⟨.plain expr, [], right⟩ span)) :
    Parses file source room (sign :: words) (declAfterPattern inner start pattern) later holds := by
  have ahead : aheadOf (sign :: words) = .equals := equals
  have right := parses_rightSide (by rw [equals]; decide) (by rw [equals]; decide) closes reads
  rw [equals] at right
  refine Parses.decided (parses_no_variableOperator ahead) (right.bind ?_)
  rintro _ ⟨expr, right, rfl, -⟩
  exact Parses.spanFrom fun span => Parses.pure (held expr right span)

theorem parses_patternAfter {left : PatternOperand} {operator : PatternOperator}
    {right : PatternForm} {back : List Word} {start : Span} {expr : Expr}
    (shallow : right.nesting < further) (operates : operator.Derives words)
    (derives : right.Derives back) (ends : endsPattern (aheadOf later) = true)
    (matched : left.Matches file source expr) :
    Parses file source further (words ++ (back ++ later)) (patternAfter (level further) start expr)
      later ((PatternForm.binary left operator right).Matches file source) := by
  have loose : Loose (back ++ later) := (follows_of_form derives).loose
  refine (operator.parses operates loose).bind ?_
  rintro _ ⟨name, rfl, named⟩
  refine (right.isRead file source shallow back later derives ends).bind fun other following => ?_
  exact Parses.spanFrom fun span => Parses.pure ⟨expr, name, other, span, rfl, matched, named,
    following⟩

/-- The first operand of a pattern, and what is made of the words behind it. -/
theorem PatternForm.parses_after {form : PatternForm} (shallow : form.nesting < further + 1)
    (derives : form.Derives words) (ends : endsPattern (aheadOf later) = true) :
    ∃ front back, words = front ++ back ∧ form.leading.Derives front ∧ EndsOperand (back ++ later) ∧
      ∀ start expr, form.leading.Matches file source expr →
        Parses file source (further + 1) (back ++ later) (patternAfter (level (further + 1)) start expr)
          later (form.Matches file source) := by
  cases form with
  | operand only =>
    refine ⟨words, [], by simp, derives, endsOperand_of_closer ends, fun start expr matched => ?_⟩
    exact Parses.decided (parses_no_constructorOperator ends) (Parses.pure matched)
  | binary left operator right =>
    obtain ⟨front, _, rfl, derives, between, back, rfl, operates, following⟩ := derives
    rw [PatternForm.nesting] at shallow
    refine ⟨front, between ++ back, rfl, derives, ?_, fun start expr matched => ?_⟩
    · rw [List.append_assoc]
      exact endsOperand_of_operator operates
    · rw [List.append_assoc]
      exact parses_patternAfter (by omega) operates following ends matched

/-- An operator goes on behind a variable if it is not qualified. -/
theorem parses_continues_operator {operator : PatternOperator} (derives : operator.Derives words)
    (plain : ∀ name, operator = .symbol name → name.qualifiers = []) :
    Parses file source room (words ++ later) patternContinues (words ++ later) (· = true) := by
  cases operator with
  | symbol name =>
    obtain ⟨symbol, derives⟩ := derives
    rcases name.symbol_cases symbol derives with ⟨-, gap, rfl⟩ | ⟨qualifier, dot, gap, one, rfl⟩
    · have kind : name.token.isConstructorOperator = true := by
        simp only [Dotted.isConstructorSymbol, Bool.and_eq_true] at symbol
        exact symbol.1
      have ahead : aheadOf ([⟨name.token, name.text, gap⟩] ++ later) = name.token := rfl
      refine Parses.ahead ahead ?_
      rw [if_pos (Or.inr kind)]
      exact Parses.pure rfl
    · cases one.symm.trans (plain name rfl)
  | quoted name =>
    obtain ⟨constructor, encloses⟩ := derives
    obtain ⟨first, content, last, split, opens, closes, derives⟩ := encloses.split later
    obtain ⟨word, rest, rfl, kind⟩ := name.head constructor derives
    rw [split]
    refine Parses.ahead opens ?_
    rw [if_neg (by decide)]
    exact Parses.whenAt opens (parses_secondIs kind.symm)

theorem PatternOperator.ahead_ne {operator : PatternOperator} (derives : operator.Derives words)
    {token : Token} (symbol : token.isConstructorOperator = false) (proper : token ≠ .properIdentifier)
    (backtick : token ≠ .backtick) : aheadOf (words ++ later) ≠ token := by
  cases operator with
  | symbol name =>
    obtain ⟨constructor, derives⟩ := derives
    simp only [Dotted.isConstructorSymbol, Bool.and_eq_true] at constructor
    rcases name.symbol_cases (by simpa [Dotted.isConstructorSymbol] using constructor) derives with
      ⟨-, gap, rfl⟩ | ⟨qualifier, dot, gap, -, rfl⟩
    · rintro rfl
      cases symbol.symm.trans constructor.1
    · exact fun same => proper same.symm
  | quoted name =>
    obtain ⟨-, first, rest, rfl, opens, -⟩ := derives
    exact fun same => backtick (same.symm.trans opens)

/-- A declaration that starts with a variable which a pattern goes on behind. -/
theorem parses_declAfterVariable {inner : Level} {sign : Word} {behind : List Word} {text : List Char}
    {gap : Bool} {form : PatternForm} (equals : sign.token = .equals)
    (closes : aheadOf later = .closeBrace)
    (other : aheadOf words ≠ .comma ∧ aheadOf words ≠ .doubleColon) (apart : ∀ text, form ≠ .lone text)
    (continues : Parses file source room words patternContinues words (· = true))
    (pattern : ∀ start name, IsPart file source text name →
      Parses file source room words (patternAfterVariable inner start name) (sign :: behind)
        (form.Matches file source))
    (reads : Parses file source room behind inner.expression later fun _ => True) :
    Parses file source room (⟨.identifier, text, gap⟩ :: words) (bindingDecl inner) later
      (form.IsDeclared file source) := by
  refine Parses.start fun start => Parses.ahead rfl ?_
  refine (parses_nameAt (by decide) text gap).bind fun name part => ?_
  refine Parses.decided (parses_isAt .comma) (Parses.decided (parses_isAt .doubleColon) ?_)
  rw [if_neg (by simp [other])]
  refine Parses.decided continues ?_
  rw [if_pos rfl]
  refine (pattern start name part).bind fun expr matched => ?_
  exact parses_declAfterPattern equals closes reads fun body right span =>
    .inr ⟨expr, body, right, span, apart, rfl, matched⟩

theorem startsPatternAtom_plain {token : Token} (starts : startsPatternAtom token = true) :
    token.isVariableOperator = false := by
  cases token <;> first | rfl | cases starts

/-- A sign behind an opening parenthesis of a pattern does not stand alone. -/
theorem PatternAtom.opens {atom : PatternAtom} (derives : atom.Derives words)
    (opening : aheadOf words = .openParen) :
    ∃ first second more, words = first :: second :: more ∧
      (second.token.isVariableOperator = true →
        ∃ third others, more = third :: others ∧ third.token ≠ .closeParen) := by
  have headed : ∀ {first behind}, first ≠ .openParen → ¬Heads first behind words := by
    rintro first behind other ⟨word, rest, rfl, kind, -⟩
    exact other (kind.symm.trans opening)
  have inside : ∀ {form : PatternForm} {first : Word} {content rest : List Word},
      form.Derives content → ∃ one second more, first :: (content ++ rest) = one :: second :: more ∧
        (second.token.isVariableOperator = true →
          ∃ third others, more = third :: others ∧ third.token ≠ .closeParen) := by
    intro form first content rest derives
    obtain ⟨word, behind, rfl, starts⟩ := form.head derives
    refine ⟨first, word, behind ++ rest, rfl, fun operator => ?_⟩
    rcases starts with atom | minus
    · cases operator.symm.trans (startsPatternAtom_plain atom)
    · obtain ⟨number, others, rfl, other⟩ := form.negates derives minus
      exact ⟨number, others ++ rest, rfl, other⟩
  cases atom with
  | named text =>
    obtain ⟨gap, rfl⟩ := derives
    cases opening
  | aliased text atom =>
    obtain ⟨gap, rest, rfl, -⟩ := derives
    cases opening
  | constructor name =>
    obtain ⟨word, rest, rfl, kind⟩ := name.head derives.1 derives.2
    cases kind.symm.trans opening
  | literal token text =>
    obtain ⟨known, gap, rfl⟩ := derives
    rw [show token = .openParen from opening] at known
    cases known
  | unit =>
    obtain ⟨first, _, rfl, -, _, _, rfl, rfl, last, _, rfl, kind, rfl⟩ := derives
    refine ⟨first, last, [], rfl, fun operator => ?_⟩
    rw [kind] at operator
    cases operator
  | tupleConstructor count =>
    obtain ⟨first, _, rfl, -, _, _, rfl, commas, last, _, rfl, -, rfl⟩ := derives
    obtain ⟨comma, rest, rfl, kind, -⟩ := List.map_eq_cons_iff.1 commas
    refine ⟨first, comma, rest ++ [last], rfl, fun operator => ?_⟩
    rw [kind] at operator
    cases operator
  | symbol token text =>
    obtain ⟨symbol, first, _, rfl, -, _, _, rfl, ⟨gap, rfl⟩, last, _, rfl, -, rfl⟩ := derives
    refine ⟨first, ⟨token, text, gap⟩, [last], rfl, fun operator => ?_⟩
    change token.isVariableOperator = true at operator
    cases token <;> cases symbol <;> cases operator
  | parenthesized inner =>
    obtain ⟨first, _, rfl, -, content, rest, rfl, derives, -⟩ := derives
    exact inside derives
  | tuple one other others =>
    obtain ⟨first, _, rfl, -, _, rest, rfl, ⟨content, more, rfl, derives, -⟩, -⟩ := derives
    rw [List.append_assoc]
    exact inside derives
  | _ => exact absurd derives (headed (by decide))

theorem PatternForm.opens {form : PatternForm} (derives : form.Derives words)
    (opening : aheadOf words = .openParen) :
    ∃ first second more, words = first :: second :: more ∧
      (second.token.isVariableOperator = true →
        ∃ third others, more = third :: others ∧ third.token ≠ .closeParen) := by
  have leading : ∀ {operand : PatternOperand} {front rest : List Word}, operand.Derives front →
      aheadOf (front ++ rest) = .openParen → ∃ first second more,
        front ++ rest = first :: second :: more ∧ (second.token.isVariableOperator = true →
          ∃ third others, more = third :: others ∧ third.token ≠ .closeParen) := by
    intro operand front rest derives opening
    cases operand with
    | negative token text =>
      obtain ⟨-, sign, own, rfl, minus, -⟩ := derives
      cases minus.symm.trans opening
    | applied function atoms =>
      obtain ⟨-, own, others, rfl, derives, -⟩ := derives
      obtain ⟨word, behind, split, -⟩ := function.head derives
      obtain ⟨first, second, more, rfl, alone⟩ :=
        function.opens derives (by rw [split] at opening ⊢; exact opening)
      refine ⟨first, second, more ++ others ++ rest, by simp, fun operator => ?_⟩
      obtain ⟨third, last, rfl, other⟩ := alone operator
      exact ⟨third, last ++ others ++ rest, by simp, other⟩
  cases form with
  | operand only =>
    rw [← List.append_nil words] at opening ⊢
    exact leading derives opening
  | binary left operator right =>
    obtain ⟨front, back, rfl, derives, -⟩ := derives
    exact leading derives opening

/-- No operator stands alone in parentheses where a pattern starts. -/
theorem PatternForm.parses_unoperated {form : PatternForm} (derives : form.Derives words)
    (opening : aheadOf words = .openParen) :
    Parses file source room (words ++ later) parenthesizedOperatorFollows (words ++ later)
      (· = false) := by
  obtain ⟨first, second, more, rfl, alone⟩ := form.opens derives opening
  refine Parses.decided parses_next ?_
  by_cases operator : second.token.isVariableOperator = true
  · obtain ⟨third, others, rfl, other⟩ := alone operator
    rw [if_pos operator]
    exact Parses.decided parses_secondNext (Parses.pure (decide_eq_false other))
  · rw [if_neg operator]
    exact Parses.pure rfl

theorem PatternForm.parses_bindingDecl {inner : Level} {form : PatternForm} {holds : Decl → Prop}
    (derives : form.Derives words) (other : aheadOf words ≠ .identifier)
    (reads : ∀ start, Parses file source room (words ++ later)
      (do
        let pattern ← inner.pattern
        declAfterPattern inner start pattern) final holds) :
    Parses file source room (words ++ later) (bindingDecl inner) final holds := by
  obtain ⟨word, rest, rfl, starts⟩ := form.head derives
  have known : aheadOf (word :: rest) = word.token := rfl
  have unoperated := @PatternForm.parses_unoperated file source room (word :: rest) later form derives
  rw [known] at other unoperated
  refine Parses.start fun start => Parses.ahead (show aheadOf _ = word.token from rfl) ?_
  generalize word.token = token at starts other unoperated
  cases token <;> first
    | exact reads start
    | exact absurd rfl other
    | exact absurd starts (by decide)
    | skip
  refine Parses.decided (unoperated rfl) ?_
  rw [if_neg Bool.false_ne_true]
  exact reads start

/-- A pattern that starts with a variable starts with it alone or with one that has an at sign. -/
theorem PatternOperand.exists_variable {operand : PatternOperand} (derives : operand.Derives words)
    (identifier : aheadOf words = .identifier) :
    (∃ text, operand = .applied (.named text) []) ∨
      ∃ text atom, operand = .applied (.aliased text atom) [] := by
  cases operand with
  | negative token text =>
    obtain ⟨-, sign, own, rfl, minus, -⟩ := derives
    cases minus.symm.trans identifier
  | applied function atoms =>
    obtain ⟨takes, own, rest, rfl, derives, -⟩ := derives
    obtain ⟨word, behind, split, -⟩ := function.head derives
    have ahead : aheadOf own = .identifier := by rw [split] at identifier ⊢; exact identifier
    have headed : ∀ {first later}, first ≠ .identifier → ¬Heads first later own := by
      rintro first later other ⟨word, rest, rfl, kind, -⟩
      exact other (kind.symm.trans ahead)
    cases function with
    | named text => exact .inl ⟨text, by simpa [PatternAtom.takesArguments] using takes⟩
    | aliased text atom => exact .inr ⟨text, atom, by simpa [PatternAtom.takesArguments] using takes⟩
    | constructor name =>
      obtain ⟨word, rest, rfl, kind⟩ := name.head derives.1 derives.2
      cases kind.symm.trans ahead
    | literal token text =>
      obtain ⟨known, gap, rfl⟩ := derives
      rw [show token = .identifier from ahead] at known
      cases known
    | symbol token text => exact absurd derives.2 (headed (by decide))
    | _ => exact absurd derives (headed (by decide))

theorem derives_variable {text : List Char}
    (derives : (PatternOperand.applied (.named text) []).Derives words) :
    ∃ gap, words = [⟨.identifier, text, gap⟩] := by
  obtain ⟨-, _, _, rfl, ⟨gap, rfl⟩, rfl⟩ := derives
  exact ⟨gap, rfl⟩

theorem derives_alias {text : List Char} {atom : PatternAtom}
    (derives : (PatternOperand.applied (.aliased text atom) []).Derives words) :
    ∃ gap sign own, words = ⟨.identifier, text, gap⟩ :: sign :: own ∧ sign.token = .atSign ∧
      atom.Derives own := by
  obtain ⟨-, _, _, rfl, ⟨gap, _, rfl, sign, own, rfl, kind, derives⟩, rfl⟩ := derives
  exact ⟨gap, sign, own, by simp, kind, derives⟩

section Declared

variable {form : PatternForm} {sign : Word} {behind : List Word}
  (shallow : form.nesting < further + 1) (derives : form.Derives words)
  (equals : sign.token = .equals) (closes : aheadOf later = .closeBrace)
  (reads : Parses file source (further + 1) behind (level (further + 1)).expression later
    fun _ => True)

include shallow derives equals closes reads

theorem PatternForm.parses_declared_named {text : List Char}
    (named : form.leading = .applied (.named text) []) (plain : leadsQualified words = false) :
    Parses file source (further + 1) (words ++ sign :: behind) (bindingDecl (level (further + 1)))
      later (form.IsDeclared file source) := by
  have ends : endsPattern (aheadOf (sign :: behind)) = true := by rw [aheadOf, equals]; rfl
  cases form with
  | operand only =>
    obtain rfl : only = .applied (.named text) [] := named
    obtain ⟨gap, rfl⟩ := derives_variable derives
    refine (parses_variableBinding text gap equals closes reads).mono ?_
    rintro _ ⟨name, expr, right, span, rfl, -, -⟩
    exact .inl ⟨text, name, expr, right, span, rfl, rfl⟩
  | binary left operator right =>
    obtain rfl : left = .applied (.named text) [] := named
    obtain ⟨front, _, rfl, leads, between, back, rfl, operates, following⟩ := derives
    obtain ⟨gap, rfl⟩ := derives_variable leads
    rw [PatternForm.nesting] at shallow
    have unqualified : ∀ name, operator = .symbol name → name.qualifiers = [] := by
      rintro name rfl
      rcases name.symbol_cases operates.1 operates.2 with ⟨none, -⟩ | ⟨qualifier, dot, gap, -, rfl⟩
      · exact none
      · cases plain
    have behindIt := @endsOperand_of_operator between (back ++ sign :: behind) operator operates
    rw [List.cons_append, List.nil_append, List.cons_append, List.append_assoc]
    refine parses_declAfterVariable equals closes ⟨operator.ahead_ne operates rfl (by decide)
      (by decide), operator.ahead_ne operates rfl (by decide) (by decide)⟩
      (fun _ same => by cases same) (parses_continues_operator operates unqualified) ?_ reads
    intro start name part
    have plain : Parses file source (further + 1) (between ++ (back ++ sign :: behind))
        (aliasAfter (level (further + 1)).patternAtom start name)
        (between ++ (back ++ sign :: behind)) (· = .identifier name) :=
      Parses.unlessAccepted (by decide) behindIt.follows.unaliased (Parses.pure rfl)
    exact Parses.decided plain (parses_patternAfter (by omega) operates following ends
      ⟨name, rfl, part⟩)

theorem PatternForm.parses_declared_aliased {text : List Char} {atom : PatternAtom}
    (aliased : form.leading = .applied (.aliased text atom) []) :
    Parses file source (further + 1) (words ++ sign :: behind) (bindingDecl (level (further + 1)))
      later (form.IsDeclared file source) := by
  have ends : endsPattern (aheadOf (sign :: behind)) = true := by rw [aheadOf, equals]; rfl
  have within : atom.nesting ≤ further := by
    have leading : form.leading.nesting ≤ form.nesting := by
      cases form with
      | operand only => exact Nat.le_refl _
      | binary left operator right => exact Nat.le_max_left _ _
    rw [aliased, PatternOperand.nesting, PatternAtom.nesting] at leading
    omega
  have apart : ∀ text, form ≠ .lone text := by
    rintro text rfl
    cases aliased
  obtain ⟨front, back, rfl, leads, endsFront, after⟩ :=
    @PatternForm.parses_after file source further words (sign :: behind) form shallow derives ends
  rw [aliased] at leads after
  obtain ⟨gap, mark, own, rfl, kind, derivesAtom⟩ := derives_alias leads
  have read := atom.isRead file source within own (back ++ sign :: behind) derivesAtom endsFront.follows
  have ahead : aheadOf (mark :: (own ++ (back ++ sign :: behind))) = .atSign := kind
  have continues : Parses file source (further + 1) (mark :: (own ++ (back ++ sign :: behind)))
      patternContinues (mark :: (own ++ (back ++ sign :: behind))) (· = true) := by
    refine Parses.ahead ahead ?_
    rw [if_pos (Or.inl rfl)]
    exact Parses.pure rfl
  have declared : Parses file source (further + 1)
      (⟨.identifier, text, gap⟩ :: mark :: (own ++ (back ++ sign :: behind)))
      (bindingDecl (level (further + 1))) later (form.IsDeclared file source) := by
    refine parses_declAfterVariable equals closes (by rw [ahead]; decide) apart continues ?_ reads
    intro start name part
    have names : Parses file source (further + 1) (mark :: (own ++ (back ++ sign :: behind)))
        (aliasAfter (level (further + 1)).patternAtom start name) (back ++ sign :: behind)
        ((PatternOperand.applied (.aliased text atom) []).Matches file source) :=
      Parses.whenAccepted (by decide) kind ((parses_nested read).bind fun inner matched =>
        Parses.spanFrom fun span => Parses.pure ⟨name, inner, span, rfl, part, matched⟩)
    exact names.bind fun pattern matched => after start pattern matched
  simpa only [List.cons_append, List.append_assoc] using declared

theorem PatternForm.parses_declared (plain : leadsQualified words = false) :
    Parses file source (further + 1) (words ++ sign :: behind) (bindingDecl (level (further + 1)))
      later (form.IsDeclared file source) := by
  by_cases identifier : aheadOf words = .identifier
  · have leads : ∃ front rest, words = front ++ rest ∧ form.leading.Derives front := by
      cases form with
      | operand only => exact ⟨words, [], (List.append_nil _).symm, derives⟩
      | binary left operator right =>
        obtain ⟨front, rest, split, derives, -⟩ := derives
        exact ⟨front, rest, split, derives⟩
    obtain ⟨front, rest, split, leads⟩ := leads
    have ahead : aheadOf front = .identifier := by
      obtain ⟨word, more, rfl, -⟩ := form.leading.head leads
      rw [split] at identifier
      exact identifier
    rcases form.leading.exists_variable leads ahead with ⟨text, named⟩ | ⟨text, atom, aliased⟩
    · exact form.parses_declared_named shallow derives equals closes reads named plain
    · exact form.parses_declared_aliased shallow derives equals closes reads aliased
  · refine form.parses_bindingDecl derives identifier fun start => ?_
    have ends : endsPattern (aheadOf (sign :: behind)) = true := by rw [aheadOf, equals]; rfl
    refine (form.isRead file source shallow words _ derives ends).bind fun pattern matched => ?_
    refine parses_declAfterPattern equals closes reads fun body right span => ?_
    refine .inr ⟨pattern, body, right, span, ?_, rfl, matched⟩
    rintro text rfl
    obtain ⟨gap, rfl⟩ := derives_variable derives
    exact identifier rfl

end Declared

theorem PatternForm.parses_topDecl {form : PatternForm} {holds : Decl → Prop}
    (derives : form.Derives words)
    (binds : Parses file source room (words ++ later) (bindingDecl outermost) final holds) :
    Parses file source room (words ++ later) topDecl final holds := by
  obtain ⟨word, rest, rfl, starts⟩ := form.head derives
  have ahead : aheadOf (word :: rest ++ later) = word.token := rfl
  generalize word.token = token at starts ahead
  have declares : Parses file source room (word :: rest ++ later) (decl outermost) final holds := by
    refine Parses.ahead ahead ?_
    cases token <;> first | exact binds | (rcases starts with atom | minus <;> contradiction)
  refine Parses.ahead ahead ?_
  cases token <;> first | exact declares | (rcases starts with atom | minus <;> contradiction)

end Declarations

end Offside.Haskell.Core
