import Offside.Proofs.Rendering.Brackets

/-!
Parsing inverts the written form. A binding of one line with a core expression on its right is read
without a report into one declaration, whose body has the shape of the tree and whose spans cut the texts
of the tree out of the source.
-/

namespace Offside.Haskell.Core

set_option autoImplicit false

open Offside.Lexical Offside.Parser Offside.Parse Offside.Haskell.Grammar

section Declarations

variable {file : FileId} {source : List Char} {room : Nat} {words later : List Word}

theorem parses_skipAll {token : Token} (other : aheadOf words ≠ token) :
    Parses file source room words (Parse.skipAll token) words fun _ => True := by
  intro parser facing
  have same : (Parse.skipAll token parser).2 = parser := by
    change parser.skipAll token = parser
    rw [Parser.skipAll]
    split
    · rfl
    · rw [if_neg (by rwa [facing.ahead])]
  rw [same]
  exact ⟨trivial, Advances.refl facing⟩

theorem parses_quotedFollows {token : Token} (other : aheadOf words ≠ .backtick) :
    Parses file source room words (quotedFollows token) words (· = false) :=
  Parses.unlessAt other (Parses.pure rfl)

theorem parses_patternContinues (equals : aheadOf words = .equals) :
    Parses file source room words patternContinues words (· = false) :=
  Parses.ahead equals (parses_quotedFollows (by simp [equals]))

theorem parses_no_variableOperator (equals : aheadOf words = .equals) :
    Parses file source room words variableOperator? words (· = none) :=
  Parses.ahead equals (Parses.decided (parses_quotedFollows (by simp [equals])) (Parses.pure rfl))

theorem parses_no_patternAtoms {inner : Level} (equals : aheadOf words = .equals) :
    Parses file source room words (patternAtoms inner) words (· = []) :=
  parses_many_stop (Parses.ahead equals (Parses.pure rfl))

theorem parses_no_whereDecls {inner : Level} (closes : aheadOf words = .closeBrace) :
    Parses file source room words (whereDecls? inner) words (· = []) :=
  Parses.unlessAccepted (by decide) (by simp [closes]) (Parses.pure rfl)

/-- An expression behind a separator is a right-hand side where the block of its item ends. -/
theorem parses_rightSide {inner : Level} {before : List Word} {word : Word} {body : Expr → Prop}
    (separates : word.token ≠ .pipe) (written : word.token ≠ .endOfInput)
    (closes : aheadOf later = .closeBrace)
    (reads : Parses file source room before inner.expression later body) :
    Parses file source room (word :: before) (rightSide inner word.token) later fun right =>
      ∃ expr span, right = ⟨.plain expr, [], span⟩ ∧ body expr := by
  refine Parses.start fun start => ?_
  refine Parses.unlessAt separates (Parses.whenAccepted written rfl ?_)
  refine reads.bind fun expr held => Parses.decided (parses_no_whereDecls closes) ?_
  exact Parses.spanFrom fun span => Parses.pure ⟨expr, span, rfl, held⟩

/-- The words of a binding: a variable, the sign, and an expression. -/
def bindingWords (spacing : Spacing) (tree : Chain) : List Word :=
  ⟨.identifier, ['x'], false⟩ :: .fixed .equals true :: tree.words spacing true

def BindsTo (file : FileId) (source : List Char) (body : Expr → Prop) (decl : Decl) : Prop :=
  ∃ name expr right span, decl = .function (.simple name) [] false ⟨.plain expr, [], right⟩ span ∧
    name.Shows file source ['x'] ∧ body expr

/-- A declaration that binds the variable to an expression of the shape of a tree. -/
def Binds (file : FileId) (source : List Char) (tree : Chain) (decl : Decl) : Prop :=
  ∃ name body right span, decl = .function (.simple name) [] false ⟨.plain body, [], right⟩ span ∧
    name.Shows file source ['x'] ∧ tree.Matches (Span.Shows file source) body

theorem parses_variableBinding {inner : Level} {before : List Word} {sign : Word}
    {body : Expr → Prop} (text : List Char) (gap : Bool) (equals : sign.token = .equals)
    (closes : aheadOf later = .closeBrace)
    (reads : Parses file source room before inner.expression later body) :
    Parses file source room (⟨.identifier, text, gap⟩ :: sign :: before) (bindingDecl inner) later
      fun decl => ∃ name expr right span,
        decl = .function (.simple name) [] false ⟨.plain expr, [], right⟩ span ∧
          name.Shows file source text ∧ body expr := by
  have ahead : aheadOf (sign :: before) = .equals := equals
  have right := parses_rightSide (by rw [equals]; decide) (by rw [equals]; decide) closes reads
  rw [equals] at right
  refine Parses.start fun start => Parses.ahead rfl ?_
  refine (parses_nameAt (by decide) text gap).bind ?_
  rintro _ ⟨name, rfl, shows⟩
  refine Parses.decided (parses_isAt .comma) (Parses.decided (parses_isAt .doubleColon) ?_)
  rw [if_neg (by simp [ahead])]
  refine Parses.decided (parses_patternContinues ahead) ?_
  refine Parses.decided (parses_no_variableOperator ahead) ?_
  refine Parses.decided (parses_no_patternAtoms ahead) ?_
  refine right.bind ?_
  rintro _ ⟨expr, right, rfl, held⟩
  exact Parses.spanFrom fun span => Parses.pure ⟨name, expr, right, span, rfl, shows, held⟩

theorem parses_binding {inner : Level} {before : List Word} {body : Expr → Prop} {gap : Bool}
    (closes : aheadOf later = .closeBrace)
    (reads : Parses file source room before inner.expression later body) :
    Parses file source room (⟨.identifier, ['x'], gap⟩ :: .fixed .equals true :: before)
      (bindingDecl inner) later (BindsTo file source body) :=
  parses_variableBinding ['x'] gap rfl closes reads

theorem parses_topDecl {spacing : Spacing} {tree : Chain} (shallow : tree.nesting ≤ 30) :
    Parses file source nestingLimit (bindingWords spacing tree ++ [.silent .closeBrace]) topDecl
      [.silent .closeBrace] (Binds file source tree) := by
  have read : tree.IsRead spacing file source 63 := tree.isRead spacing file source (by omega)
  exact Parses.ahead rfl (Parses.ahead rfl (parses_binding rfl (Chain.parses_expression read true rfl)))

theorem parses_itemThenEnd {α : Type} {item : Parse α} {before : List Word} {closing : Word}
    {holds : α → Prop} (closes : closing.token = .closeBrace)
    (parses : Parses file source room before item (closing :: later) holds) :
    Parses file source room before (itemThenEnd item) (closing :: later) holds := by
  refine parses.bind fun value held => ?_
  have ended : Parses file source room (closing :: later) endOfItem (closing :: later)
      fun _ => True :=
    Parses.ahead closes (parses_skipAll (by simp [aheadOf, closes]))
  exact ended.bind fun _ _ => Parses.pure held

/-- A token that neither closes a block nor starts an import. -/
def startsItem (token : Token) : Bool :=
  token != .closeBrace && token != .endOfInput && token != .kwImport

/-- The only item of a block. -/
theorem parses_onlyItem {α : Type} {item : Parse α} {before : List Word} {closing : Word}
    {holds : α → Prop} (closes : closing.token = .closeBrace)
    (starts : startsItem (aheadOf before) = true)
    (fewer : (closing :: later).length < before.length)
    (parses : Parses file source room before item (closing :: later) holds) :
    Parses file source room before (many itemFollows (itemThenEnd item)) (closing :: later)
      fun items => ∃ value, items = [value] ∧ holds value := by
  have goes : Parses file source room before itemFollows before (· = true) := by
    refine Parses.ahead rfl ?_
    generalize aheadOf before = token at starts
    cases token <;> first | exact Parses.pure rfl | cases starts
  have stops : Parses file source room (closing :: later) itemFollows (closing :: later)
      (· = false) := Parses.ahead closes (Parses.pure rfl)
  refine (parses_many_step goes (parses_itemThenEnd closes parses) fewer
    (parses_many_stop stops)).mono ?_
  rintro _ ⟨value, _, rfl, held, rfl⟩
  exact ⟨value, rfl, held⟩

theorem parses_block {α : Type} {item : Parse α} {before : List Word} {opening closing : Word}
    {holds : α → Prop} (opens : opening.token = .openBrace) (closes : closing.token = .closeBrace)
    (starts : startsItem (aheadOf before) = true)
    (fewer : (closing :: later).length < before.length)
    (parses : Parses file source room before item (closing :: later) holds) :
    Parses file source room (opening :: before) (block item) later
      fun items => ∃ value, items = [value] ∧ holds value := by
  refine Parses.decided (parses_expect (by decide) opens) ?_
  rw [if_pos rfl]
  refine (parses_onlyItem closes starts fewer parses).bind ?_
  rintro _ ⟨value, rfl, held⟩
  exact Parses.decided (parses_expectOrSkipTo (by decide) closes) (Parses.pure ⟨value, rfl, held⟩)

theorem parses_skipToEnd : Parses file source room [] skipToEnd [] fun _ => True := by
  have ended : Parses file source room [] Parse.isAtEnd [] (· = true) :=
    fun parser facing => ⟨decide_eq_true facing.ahead, Advances.refl facing⟩
  exact Parses.decided ended (Parses.pure trivial)

theorem parses_onlyDecl {before : List Word} {opening closing : Word} {holds : Decl → Prop}
    (opens : opening.token = .openBrace) (closes : closing.token = .closeBrace)
    (starts : startsItem (aheadOf before) = true) (fewer : [closing].length < before.length)
    (parses : Parses file source nestingLimit before topDecl [closing] holds) :
    Parses file source nestingLimit (opening :: before) program []
      fun program => ∃ decl span, program = ⟨[decl], span⟩ ∧ holds decl := by
  have noImport : aheadOf before ≠ .kwImport := by
    intro same
    rw [same] at starts
    cases starts
  have noHeader : Parses file source nestingLimit (opening :: before) moduleHeader?
      (opening :: before) (· = []) :=
    Parses.unlessAt (by simp [aheadOf, opens]) (Parses.pure rfl)
  have body : Parses file source nestingLimit (opening :: before) moduleBody? []
      fun decls => ∃ decl, decls = [decl] ∧ holds decl := by
    have imports : Parses file source nestingLimit before (isAt .kwImport) before (· = false) :=
      (parses_isAt .kwImport).mono fun _ same => by rw [same, decide_eq_false noImport]
    refine Parses.whenAt opens (Parses.consume (Parses.decided (parses_many_stop imports) ?_))
    refine (parses_onlyItem closes starts fewer parses).bind ?_
    rintro _ ⟨decl, rfl, held⟩
    exact Parses.decided (parses_expectOrSkipTo (by decide) closes) (Parses.pure ⟨decl, rfl, held⟩)
  refine Parses.start fun start => Parses.decided noHeader (body.bind ?_)
  rintro _ ⟨decl, rfl, held⟩
  exact parses_skipToEnd.bind fun _ _ =>
    Parses.spanFrom fun span => Parses.pure ⟨decl, span, rfl, held⟩

theorem parses_program {spacing : Spacing} {tree : Chain} (shallow : tree.nesting ≤ 30) :
    Parses file source nestingLimit
      (.silent .openBrace :: (bindingWords spacing tree ++ [.silent .closeBrace])) program []
      fun program => ∃ decl span, program = ⟨[decl], span⟩ ∧ Binds file source tree decl :=
  parses_onlyDecl rfl rfl rfl (by simp [bindingWords]) (parses_topDecl shallow)

end Declarations

/-! A text as a whole. -/

theorem legible_shown {proper : Bool} {words : List Word} (legible : Legible proper words) :
    ∀ word ∈ words, isWordToken word.token = true := by
  induction legible with
  | nil => simp
  | cons shown starts takes rest induction => exact List.forall_mem_cons.2 ⟨shown, induction⟩

theorem marks_tokens {file : FileId} {source : List Char} {place : Position} {words : List Word}
    {tokens : List (Token × Span)} (marks : Marks file source place words tokens) :
    tokens.map Prod.fst = words.map Word.token := by
  induction marks with
  | nil => rfl
  | cons shows near later induction => rw [List.map_cons, List.map_cons, induction]

theorem legible_binding (spacing : Spacing) (tree : Chain) :
    Legible false (bindingWords spacing tree) := by
  have nothing : Parted [] := ⟨⟨rfl, rfl⟩, .nil⟩
  have body : Legible false (tree.words spacing true ++ []) := tree.legible spacing nothing rfl
  rw [List.append_nil] at body
  have blank : Word.textOf (tree.words spacing true) = ' ' :: tree.render spacing :=
    tree.textOf_words spacing true
  have spelled : isVariableText ['x'] = true := by decide +kernel
  refine .cons rfl rfl (takes_variable false spelled rfl) ?_
  refine .cons rfl rfl ?_ body
  exact @takes_symbols ['='] _ (by decide) (by rw [blank]; rfl)

/-- A stream of shown tokens and the end of input is shown as it is. -/
theorem rest_start {stream : TokenStream} {tokens : List (Token × Span)} {finish : Span}
    (items : stream.items.map Lexed.located = tokens ++ [(.endOfInput, finish)])
    (shown : ∀ found ∈ tokens, isWordToken found.1 = true) (context : Context) :
    (Parser.start stream context).rest = tokens := by
  have visible : stream.visible = tokens ++ [(.endOfInput, finish)] := by
    have kept : (tokens ++ [(Token.endOfInput, finish)]).filter (fun found => found.1 != .comment) =
        tokens ++ [(.endOfInput, finish)] := by
      rw [List.filter_eq_self]
      intro found member
      rcases List.mem_append.1 member with among | last
      · exact (Bool.and_eq_true _ _ ▸ shown found among).1
      · rw [List.mem_singleton.1 last]
        rfl
    rw [← items, List.filter_map] at kept
    rw [← items, ← kept]
    rfl
  refine (takeWhile_pullFrom stream context).symm.trans ?_
  rw [visible, List.takeWhile_append_of_pos fun found member =>
    (Bool.and_eq_true _ _ ▸ shown found member).2]
  simp [isInner]

theorem facing_start {word : Word} {words : List Word} (close : word.gap = false)
    (legible : Legible false (word :: words)) (term : word.IsTerm true)
    (braced : Braced 0 words) (context : Context) :
    let source := Word.textOf (word :: words)
    Facing context.file source nestingLimit
      (.silent .openBrace :: (word :: words ++ [.silent .closeBrace]))
      (Parser.start (reader.stream context.file source) context) ∧
      (Parser.start (reader.stream context.file source) context).context.diagnostics =
        context.diagnostics := by
  intro source
  obtain ⟨tokens, finish, items, marks, quiet⟩ := stream_words close legible term braced context.file
  have shown : ∀ found ∈ tokens, isWordToken found.1 = true := by
    intro found member
    have among := List.mem_map_of_mem (f := Prod.fst) member
    rw [marks_tokens marks] at among
    obtain ⟨other, written, same⟩ := List.mem_map.1 among
    rw [← same]
    rcases List.mem_cons.1 written with rfl | written
    · rfl
    rcases List.mem_append.1 written with written | last
    · exact legible_shown legible other written
    · rw [List.mem_singleton.1 last]
      rfl
  have pulled := quiet_pullFrom quiet context
  exact
    ⟨{ marks := ⟨.origin, by rw [rest_start items shown]; exact marks⟩
       closed := fun last member => by
         rw [← List.cons_append, List.getLast?_concat] at member
         cases member
         rfl
       room := Nat.le_of_eq (Nat.zero_add _)
       quiet := pulled.1 }, pulled.2⟩

/-- What is read of the words of a text is what parsing the text gives. -/
theorem parseText_of_parses {source : List Char} {word : Word} {words : List Word}
    (written : Word.textOf (word :: words) = source) (close : word.gap = false)
    (legible : Legible false (word :: words)) (term : word.IsTerm true) (braced : Braced 0 words)
    {context : Context} {holds : Program → Prop}
    (parses : Parses context.file source nestingLimit
      (.silent .openBrace :: (word :: words ++ [.silent .closeBrace])) program [] holds) :
    ∃ found, (parseText source context).1 = some found ∧ holds found ∧
      (parseText source context).2.diagnostics = context.diagnostics := by
  obtain ⟨facing, diagnostics⟩ := facing_start close legible term braced context
  rw [written] at facing diagnostics
  obtain ⟨held, advances⟩ := parses _ facing
  have known : parseText source context =
      (some (program (Parser.start (reader.stream context.file source) context)).1,
        { (program (Parser.start (reader.stream context.file source) context)).2.context with
          program := none }) := by
    rw [parseText, parseTokens, if_neg (by rw [facing.inner]; exact Bool.false_ne_true)]
    rfl
  rw [known]
  exact ⟨_, rfl, held, advances.diagnostics.trans diagnostics⟩

/-- A binding of one line is parsed into one declaration for its tree, and nothing is reported. -/
theorem parse_render (spacing : Spacing) (tree : Chain) (shallow : tree.nesting ≤ 30)
    (context : Context) :
    let source := "x = ".toList ++ tree.render spacing
    (∃ decl span, (parseText source context).1 = some ⟨[decl], span⟩ ∧
      Binds context.file source tree decl) ∧
      (parseText source context).2.diagnostics = context.diagnostics := by
  intro source
  have written : Word.textOf (bindingWords spacing tree) = source := by
    simp [bindingWords, blankIf, tree.textOf_words, Word.fixed, Token.display, Token.names,
      source]
  have braced : Braced 0 (.fixed .equals true :: tree.words spacing true ++ []) :=
    .term (fixed_isTerm (by decide) rfl true true) (.terms (tree.areTerms spacing true) .nil)
  rw [List.append_nil] at braced
  obtain ⟨_, read, ⟨decl, span, rfl, binds⟩, diagnostics⟩ :=
    parseText_of_parses written rfl (legible_binding spacing tree) ⟨rfl, by decide⟩ braced
      (@parses_program context.file source spacing tree shallow)
  exact ⟨⟨decl, span, read, binds⟩, diagnostics⟩

/-! A tree in which a dot composes in one place and qualifies in another, with an operator that the
arguments before it take along, a section and a negated element. -/

def variableF : Identifier := ⟨[], "f".toList, by decide +kernel⟩

def moduleM : Spelling isConstructorText := ⟨"M".toList, by decide +kernel⟩

def composition : Operator := ⟨[], ⟨".".toList, by decide +kernel⟩, Or.inl rfl⟩

def qualifiedSum : Operator := ⟨[moduleM], ⟨"+".toList, by decide +kernel⟩, Or.inr (by decide)⟩

def mixedTree : Chain :=
  .binary
    (.binary
      (.operand (.applied (.name variableF)
        [.rightSection (.quoted variableF) rfl (.operand (.applied (.name variableF) []))]))
      (.symbol qualifiedSum)
      (.applied (.name ⟨[moduleM], variableF.last⟩) [.list (.operand (.negated .unit [])) []]))
    (.symbol composition)
    (.applied (.operator qualifiedSum) [.name ⟨[], "N".toList, by decide +kernel⟩])

theorem parse_render_mixedTree :
    let source := "x = f (\x60f\x60 f) M.+ M.f [- ()] . (M.+) N".toList
    mixedTree.nesting ≤ 30 ∧
      (∃ decl span, (parseText source {}).1 = some ⟨[decl], span⟩ ∧
        Binds .single source mixedTree decl) ∧
      (parseText source {}).2.diagnostics = #[] := by
  intro source
  have shallow : mixedTree.nesting ≤ 30 := by decide
  have written : "x = ".toList ++ mixedTree.render ⟨true, true⟩ = source := by decide
  have parsed := parse_render ⟨true, true⟩ mixedTree shallow {}
  rw [written] at parsed
  exact ⟨shallow, parsed⟩

end Offside.Haskell.Core
