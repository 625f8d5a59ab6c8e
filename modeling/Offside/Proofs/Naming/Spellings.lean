import Offside.Proofs.Extents.Programs
import Offside.Proofs.Literals.Whole
import Offside.Proofs.Parser.Intake

/-!
Names keep their spelling. After a text was parsed, the spelling that the context has for a name is the
text where the name stands, whatever the text and however the name was read. A constructor written with
brackets has none, and the spelling of a qualified name is that of its segments with dots between; in
types and expressions this is the text over which the name reaches, since its parts touch.
-/

namespace Offside

set_option autoImplicit false

open Offside.Lexical

variable {source : List Char} {context : Context}

/-- From one place of a text to another a stretch of the text is read. -/
def Position.Spans (source : List Char) (start stop : Position) (text : List Char) : Prop :=
  ∃ (cursor : Cursor) (width : Nat), cursor.Stands source ∧ cursor.position = start ∧
    (cursor.skip width).position = stop ∧ cursor.ahead.take width = text

namespace Position.Spans

variable {start middle stop : Position} {front back : List Char}

theorem slice? (spans : Spans source start stop front) (file : FileId) :
    (⟨file, start, stop⟩ : Span).slice? source = some front := by
  obtain ⟨cursor, width, stands, rfl, rfl, rfl⟩ := spans
  exact stands.slice?_ahead file width

theorem append (spans : Spans source start middle front) (onwards : Spans source middle stop back) :
    Spans source start stop (front ++ back) := by
  obtain ⟨cursor, width, stands, rfl, rfl, rfl⟩ := spans
  obtain ⟨other, further, standsToo, here, rfl, rfl⟩ := onwards
  have same : other.ahead = (cursor.skip width).ahead :=
    standsToo.ahead_eq (stands.skip width) here
  refine ⟨cursor, width + further, stands, rfl, ?_, ?_⟩
  · rw [Cursor.skip_add, Cursor.position_skip further other, Cursor.position_skip further, here, same]
  · rw [List.take_add, same, Cursor.ahead_skip]

end Position.Spans

namespace Haskell

variable {text : List Char} {afterProper : Bool}

/-- An operator is read as a run of symbols, or it is the dot of a qualified operator. -/
theorem operator_of_scan (operator : (scan afterProper text).token.isOperator = true) :
    scan afterProper text = scanOperator text ∨
      scan afterProper text = { token := .dot, width := 1 } ∧ leads (· == '.') text = true := by
  have scanned := scan_scanned afterProper text
  generalize scan afterProper text = found at scanned operator ⊢
  cases scanned with
  | operator => exact .inl rfl
  | qualifyingDot => exact .inr ⟨rfl, rfl⟩
  | delimiter rest spelled =>
    exact absurd operator
      (Token.forall_of_spelled? (¬·.isOperator = true) (by decide) spelled)
  | @number first rest =>
    rcases scanNumber_kind (first :: rest) with kind | kind <;>
      rw [kind] at operator <;> cases operator
  | word =>
    exact absurd operator
      (scanVariable_token (¬·.isOperator = true) (by decide) (by decide) (by decide) _)
  | ended | blockComment | lineComment | string | character | properWord | unknown => cases operator

theorem take_of_dot (dot : (scan afterProper text).token = .dot) :
    text.take (scan afterProper text).width = ['.'] := by
  rcases operator_of_scan (congrArg Token.isOperator dot) with symbols | ⟨alone, starts⟩
  · rw [symbols] at dot ⊢
    simp only [scanOperator] at dot ⊢
    rw [take_takeWhile]
    cases found : Token.spelled? reservedOperators (text.takeWhile isSymbol) with
    | none =>
      rw [found, Option.getD_none] at dot
      split at dot
      · cases dot
      · cases dot
    | some token =>
      rw [found, Option.getD_some] at dot
      subst dot
      rcases Token.spells_of_spelled? reservedOperators_display found with written | ⟨other, -⟩
      · exact written
      · cases other
  · rw [alone]
    cases text with
    | nil => cases starts
    | cons first rest =>
      rw [leads] at starts
      simpa using starts

theorem leads_of_prefix {accepts : Char → Bool} {front : List Char} (starts : front <+: text)
    (leading : leads accepts front = true) : leads accepts text = true := by
  obtain ⟨rest, rfl⟩ := starts
  cases front with
  | nil => cases leading
  | cons first later => exact leading

theorem leads_of_bracket {token : Token} (bracket : token = .openParen ∨ token = .openBracket)
    (spells : token.Spells text) :
    leads (fun first => first == '(' || first == '[') text = true := by
  rcases bracket with rfl | rfl
  · rcases spells with rfl | ⟨other, -⟩
    · rfl
    · cases other
  · rcases spells with rfl | ⟨other, -⟩
    · rfl
    · cases other

theorem leads_of_constructorOperator
    (operator : (scan afterProper text).token.isConstructorOperator = true) :
    leads (· == ':') text = true := by
  have reserved : ∀ entry ∈ reservedOperators, entry.2.isConstructorOperator = true →
      entry.2 = .colon := by decide
  have either : (scan afterProper text).token.isOperator = true := by
    rw [Token.isOperator, operator, Bool.or_true]
  rcases operator_of_scan either with symbols | ⟨dot, -⟩
  · rw [symbols] at operator
    simp only [scanOperator] at operator
    apply leads_of_prefix (List.takeWhile_prefix isSymbol)
    cases found : Token.spelled? reservedOperators (text.takeWhile isSymbol) with
    | none =>
      rw [found, Option.getD_none] at operator
      split at operator
      · assumption
      · cases operator
    | some token =>
      rw [found, Option.getD_some] at operator
      obtain rfl := Token.forall_of_spelled? (fun token => token.isConstructorOperator = true → token = .colon)
        reserved found operator
      rcases Token.spells_of_spelled? reservedOperators_display found with written | ⟨other, -⟩
      · rw [written]
        rfl
      · cases other
  · rw [dot] at operator
    cases operator

end Haskell

def Span.OpensBracket (source : List Char) (span : Span) : Prop :=
  ∃ cursor : Cursor, cursor.Stands source ∧ cursor.position = span.start ∧
    leads (fun first => first == '(' || first == '[') cursor.ahead = true

namespace Context

/-- A token that has a spelling of its own is among those of a text, with some width. -/
def Shows (context : Context) (source : List Char) (found : Token × Span) : Prop :=
  Haskell.isFirm found.1 = true → found ∈ (context.lex .haskell source).1 ∧ found.2.isPoint = false

/-- A name is spelled as the text is in which it stands. -/
def Copies (context : Context) (source : List Char) (name : Name) : Prop :=
  ∃ text, name.span.slice? source = some text ∧ context.spell name = some (String.ofList text)

/-- The spelling of a name is what its kind and the text make of it. -/
def KeepsSpelling (context : Context) (source : List Char) (name : Name) : Prop :=
  match name with
  | .simple _ | .operator _ => context.Copies source name
  | .special span =>
    (span.OpensBracket source → context.spell name = none) ∧
      (¬span.OpensBracket source → context.Copies source name)
  | .qualified segments _ =>
    context.spell name = (segments.mapM context.spell).map (".".intercalate ·)
  | .error _ => context.spell name = none

end Context

namespace Haskell

theorem stream_shown (place : Nat) :
    context.Shows source ((reader.stream context.file source).shows.get place) := by
  intro firm
  refine ⟨?_, (shows_orderly context.file source).wide place firm⟩
  rw [get_shows] at firm ⊢
  by_cases inside : place < (reader.stream context.file source).visible.length
  · rw [List.getD_eq_getElem _ _ inside]
    obtain ⟨item, among, located⟩ := List.mem_map.1 (List.getElem_mem inside)
    rw [← located]
    obtain ⟨member, other⟩ := List.mem_filter.1 among
    have noComment : item.token ≠ .comment := by simpa [Lexed.isComment] using other
    exact mem_lex.2 ⟨List.mem_map_of_mem member, by simp [noComment]⟩
  · rw [List.getD_eq_default _ _ (Nat.le_of_not_lt inside)] at firm
    cases firm

section Shown

variable {token : Token} {span : Span} (shown : context.Shows source (token, span))

include shown

/-- Wherever a token is shown that ends no line it was scanned. -/
theorem scanned_of_shown (firm : isFirm token = true) (inLine : token ≠ .newline) :
    ∃ (cursor : Cursor) (afterProper : Bool), cursor.Stands source ∧
      span = spanAhead context.file cursor (scan afterProper cursor.ahead).width ∧
      token = (scan afterProper cursor.ahead).token := by
  obtain ⟨lexed, wide⟩ := shown firm
  obtain ⟨cursor, stands, -, ⟨rest, -, feed⟩ | ⟨afterProper, text, -, same, extent⟩⟩ :=
    Language.scanned_of_wide lexed wide
  · exact absurd feed inLine
  · exact ⟨cursor, afterProper, stands, extent, same⟩

/-- Of a token that is recorded the text is found where it starts. -/
theorem lexemeAt_of_shown (fresh : context.lexemes = .empty) (firm : isFirm token = true)
    {category : Lexeme.Category} (kind : Lexeme.Category.ofToken? token = some category)
    {text : List Char} (slice : span.slice? source = some text) :
    (context.lex .haskell source).2.lexemeAt span.start =
      some ⟨category, String.ofList text⟩ := by
  obtain ⟨lexed, wide⟩ := shown firm
  obtain ⟨handed, kept⟩ := mem_lex.1 lexed
  have inLine : token ≠ .newline := by
    rintro rfl
    cases kind
  have accounts := Language.stream_accounts .haskell context.file source
  obtain ⟨reading, read, same, copied, copies⟩ := accounts.copies handed wide inLine
  cases same
  cases copies.slice.symm.trans slice
  exact accounts.lexemeAt_reading fresh read copies kind kept

/-- Where a token is shown that is not recorded, nothing is. -/
theorem lexemeAt_of_unrecorded (fresh : context.lexemes = .empty) (firm : isFirm token = true)
    (unrecorded : Lexeme.Category.ofToken? token = none) :
    (context.lex .haskell source).2.lexemeAt span.start = none := by
  obtain ⟨lexed, wide⟩ := shown firm
  have accounts := Language.stream_accounts .haskell context.file source
  obtain ⟨reading, read, same⟩ :=
    List.mem_map.1 ((accounts.wide (token, span) wide).1 (mem_lex.1 lexed).1)
  cases same
  apply Option.eq_none_iff_forall_ne_some.2
  intro lexeme found
  obtain ⟨other, otherRead, otherWide, here, recorded, -⟩ :=
    accounts.reading_of_lexemeAt fresh found
  have one := Language.reading_unique read otherRead wide otherWide here.symm
  rw [← one, unrecorded] at recorded
  cases recorded

/-- A word or an operator that is shown stands for a stretch of the text and is recorded with it. -/
theorem recorded_of_shown (fresh : context.lexemes = .empty) {category : Lexeme.Category}
    (kind : Lexeme.Category.ofToken? token = some category) (firm : isFirm token = true) :
    ∃ text, Position.Spans source span.start span.stop text ∧
      (context.lex .haskell source).2.lexemeAt span.start =
        some ⟨category, String.ofList text⟩ := by
  have inLine : token ≠ .newline := by
    rintro rfl
    cases kind
  obtain ⟨cursor, afterProper, stands, extent, -⟩ := scanned_of_shown shown firm inLine
  have spans : Position.Spans source span.start span.stop
      (cursor.ahead.take (scan afterProper cursor.ahead).width) := by
    rw [extent]
    exact ⟨cursor, _, stands, rfl, rfl, rfl⟩
  exact ⟨_, spans, lexemeAt_of_shown shown fresh firm kind (spans.slice? span.file)⟩

end Shown

section Spelled

variable {after : Context} (fresh : context.lexemes = .empty)
  (alike : after.lexemes = (context.lex .haskell source).2.lexemes)

include fresh alike

omit fresh in
theorem lexemeAt_alike (place : Position) :
    after.lexemeAt place = (context.lex .haskell source).2.lexemeAt place :=
  congrArg (LexemeTable.get? · place) alike

theorem operatorAt_of_shown {token : Token} {span : Span}
    (shown : context.Shows source (token, span)) (operator : token.isOperator = true) :
    ∃ text, Position.Spans source span.start span.stop text ∧
      after.operatorAt span = some (String.ofList text) := by
  have kind : Lexeme.Category.ofToken? token = some .operator ∧ isFirm token = true := by
    cases token <;> first | exact ⟨rfl, rfl⟩ | cases operator
  obtain ⟨text, spans, recorded⟩ := recorded_of_shown shown fresh kind.1 kind.2
  refine ⟨text, spans, ?_⟩
  rw [Context.operatorAt, lexemeAt_alike alike, recorded]

theorem identifierAt_of_shown {token : Token} {span : Span}
    (shown : context.Shows source (token, span))
    (identifier : token = .identifier ∨ token = .properIdentifier) :
    ∃ text, Position.Spans source span.start span.stop text ∧
      after.identifierAt span = some (String.ofList text) := by
  have kind : Lexeme.Category.ofToken? token = some .identifier ∧ isFirm token = true := by
    rcases identifier with rfl | rfl
    · exact ⟨rfl, rfl⟩
    · exact ⟨rfl, rfl⟩
  obtain ⟨text, spans, recorded⟩ := recorded_of_shown shown fresh kind.1 kind.2
  refine ⟨text, spans, ?_⟩
  rw [Context.identifierAt, lexemeAt_alike alike, recorded]

/-- A segment that is not missing is spelled as the text is where it stands. -/
theorem spelled_of_token {name : Name} (own : name.IsToken (context.Shows source))
    (found : name.isError = false) :
    ∃ text, Position.Spans source name.span.start name.span.stop text ∧
      after.spell name = some (String.ofList text) := by
  cases name with
  | qualified segments span => exact own.elim
  | error span => cases found
  | simple span =>
    obtain ⟨token, shown, identifier⟩ := own
    obtain ⟨text, spans, spelled⟩ := identifierAt_of_shown fresh alike shown identifier
    exact ⟨text, spans, by rw [Context.spell, spelled]⟩
  | operator span =>
    obtain ⟨token, shown, operator⟩ := own
    obtain ⟨text, spans, spelled⟩ :=
      operatorAt_of_shown fresh alike shown (by rw [Token.isOperator, operator, Bool.true_or])
    exact ⟨text, spans, by rw [Context.spell, spelled]; rfl⟩
  | special span =>
    obtain ⟨token, shown, operator⟩ := own
    obtain ⟨text, spans, spelled⟩ :=
      operatorAt_of_shown fresh alike shown (by rw [Token.isOperator, operator, Bool.or_true])
    exact ⟨text, spans, by rw [Context.spell, spelled]; rfl⟩

/-- A constructor that is written with brackets starts with one and is not spelled. -/
theorem spell_bracketed {span : Span} (bracketed : span.IsBracketed (context.Shows source)) :
    span.OpensBracket source ∧ after.spell (.special span) = none := by
  obtain ⟨token, opening, shown, bracket, starts⟩ := bracketed
  have kind : isFirm token = true ∧ Lexeme.Category.ofToken? token = none ∧ token ≠ .newline ∧
      token ≠ .invalid ∧ token ≠ .endOfInput := by
    rcases bracket with rfl | rfl
    · decide
    · decide
  obtain ⟨firm, unrecorded, inLine, valid, inner⟩ := kind
  constructor
  · obtain ⟨cursor, afterProper, stands, rfl, same⟩ := scanned_of_shown shown firm inLine
    have remains : cursor.ahead ≠ [] := by
      intro ended
      rw [ended] at same
      exact inner same
    rw [same] at bracket unrecorded valid
    have spells := scan_spelled afterProper remains unrecorded valid
    refine ⟨cursor, stands, starts, ?_⟩
    exact leads_of_prefix (List.take_prefix _ cursor.ahead) (leads_of_bracket bracket spells)
  · have none := lexemeAt_of_unrecorded shown fresh firm unrecorded
    rw [starts, ← lexemeAt_alike alike] at none
    rw [Context.spell, Context.operatorAt, Context.identifierAt, none]
    rfl

omit fresh alike in
theorem spellAll_eq_mapM (segments : List Name) :
    after.spellAll segments = segments.mapM after.spell := by
  induction segments with
  | nil => rfl
  | cons name later induction =>
    rw [Context.spellAll, induction, List.mapM_cons]

omit fresh alike in
theorem spans_of_dot {span : Span} (shown : context.Shows source (.dot, span)) :
    Position.Spans source span.start span.stop ['.'] := by
  obtain ⟨cursor, afterProper, stands, rfl, same⟩ := scanned_of_shown shown rfl (by decide)
  exact ⟨cursor, _, stands, rfl, rfl, take_of_dot same.symm⟩

/-- Segments with dots between them are spelled together as the text is over which they reach. By
induction on the dots: the text of each segment and its dot goes on with that of the later ones. -/
theorem spelled_of_dotted {segments : List Name} {start stop : Position}
    (dotted : Name.Dotted (context.Shows source) segments start stop)
    (each : ∀ segment ∈ segments, segment.IsToken (context.Shows source))
    (found : ∀ segment ∈ segments, segment.isError = false) :
    ∃ texts text, Position.Spans source start stop text ∧ texts ≠ [] ∧
      segments.mapM after.spell = some texts ∧ ".".intercalate texts = String.ofList text := by
  induction dotted with
  | last name =>
    obtain ⟨text, spans, spelled⟩ := spelled_of_token fresh alike (each name List.mem_cons_self)
      (found name List.mem_cons_self)
    refine ⟨[String.ofList text], text, spans, List.cons_ne_nil _ _, ?_, String.intercalate_singleton⟩
    simp [spelled]
  | @dot name later dot stop shown touches _ induction =>
    obtain ⟨own, eachLater⟩ := List.forall_mem_cons.1 each
    obtain ⟨here, foundLater⟩ := List.forall_mem_cons.1 found
    obtain ⟨first, spans, spelled⟩ := spelled_of_token fresh alike own here
    obtain ⟨texts, text, onwards, some, all, joined⟩ := induction eachLater foundLater
    have dotSpans := spans_of_dot shown
    rw [← touches] at dotSpans
    refine ⟨String.ofList first :: texts, first ++ ['.'] ++ text,
      (spans.append dotSpans).append onwards, List.cons_ne_nil _ _, by simp [spelled, all], ?_⟩
    rw [String.intercalate_cons_of_ne_nil some, joined, String.ofList_append, String.ofList_append]

omit fresh alike in
theorem not_opensBracket {span : Span} {token : Token} (shown : context.Shows source (token, span))
    (operator : token.isConstructorOperator = true) : ¬span.OpensBracket source := by
  rintro ⟨other, standsToo, here, opens⟩
  have kind : isFirm token = true ∧ token ≠ .newline := by
    cases token <;> first | exact ⟨rfl, by decide⟩ | cases operator
  obtain ⟨cursor, afterProper, stands, rfl, same⟩ := scanned_of_shown shown kind.1 kind.2
  rw [same] at operator
  have colon := leads_of_constructorOperator operator
  rw [standsToo.ahead_eq stands here] at opens
  cases found : cursor.ahead with
  | nil =>
    rw [found] at colon
    cases colon
  | cons first rest =>
    rw [found, leads, List.head?_cons, Option.any_some] at colon opens
    obtain rfl := eq_of_beq colon
    cases opens

theorem keepsSpelling_of_written {name : Name} (written : name.Written (context.Shows source)) :
    after.KeepsSpelling source name := by
  have copied : ∀ {name : Name}, name.IsToken (context.Shows source) → name.isError = false →
      after.Copies source name := by
    intro name own found
    obtain ⟨text, spans, spelled⟩ := spelled_of_token fresh alike own found
    exact ⟨text, spans.slice? name.span.file, spelled⟩
  cases written with
  | token own =>
    cases name with
    | simple span => exact copied own rfl
    | operator span => exact copied own rfl
    | special span =>
      have ⟨token, shown, operator⟩ := own
      have closed := not_opensBracket shown operator
      exact ⟨fun opens => absurd opens closed, fun _ => copied own rfl⟩
    | error span => rw [Context.KeepsSpelling, Context.spell]
    | qualified segments span => exact own.elim
  | brackets bracketed =>
    obtain ⟨opens, unspelled⟩ := spell_bracketed fresh alike bracketed
    exact ⟨fun _ => unspelled, fun closed => absurd opens closed⟩
  | segments each => rw [Context.KeepsSpelling, Context.spell, spellAll_eq_mapM]

end Spelled

end Haskell

namespace Node

theorem Inside.child {inner child node : Node} (inside : inner.Inside node)
    (member : child ∈ inner.children) : child.Inside node := by
  induction inside with
  | refl => exact .under member (.refl child)
  | under among _ induction => exact .under among induction

def isTerm : Node → Bool
  | type _ | expr _ => true
  | _ => false

def qualified? : Node → Option (List Bool × Span)
  | .expr (.identifier (.qualified segments span)) => some (segments.map Name.isError, span)
  | _ => none

theorem linked_of_traced {known : Token × Span → Prop} {owner : Node} (kind : owner.isTerm = true)
    (traced : owner.Traced known) {found : Name} (child : name found ∈ owner.children) :
    found.Linked known := by
  cases owner with
  | type owner => cases owner <;> simp_all [Traced]
  | expr owner => cases owner <;> simp_all [Traced]
  | _ => cases kind

end Node

namespace Haskell

/-- After a text was parsed into a context without lexemes, however malformed the text is, each name of
the program is spelled as the text is where it stands: one that is written with brackets not at all, and
a qualified one as its segments are, with dots between. Where no segment of a qualified name in a type,
an expression or a pattern is missing, this is the text of the whole name. -/
theorem names_keep_spelling (source : List Char) (context : Context)
    (fresh : context.lexemes = .empty) {program : Program}
    (parsed : (parseText source context).1 = some program) :
    let after := (parseText source context).2
    (∀ name, (Node.name name).Inside (.program program) → after.KeepsSpelling source name) ∧
      ∀ (owner : Node) (segments : List Name) (span : Span),
        owner.Inside (.program program) → owner.isTerm = true →
          .name (.qualified segments span) ∈ owner.children →
            (∀ segment ∈ segments, segment.isError = false) →
              after.Copies source (.qualified segments span) := by
  intro after
  have alike : after.lexemes = (context.lex .haskell source).2.lexemes :=
    (parseText_takesIn source context).lexemes
  have formed : (Node.program program).WellFormed (context.Shows source) :=
    parseTokens_formed (parseText_eq_some parsed).1 stream_shown
  constructor
  · intro name inside
    exact keepsSpelling_of_written fresh alike (formed.of_inside inside).traced
  · intro owner segments span inside kind child found
    have dotted : Name.Dotted (context.Shows source) segments span.start span.stop :=
      Node.linked_of_traced kind (formed.of_inside inside).traced child
    have written : Name.Written (context.Shows source) (.qualified segments span) :=
      (formed.of_inside (inside.child child)).traced
    cases written with
    | token own => exact own.elim
    | segments each =>
      obtain ⟨texts, text, spans, -, all, joined⟩ :=
        spelled_of_dotted fresh alike dotted each found
      refine ⟨text, spans.slice? span.file, ?_⟩
      rw [Context.spell, spellAll_eq_mapM, all, Option.map_some, joined]

/-- An operand is missing behind the operator, which is reported; the names are spelled all the same. -/
theorem names_keep_spelling_malformed :
    let source := "y = (,) M.N.f :+ ) z".toList
    let after := (parseText source {}).2
    ∃ program segments span, (parseText source {}).1 = some program ∧ after.diagnostics.size = 1 ∧
      (Node.name (.qualified segments span)).Inside (.program program) ∧
      (∀ name, (Node.name name).Inside (.program program) → after.KeepsSpelling source name) ∧
      after.spell (.qualified segments span) = some "M.N.f" := by
  intro source after
  have reported : after.diagnostics.size = 1 := by decide +kernel
  have found : (parseText source {}).1.bind (fun program =>
      ((Node.program program).below [0, 1, 0, 0, 1]).bind Node.qualified?) =
      some ([false, false, false], ⟨.single, ⟨0, 8⟩, ⟨0, 13⟩⟩) := by
    decide +kernel
  obtain ⟨program, parsed, known⟩ := Option.bind_eq_some_iff.1 found
  obtain ⟨owner, reached, shape⟩ := Option.bind_eq_some_iff.1 known
  have inside := Node.inside_of_below reached
  unfold Node.qualified? at shape
  split at shape
  · rename_i segments span
    obtain ⟨sound, rfl⟩ := Prod.mk.inj (Option.some.inj shape)
    have whole : ∀ segment ∈ segments, segment.isError = false := by
      intro segment among
      have marked := List.mem_map_of_mem (f := Name.isError) among
      rw [sound] at marked
      simpa using marked
    obtain ⟨keeps, copies⟩ := names_keep_spelling source {} rfl parsed
    obtain ⟨text, slice, spelled⟩ := copies _ segments _ inside rfl List.mem_cons_self whole
    have same : (⟨.single, ⟨0, 8⟩, ⟨0, 13⟩⟩ : Span).slice? source = some "M.N.f".toList := by
      decide +kernel
    cases same.symm.trans slice
    exact ⟨program, segments, _, parsed, reported, inside.child List.mem_cons_self, keeps, spelled⟩
  · cases shape

end Haskell

end Offside
