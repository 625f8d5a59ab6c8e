import Offside.Proofs.Derivation.PatternPositions

/-!
Patterns in whole programs. The words of a pattern stand in a stream between tokens of known kinds: in an
alternative of a case expression, on the left of a bind, or on the left of an equals sign. Whatever is an
alternative without a report is a declaration without one, and a bind as well if it takes at most 61
levels as an expression.
-/

namespace Offside.Haskell.Core

set_option autoImplicit false

open Offside.Lexical Offside.Parser Offside.Parse Offside.Haskell.Grammar

variable {file : FileId} {source : List Char} {room : Nat} {words behind : List Word}
  {stream : TokenStream}

def closeWords : List (Token × Span) → List Word
  | [] => []
  | found :: later => bareWords found.2.start (found :: later)

theorem aheadOf_bareWords (place : Position) (tokens : List (Token × Span)) :
    aheadOf (bareWords place tokens ++ behind) = aheadOf (closeWords tokens ++ behind) := by
  cases tokens <;> rfl

theorem Parses.place {α : Type} {tokens : List (Token × Span)} {production : Parse α}
    {holds : α → Prop}
    (parses : Parses file source room (closeWords tokens ++ words) production behind holds)
    (place : Position) :
    Parses file source room (bareWords place tokens ++ words) production behind holds := by
  cases tokens with
  | nil => exact parses
  | cons found later => exact Parses.replace parses place

theorem Owes.place {α : Type} {tokens : List (Token × Span)} {production : Parse α} {known : Prop}
    (owes : Owes file source room (closeWords tokens ++ words) production known) (place : Position) :
    Owes file source room (bareWords place tokens ++ words) production known := by
  cases tokens with
  | nil => exact owes
  | cons found later => exact fun parser facing => owes parser (facing.regap _)

/-- What a program owes is paid if it is parsed without a report. -/
theorem known_of_clean (within : stream.Within (· = file)) (quiet : reportsOf stream.items = [])
    (closed : ∀ last ∈ stream.inner.getLast?, last.1 = .closeBrace) {place : Position} {word : Word}
    (shape : bareWords place stream.inner = word :: words) {known : Prop}
    (owes : Owes file [] nestingLimit (word :: words) program known) {context final : Context}
    (clean : parse stream context = .ok (true, final)) (silent : final.diagnostics = #[]) : known := by
  obtain ⟨facing, -⟩ := facing_stream within quiet closed place context
  rw [shape] at facing
  obtain ⟨_, -, -, same⟩ := parse_eq_ok_true clean
  rw [parseTokens_final facing.inner] at same
  have ended : (program (Parser.start stream context)).2.context.diagnostics = #[] := by
    rw [same] at silent
    exact silent
  obtain ⟨log, logged⟩ := program_logs.onward (settled_start stream context)
  have finally' := logged.unreported rfl ended
  exact owes _ facing ⟨logged.continues.diagnostics_eq_empty ended, rfl⟩ ⟨ended, finally'⟩

/-! Settings. -/

structure Setting where
  before : List Token
  behind : List Token

namespace Setting

/-- The alternative of a case expression, which is the body of a declaration. -/
def alternative : Setting where
  before := [.openBrace, .identifier, .equals, .kwCase, .identifier, .kwOf, .openBrace]
  behind := [.arrow, .identifier, .closeBrace, .closeBrace]

/-- The only statement of a block, which is the body of a declaration. -/
def bind : Setting where
  before := [.openBrace, .identifier, .equals, .kwDo, .openBrace]
  behind := [.leftArrow, .identifier, .closeBrace, .closeBrace]

def declaration : Setting where
  before := [.openBrace]
  behind := [.equals, .identifier, .closeBrace]

/-- A stream of the words of a pattern in a setting, for which the lexer reported nothing. -/
structure Holds (setting : Setting) (file : FileId) (words : List Word) (stream : TokenStream) :
    Prop where
  within : stream.Within (· = file)
  quiet : reportsOf stream.items = []
  inner : ∃ front pattern back, stream.inner = front ++ (pattern ++ back) ∧
    front.map Prod.fst = setting.before ∧ closeWords pattern = words ∧
      back.map Prod.fst = setting.behind

variable {setting : Setting}

theorem map_token_bareWords (place : Position) (tokens : List (Token × Span)) :
    (bareWords place tokens).map Word.token = tokens.map Prod.fst := by
  induction tokens generalizing place with
  | nil => rfl
  | cons found later induction => rw [bareWords, List.map_cons, List.map_cons, induction]

theorem Holds.closed (holds : setting.Holds file words stream)
    (ends : setting.behind.getLast? = some .closeBrace) :
    ∀ last ∈ stream.inner.getLast?, last.1 = .closeBrace := by
  obtain ⟨front, pattern, back, split, -, -, backs⟩ := holds.inner
  intro last member
  rw [← backs, List.getLast?_map] at ends
  obtain ⟨found, among, known⟩ := Option.map_eq_some_iff.1 ends
  rw [split, List.getLast?_append, List.getLast?_append, among] at member
  cases member
  exact known

theorem Holds.exists_words (holds : setting.Holds file words stream) :
    ∃ place front pattern back, bareWords .origin stream.inner =
        front ++ (bareWords place pattern ++ back) ∧
      front.map Word.token = setting.before ∧ closeWords pattern = words ∧
        back.map Word.token = setting.behind := by
  obtain ⟨front, pattern, back, split, fronts, same, backs⟩ := holds.inner
  obtain ⟨place, first⟩ := bareWords_append .origin front (pattern ++ back)
  obtain ⟨next, second⟩ := bareWords_append place pattern back
  refine ⟨place, bareWords .origin front, pattern, bareWords next back, ?_, ?_, same, ?_⟩
  · rw [split, first, second]
  · rw [map_token_bareWords, fronts]
  · rw [map_token_bareWords, backs]

/-- The pattern of a stream is told by where it starts and by its length. -/
theorem holds_of_slice (within : stream.Within (· = file)) (quiet : reportsOf stream.items = [])
    (start count : Nat) (fronts : (stream.inner.take start).map Prod.fst = setting.before)
    (same : closeWords ((stream.inner.drop start).take count) = words)
    (backs : ((stream.inner.drop start).drop count).map Prod.fst = setting.behind) :
    setting.Holds file words stream where
  within := within
  quiet := quiet
  inner := ⟨_, _, _, by rw [List.take_append_drop, List.take_append_drop], fronts, same, backs⟩

end Setting

def ParsesInto (stream : TokenStream) (holds : Decl → Prop) : Prop :=
  ∀ context, ∃ program final, parse stream context = .ok (true, final) ∧
    final.program = some program ∧ final.diagnostics = context.diagnostics ∧
      ∃ decl span, program = ⟨[decl], span⟩ ∧ holds decl

/-- What is an alternative without a report is a pattern by the grammar. -/
theorem pattern_of_alternative (stands : Setting.alternative.Holds file words stream)
    (inside : Inside words) {context final : Context}
    (clean : parse stream context = .ok (true, final)) (silent : final.diagnostics = #[]) :
    ∃ form : PatternForm, form.Derives words ∧ form.nesting < 62 := by
  obtain ⟨place, front, pattern, back, shape, fronts, rfl, backs⟩ := stands.exists_words
  simp only [Setting.alternative, List.map_eq_cons_iff, List.map_eq_nil_iff] at fronts
  obtain ⟨opening, _, rfl, opens, ⟨_, text, gap⟩, _, rfl, rfl, sign, _, rfl, equals, leading, _, rfl,
    leads, ⟨_, subject, apart⟩, _, rfl, rfl, keyword, _, rfl, parts, brace, _, rfl, braces, rfl⟩ := fronts
  obtain ⟨arrow, rest, rfl, arrows, -⟩ := List.map_eq_cons_iff.1 backs
  have ahead : leavesPattern (aheadOf (bareWords place pattern ++ arrow :: rest)) = false ∨
      aheadOf (bareWords place pattern ++ arrow :: rest) = .arrow := by
    rw [aheadOf_bareWords]
    generalize closeWords pattern = words at inside
    cases words with
    | nil => exact .inr arrows
    | cons word words => exact .inl (inside word (by simp))
  have first : Owes file [] 62 (bareWords place pattern ++ arrow :: rest)
      (Grammar.alternative (level 62))
      (∃ form : PatternForm, form.Derives (closeWords pattern) ∧ form.nesting < 62) :=
    (owes_alternative inside (show aheadOf (arrow :: rest) = .arrow from arrows)).place place
  have owes := owes_caseOf subject apart leads parts braces
    (by intro same; rw [same] at ahead; rcases ahead with inner | other <;> contradiction)
    (by intro same; rw [same] at ahead; rcases ahead with inner | other <;> contradiction) first
  have bound := owes_variableBinding text gap equals (level_logs nestingLimit) owes
  have declared : Owes file [] nestingLimit (⟨.identifier, text, gap⟩ :: sign :: leading ::
      ⟨.identifier, subject, apart⟩ :: keyword :: brace :: (bareWords place pattern ++ arrow :: rest))
      topDecl _ := Owes.ahead rfl (Owes.ahead rfl bound)
  exact known_of_clean stands.within stands.quiet (stands.closed rfl) shape
    (owes_firstDecl opens rfl declared) clean silent

/-- A pattern in front of a bind, if it does not take too many levels as an expression. -/
theorem parse_bind {form : PatternForm} (stands : Setting.bind.Holds file words stream)
    (derives : form.Derives words) (plain : form.IsPlain) (room : form.levels ≤ 61) :
    ParsesInto stream (DeclaresVariable IsBindBlock) := by
  obtain ⟨place, front, pattern, back, shape, fronts, rfl, backs⟩ := stands.exists_words
  simp only [Setting.bind, List.map_eq_cons_iff, List.map_eq_nil_iff] at fronts backs
  obtain ⟨opening, _, rfl, opens, ⟨_, text, gap⟩, _, rfl, rfl, sign, _, rfl, equals, leading, _, rfl,
    leads, brace, _, rfl, braces, rfl⟩ := fronts
  obtain ⟨arrow, _, rfl, arrows, ⟨_, subject, apart⟩, _, rfl, rfl, closing, _, rfl, closes, last, _,
    rfl, ends, rfl⟩ := backs
  have read : Parses file [] 62 (closeWords pattern ++ [arrow, ⟨.identifier, subject, apart⟩, closing,
      last]) (level 62).expression [arrow, ⟨.identifier, subject, apart⟩, closing, last]
      fun _ => True :=
    PatternForm.parses_expression (form.isExpression file [] plain room) derives (by rw [aheadOf, arrows]; rfl)
  have bind := (parses_bind (form.ahead_ne derives rfl (by decide)) arrows
    (show isCloser (aheadOf [closing, last]) = true by rw [aheadOf, closes]; rfl) read).place place
  have starts : startsItem (aheadOf (bareWords place pattern ++ [arrow, ⟨.identifier, subject, apart⟩,
      closing, last])) = true := by
    rw [aheadOf_bareWords]
    exact form.startsItem derives
  have block := parses_bindBlock leads braces closes (show isCloser (aheadOf [last]) = true by
    rw [aheadOf, ends]; rfl) starts (by simp) bind
  have declared : Parses file [] nestingLimit (⟨.identifier, text, gap⟩ :: sign :: leading :: brace ::
      (bareWords place pattern ++ [arrow, ⟨.identifier, subject, apart⟩, closing, last])) topDecl
      [last] (DeclaresVariable IsBindBlock) := by
    refine Parses.ahead rfl (Parses.ahead rfl ?_)
    refine (parses_variableBinding text gap equals (show aheadOf [last] = _ from ends) block).mono ?_
    rintro _ ⟨name, expr, right, span, rfl, -, held⟩
    exact ⟨name, expr, right, span, rfl, held⟩
  exact parse_of_parses stands.within stands.quiet (stands.closed rfl) shape
    (parses_onlyDecl opens ends rfl (by simp) declared)

/-- A pattern on the left of an equals sign, if no qualifier stands behind a variable at its start. -/
theorem parse_declaration {form : PatternForm} (stands : Setting.declaration.Holds file words stream)
    (derives : form.Derives words) (shallow : form.nesting < 64)
    (plain : leadsQualified words = false) : ParsesInto stream (form.IsDeclared file []) := by
  obtain ⟨place, front, pattern, back, shape, fronts, rfl, backs⟩ := stands.exists_words
  simp only [Setting.declaration, List.map_eq_cons_iff, List.map_eq_nil_iff] at fronts backs
  obtain ⟨opening, _, rfl, opens, rfl⟩ := fronts
  obtain ⟨sign, _, rfl, equals, ⟨_, text, gap⟩, _, rfl, rfl, last, _, rfl, ends, rfl⟩ := backs
  have closes : aheadOf [last] = .closeBrace := ends
  have body : Parses file [] 64 [⟨.identifier, text, gap⟩, last] (level 64).expression [last]
      fun _ => True := parses_bareVariable text gap (by rw [closes]; rfl)
  have bound := form.parses_declared shallow derives equals closes body plain
  have declared := (form.parses_topDecl derives bound).place place
  have starts : startsItem (aheadOf (bareWords place pattern ++ [sign, ⟨.identifier, text, gap⟩,
      last])) = true := by
    rw [aheadOf_bareWords]
    exact form.startsItem derives
  exact parse_of_parses stands.within stands.quiet (stands.closed rfl) shape
    (parses_onlyDecl opens ends starts (by simp) declared)

/-- What is a pattern in an alternative is a pattern in the other places. On the left of an equals sign it
must not start with a variable and a qualifier, where the qualified symbol is taken for an argument. In front of
a bind no argument may start with a tilde, and the levels that it takes as an expression are limited. -/
theorem parse_pattern_positions {alternative bind declaration : TokenStream}
    (caseOf : Setting.alternative.Holds file words alternative)
    (block : Setting.bind.Holds file words bind)
    (equation : Setting.declaration.Holds file words declaration) (inside : Inside words)
    {context final : Context} (clean : parse alternative context = .ok (true, final))
    (silent : final.diagnostics = #[]) :
    (∃ form : PatternForm, form.Derives words ∧
      (leadsQualified words = false → ParsesInto declaration (form.IsDeclared file []))) ∧
    ∀ form : PatternForm, form.Derives words → form.IsPlain → form.levels ≤ 61 →
      ParsesInto bind (DeclaresVariable IsBindBlock) := by
  obtain ⟨form, derives, shallow⟩ := pattern_of_alternative caseOf inside clean silent
  refine ⟨⟨form, derives, fun plain => ?_⟩, fun form derives plain room => ?_⟩
  · exact parse_declaration equation derives (by omega) plain
  · exact parse_bind block derives plain room

/-- A constructor applied to a list, and a variable behind a symbol. -/
theorem parse_pattern_positions_applied :
    let pattern : List Token := [.properIdentifier, .openBracket, .integer, .comma, .underscore,
      .closeBracket, .colon, .identifier]
    let words := pattern.mapIdx fun index token => (⟨token, [], decide (0 < index)⟩ : Word)
    let stream (setting : Setting) := TokenStream.spaced (setting.before ++ pattern ++ setting.behind)
    (∃ form : PatternForm, form.Derives words ∧
      ParsesInto (stream .declaration) (form.IsDeclared .single [])) ∧
    ParsesInto (stream .bind) (DeclaresVariable IsBindBlock) := by
  intro pattern words stream
  have within (setting : Setting) : (stream setting).Within (· = .single) :=
    TokenStream.spaced_within (by simp [pattern])
  have caseOf : Setting.alternative.Holds .single words (stream .alternative) :=
    Setting.holds_of_slice (within _) (by decide +kernel) 7 8 (by decide +kernel)
      (by decide +kernel) (by decide +kernel)
  have block : Setting.bind.Holds .single words (stream .bind) :=
    Setting.holds_of_slice (within _) (by decide +kernel) 5 8 (by decide +kernel)
      (by decide +kernel) (by decide +kernel)
  have equation : Setting.declaration.Holds .single words (stream .declaration) :=
    Setting.holds_of_slice (within _) (by decide +kernel) 1 8 (by decide +kernel)
      (by decide +kernel) (by decide +kernel)
  have inside : Inside words := by decide +kernel
  have inner : (Parser.start (stream .alternative) {}).isAtEnd = false := by decide +kernel
  have clean := parse_of_some (parseTokens_run (within .alternative) {}).fault_of_single
    (parseTokens_program inner)
  obtain ⟨⟨form, derives, declared⟩, binds⟩ :=
    parse_pattern_positions caseOf block equation inside clean (by decide +kernel)
  let listed : PatternAtom := .list (.operand (.applied (.literal .integer []) []))
    [.operand (.applied .wildcard [])]
  let applied : PatternOperand := .applied (.constructor ⟨[], .properIdentifier, []⟩) [listed]
  have lists : listed.Derives [⟨.openBracket, [], true⟩, ⟨.integer, [], true⟩, ⟨.comma, [], true⟩,
      ⟨.underscore, [], true⟩, ⟨.closeBracket, [], true⟩] := by
    have number : (PatternForm.operand (.applied (.literal .integer []) [])).Derives
        [⟨.integer, [], true⟩] := ⟨.inr rfl, [_], [], rfl, ⟨rfl, true, rfl⟩, rfl⟩
    have wildcard : (PatternForm.operand (.applied .wildcard [])).Derives [⟨.underscore, [], true⟩] :=
      ⟨.inr rfl, [_], [], rfl, ⟨_, [], rfl, rfl, rfl⟩, rfl⟩
    exact ⟨_, _, rfl, rfl, [_, _, _], [_], rfl, ⟨[_], [_, _], rfl, number, [_, _], [], rfl,
      ⟨_, _, rfl, rfl, wildcard⟩, rfl⟩, _, [], rfl, rfl, rfl⟩
  have applies : applied.Derives [⟨.properIdentifier, [], false⟩, ⟨.openBracket, [], true⟩,
      ⟨.integer, [], true⟩, ⟨.comma, [], true⟩, ⟨.underscore, [], true⟩,
      ⟨.closeBracket, [], true⟩] :=
    ⟨.inl rfl, [_], _, rfl, ⟨rfl, false, .last false⟩, _, [], rfl, lists, rfl⟩
  have whole : (PatternForm.binary applied (.symbol ⟨[], .colon, []⟩) (.lone [])).Derives words :=
    ⟨_, _, rfl, applies, [_], [_], rfl, ⟨rfl, true, .last true⟩, PatternForm.derives_lone [] true⟩
  have plain : (PatternForm.binary applied (.symbol ⟨[], .colon, []⟩) (.lone [])).IsPlain :=
    ⟨⟨trivial, rfl, ⟨⟨trivial, trivial⟩, ⟨trivial, trivial⟩, trivial⟩, trivial⟩, trivial, trivial⟩
  exact ⟨⟨form, derives, declared rfl⟩, binds _ whole plain (by decide)⟩

/-- A variable in 31 lists is read without a report in an alternative, and not in front of a bind. -/
theorem nested_lists_reported :
    let pattern : List Token := List.replicate 31 .openBracket ++ .identifier ::
      List.replicate 31 .closeBracket
    let words := pattern.mapIdx fun index token => (⟨token, [], decide (0 < index)⟩ : Word)
    let stream (setting : Setting) := TokenStream.spaced (setting.before ++ pattern ++ setting.behind)
    Setting.alternative.Holds .single words (stream .alternative) ∧
      Setting.bind.Holds .single words (stream .bind) ∧ Inside words ∧
      (∃ final, parse (stream .alternative) {} = .ok (true, final) ∧ final.diagnostics = #[]) ∧
      ∃ final, parse (stream .bind) {} = .ok (true, final) ∧ final.diagnostics ≠ #[] := by
  intro pattern words stream
  have within (setting : Setting) : (stream setting).Within (· = .single) :=
    TokenStream.spaced_within (by simp [pattern])
  have caseOf : Setting.alternative.Holds .single words (stream .alternative) :=
    Setting.holds_of_slice (within _) (by decide +kernel) 7 63 (by decide +kernel)
      (by decide +kernel) (by decide +kernel)
  have block : Setting.bind.Holds .single words (stream .bind) :=
    Setting.holds_of_slice (within _) (by decide +kernel) 5 63 (by decide +kernel)
      (by decide +kernel) (by decide +kernel)
  have inside : Inside words := by decide +kernel
  have parsed (setting : Setting) (inner : (Parser.start (stream setting) {}).isAtEnd = false) :=
    parse_of_some (parseTokens_run (within setting) {}).fault_of_single
      (parseTokens_program inner)
  exact ⟨caseOf, block, inside, ⟨_, parsed _ (by decide +kernel), by decide +kernel⟩,
    _, parsed _ (by decide +kernel), by decide +kernel⟩

end Offside.Haskell.Core
