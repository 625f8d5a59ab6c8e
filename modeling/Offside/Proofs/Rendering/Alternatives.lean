import Offside.Proofs.Derivation.PatternProductions
import Offside.Proofs.Rendering.Patterns

/-!
Parsing inverts the written form of patterns. A binding to a case expression whose only alternative has
the pattern is read without a report, and what is read for the alternative has the shape of the tree.
The alternative stands in braces of its own, so a literal of the pattern may go over several lines.
-/

namespace Offside.Haskell.Core

set_option autoImplicit false

open Offside.Lexical Offside.Parser Offside.Parse Offside.Haskell.Grammar Core.Word

section Shapes

variable (file : FileId) (source : List Char)

def IsVariable (text : List Char) (expr : Expr) : Prop :=
  ∃ name, expr = .identifier name ∧ IsPart file source text name

/-- An alternative that takes a pattern of the shape of a tree to a variable. -/
def IsAlternative (form : PatternForm) (alternative : Alternative) : Prop :=
  ∃ pattern body right span, alternative = ⟨pattern, ⟨.plain body, [], right⟩, span⟩ ∧
    form.Matches file source pattern ∧ IsVariable file source ['e'] body

def IsCaseOf (form : PatternForm) (expr : Expr) : Prop :=
  ∃ subject alternative span, expr = .caseOf subject [alternative] span ∧
    IsVariable file source ['e'] subject ∧ IsAlternative file source form alternative

end Shapes

section Productions

variable {file : FileId} {source : List Char} {further : Nat} {later : List Word}

theorem parses_variable {text : List Char} (spelled : isVariableText text = true) (gap : Bool)
    (closes : isCloser (aheadOf later) = true) :
    Parses file source (further + 1) (⟨.identifier, text, gap⟩ :: later)
      (level (further + 1)).expression later (IsVariable file source text) := by
  have word : isWordText text = true := by rw [isWordText, spelled, Bool.true_or]
  have reads := @Chain.parses_expression ⟨false, false⟩ file source further later
    (.operand (.applied (.name ⟨[], text, word⟩) []))
    ⟨isRead_name _, fun _ member => by cases member⟩ gap closes
  have same : wordToken text = .identifier := if_pos spelled
  change Parses _ _ _ (⟨wordToken text, text, gap⟩ :: later) _ _ _ at reads
  rw [same] at reads
  exact reads

theorem parses_alternative {form : PatternForm} (read : form.IsRead file source (further + 1))
    {words : List Word} (derives : form.Derives words) (closes : aheadOf later = .closeBrace) :
    Parses file source (further + 1)
      (words ++ (.fixed .arrow true :: ⟨.identifier, ['e'], true⟩ :: later))
      (alternative (level (further + 1))) later (IsAlternative file source form) := by
  have named : isVariableText ['e'] = true := by decide +kernel
  refine Parses.start fun start => ?_
  refine (read words _ derives rfl).bind fun pattern matched => ?_
  have body := @parses_variable file source further later _ named true (by rw [closes]; rfl)
  refine (@parses_rightSide _ _ _ _ _ _ (.fixed .arrow true) _ (by simp [Word.fixed])
    (by simp [Word.fixed]) closes body).bind ?_
  rintro _ ⟨expr, right, rfl, held⟩
  exact Parses.spanFrom fun span => Parses.pure ⟨pattern, expr, right, span, rfl, matched, held⟩

def bracedAlternative (pattern : List Word) : List Word :=
  .fixed .openBrace true ::
    (pattern ++ [.fixed .arrow true, ⟨.identifier, ['e'], true⟩, .fixed .closeBrace true])

theorem parses_alternativeBlock {form : PatternForm} (read : form.IsRead file source (further + 1))
    {words : List Word} (derives : form.Derives words) :
    Parses file source (further + 2) (bracedAlternative words ++ later)
      (level (further + 2)).alternativeBlock later fun alternatives =>
        ∃ alternative, alternatives = [alternative] ∧
          IsAlternative file source form alternative := by
  obtain ⟨word, rest, rfl, leads⟩ := form.head derives
  have starts : startsItem word.token = true := by
    rcases leads with atom | minus
    · revert atom
      cases word.token <;> first | exact fun _ => rfl | exact fun atom => by cases atom
    · rw [minus]
      rfl
  have item := parses_alternative read derives (rfl : aheadOf (.fixed .closeBrace true :: later) = _)
  have fewer : (.fixed .closeBrace true :: later).length < (word :: rest ++ (.fixed .arrow true ::
      ⟨.identifier, ['e'], true⟩ :: .fixed .closeBrace true :: later)).length := by
    simp only [List.length_append, List.length_cons]
    omega
  have block : Parses file source (further + 1) (.fixed .openBrace true :: (word :: rest ++
      (.fixed .arrow true :: ⟨.identifier, ['e'], true⟩ :: .fixed .closeBrace true :: later)))
      (block (alternative (level (further + 1)))) later _ := parses_block rfl rfl starts fewer item
  rw [bracedAlternative, List.cons_append, List.append_assoc]
  exact parses_nested block

theorem parses_caseOf {form : PatternForm} (read : form.IsRead file source (further + 1))
    {words : List Word} (derives : form.Derives words) (closes : isCloser (aheadOf later) = true) :
    Parses file source (further + 3)
      (.fixed .kwCase true :: ⟨.identifier, ['e'], true⟩ :: .fixed .kwOf true ::
        (bracedAlternative words ++ later))
      (level (further + 3)).expression later (IsCaseOf file source form) := by
  have named : isVariableText ['e'] = true := by decide +kernel
  refine parses_soleOperand (by simp [aheadOf, Word.fixed]) closes (Parses.ahead rfl ?_)
  refine Parses.bind (?_ : Parses _ _ _ _ _ _ (IsCaseOf file source form)) fun expr held =>
    Parses.pure ⟨rfl, held⟩
  refine Parses.start fun start => Parses.consume ?_
  refine (parses_variable named true rfl).bind fun subject scrutinee => ?_
  refine Parses.decided (parses_expect (by decide) rfl) ?_
  refine (parses_alternativeBlock read derives).bind ?_
  rintro _ ⟨alternative, rfl, held⟩
  exact Parses.spanFrom fun span => Parses.pure ⟨subject, alternative, span, rfl, scrutinee, held⟩

end Productions

/-! The text as a whole. -/

def caseWords (pattern : List Word) : List Word :=
  ⟨.identifier, ['x'], false⟩ :: .fixed .equals true :: .fixed .kwCase true ::
    ⟨.identifier, ['e'], true⟩ :: .fixed .kwOf true :: bracedAlternative pattern

theorem parses_caseBinding {file : FileId} {source : List Char} {form : PatternForm}
    (shallow : form.nesting ≤ 61) {words : List Word} (derives : form.Derives words) :
    Parses file source nestingLimit
      (.silent .openBrace :: (caseWords words ++ [.silent .closeBrace])) program []
      fun program => ∃ decl span, program = ⟨[decl], span⟩ ∧
        BindsTo file source (IsCaseOf file source form) decl := by
  have read : form.IsRead file source 62 := form.isRead file source (by omega)
  have body := @parses_caseOf file source 61 [.silent .closeBrace] form read words derives rfl
  refine @parses_onlyDecl _ _ _ _ (.silent .closeBrace) _ rfl rfl rfl (by simp [caseWords]) ?_
  exact Parses.ahead rfl (Parses.ahead rfl (parses_binding rfl body))

theorem parted_word {token : Token} {text : List Char} {later : List Word}
    (shown : isWordToken token = true) (starts : ∀ after, leads Text.isBlank (text ++ after) = false)
    (takes : Takes (scan false (text ++ textOf later)) token text)
    (rest : Legible (token == .properIdentifier) later) : Parted (⟨token, text, true⟩ :: later) :=
  ⟨⟨rfl, rfl⟩, fun proper => .cons shown (starts _) (by rwa [Bool.not_true, Bool.and_false]) rest⟩

theorem parted_caseOf {pattern : List Word} (gap : textOf pattern = ' ' :: (textOf pattern).tail)
    (legible : ∀ {rest : List Word}, Parted rest → Legible false (pattern ++ rest)) :
    Parted (.fixed .kwCase true :: ⟨.identifier, ['e'], true⟩ :: .fixed .kwOf true ::
      bracedAlternative pattern) := by
  have named : isVariableText ['e'] = true := by decide +kernel
  obtain ⟨-, startsName, takesName, -⟩ := isLast_variable named false
  have brace : Parted [.fixed .closeBrace true] := parted_word rfl (fun _ => rfl) ⟨rfl, rfl, rfl⟩ (.nil _)
  have name := parted_word rfl startsName (takesName _ brace.apart) (brace.legible _)
  have arrow : Parted (.fixed .arrow true :: ⟨.identifier, ['e'], true⟩ :: [.fixed .closeBrace true]) :=
    parted_word rfl (fun _ => rfl) (@takes_symbols ['-', '>'] _ (by decide) rfl) (name.legible _)
  have block : Parted (bracedAlternative pattern) := by
    refine parted_word rfl (fun _ => rfl) ?_ (legible arrow)
    rw [textOf_append, gap]
    exact ⟨rfl, rfl, rfl⟩
  have keyword : ∀ {token : Token} {text : List Char},
      leads (fun first => Text.isLowercase first || first == '_') text = true →
        text.all continuesWord = true → (scanVariable text).token = token →
          ∀ {later : List Word}, Parted later →
            Takes (scan false (text ++ textOf later)) token text := by
    intro token text starts word named later parted
    rw [← named]
    exact takes_word false starts word parted.apart.word
  have ofAlternatives : Parted (.fixed .kwOf true :: bracedAlternative pattern) :=
    parted_word rfl (fun _ => rfl) (keyword (by decide +kernel) (by decide +kernel)
      (by decide +kernel) block) (block.legible _)
  have subject := parted_word rfl startsName (takesName _ ofAlternatives.apart)
    (ofAlternatives.legible _)
  exact parted_word rfl (fun _ => rfl) (keyword (by decide +kernel) (by decide +kernel)
    (by decide +kernel) subject) (subject.legible _)

/-- The text of a binding to a case expression with a pattern. -/
def renderCase (spacing : PatternSpacing) (form : PatternForm) : List Char :=
  "x = case e of \x7b ".toList ++ (form.render spacing ++ " -> e \x7d".toList)

section Text

variable {spacing : PatternSpacing} {form : PatternForm}

theorem textOf_caseWords :
    textOf (caseWords (form.words spacing true)) = renderCase spacing form := by
  have pattern := form.textOf_words spacing true
  simp only [caseWords, bracedAlternative, textOf_cons, textOf_append, pattern]
  rfl

theorem legible_caseWords (spelled : form.isSpelled = true) :
    Legible false (caseWords (form.words spacing true)) := by
  have named : isVariableText ['x'] = true := by decide +kernel
  have body := @parted_caseOf (form.words spacing true) (by simp [blankIf, form.textOf_words])
    fun parted => form.legible spacing spelled parted rfl
  have equals := parted_word rfl (fun _ => rfl) (@takes_symbols ['='] _ (by decide) body.apart.symbol)
    (body.legible _)
  exact .cons rfl rfl (takes_variable false named equals.apart.word) (equals.legible _)

theorem braced_caseWords (spelled : form.isSpelled = true) :
    Braced 0 (caseWords (form.words spacing true)).tail := by
  have name : ∀ {flat : Bool}, (⟨.identifier, ['e'], true⟩ : Word).IsTerm flat :=
    ⟨rfl, fun _ => by decide⟩
  refine .term (fixed_isTerm (by decide) rfl _ _) (.term (fixed_isTerm (by decide) rfl _ _)
    (.term name (.opens rfl rfl (.terms (form.areTerms spacing spelled true) ?_))))
  exact .term (fixed_isTerm (by decide) rfl _ _) (.term name (.closes rfl (by decide) .nil))

end Text

/-- A pattern of a case alternative is read back from its written form, and nothing is reported. -/
theorem parse_renderCase (spacing : PatternSpacing) (form : PatternForm)
    (spelled : form.isSpelled = true) (shallow : form.nesting ≤ 61) (context : Context) :
    let source := renderCase spacing form
    (∃ decl span, (parseText source context).1 = some ⟨[decl], span⟩ ∧
      BindsTo context.file source (IsCaseOf context.file source form) decl) ∧
      (parseText source context).2.diagnostics = context.diagnostics := by
  intro source
  obtain ⟨_, read, ⟨decl, span, rfl, binds⟩, diagnostics⟩ :=
    parseText_of_parses textOf_caseWords rfl (legible_caseWords spelled) ⟨rfl, by decide⟩
      (braced_caseWords spelled) (parses_caseBinding shallow (form.derives_words spacing spelled true))
  exact ⟨⟨decl, span, read, binds⟩, diagnostics⟩

/-! A pattern with a qualified operator behind arguments, one between backticks, constructors of each
kind, and a string that goes on in the next line. -/

def mixedPattern : PatternForm :=
  .binary
    (.applied (.constructor ⟨["M".toList], .properIdentifier, "N".toList⟩)
      [.aliased "y".toList (.irrefutable (.list (.operand (.applied .wildcard []))
        [.operand (.negative .integer "1".toList)]))])
    (.symbol ⟨["M".toList], .constructorSymbol, ":+".toList⟩)
    (.binary (.applied (.tupleConstructor 1) [.named "z".toList, .unit])
      (.quoted ⟨[], .properIdentifier, "C".toList⟩)
      (.operand (.applied (.symbol .colon ":".toList)
        [.literal .string "\"a\\\n\\b\"".toList, .emptyList])))

theorem parse_renderCase_mixedPattern :
    let source :=
      "x = case e of \x7b M.N y@ ~[_, -1] M.:+ (,,) z () \x60C\x60 (:) \"a\\\n\\b\" [] -> e \x7d".toList
    mixedPattern.isSpelled = true ∧ mixedPattern.nesting ≤ 61 ∧
      (∃ decl span, (parseText source {}).1 = some ⟨[decl], span⟩ ∧
        BindsTo .single source (IsCaseOf .single source mixedPattern) decl) ∧
      (parseText source {}).2.diagnostics = #[] := by
  intro source
  have spelled : mixedPattern.isSpelled = true := by decide +kernel
  have shallow : mixedPattern.nesting ≤ 61 := by decide
  have written : renderCase ⟨⟨true, false⟩, false, true, false⟩ mixedPattern = source := by decide
  have parsed := parse_renderCase ⟨⟨true, false⟩, false, true, false⟩ mixedPattern spelled shallow {}
  rw [written] at parsed
  exact ⟨spelled, shallow, parsed⟩

end Offside.Haskell.Core
