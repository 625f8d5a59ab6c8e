import Offside.Proofs.Derivation.TypeProductions

/-!
Type signatures as they are derived. A signature of one variable is read into one declaration whose type
has the shape of its derivation, and nothing is reported, if no two double arrows stand between the
same brackets. A second one is not read: the code looks for one only, where the grammar has the type
behind it start afresh.
-/

namespace Offside.Haskell.Core

set_option autoImplicit false

open Offside.Lexical Offside.Parser Offside.Parse Offside.Haskell.Grammar

variable {file : FileId} {source : List Char}

/-- A signature of one name with a type of the shape of a tree. -/
def Signs (file : FileId) (source : List Char) (form : TypeForm) (decl : Decl) : Prop :=
  ∃ name type span, decl = .typeSignature ⟨[.simple name], type, span⟩ ∧
    form.Matches file source type

theorem parses_signature {form : TypeForm} {sign closing : Word} {words : List Word}
    (text : List Char) (gap : Bool) (signed : sign.token = .doubleColon)
    (read : Parses file source nestingLimit (words ++ [closing]) outermost.type [closing]
      (form.Matches file source)) :
    Parses file source nestingLimit (⟨.identifier, text, gap⟩ :: sign :: (words ++ [closing]))
      topDecl [closing] (Signs file source form) := by
  have ahead : aheadOf (sign :: (words ++ [closing])) = .doubleColon := signed
  refine Parses.ahead rfl (Parses.ahead rfl (Parses.start fun start => Parses.ahead rfl ?_))
  refine (parses_nameAt (by decide) text gap).bind ?_
  rintro _ ⟨name, rfl, -⟩
  refine Parses.decided (parses_isAt .comma) (Parses.decided (parses_isAt .doubleColon) ?_)
  rw [if_pos (by simp [ahead])]
  refine Parses.decided (parses_many_stop (parses_accept_other (by decide) (by simp [ahead]))) ?_
  refine Parses.decided (parses_expect (by decide) signed) ?_
  refine read.bind fun type matched => ?_
  exact Parses.spanFrom fun span => Parses.pure ⟨name, type, span, rfl, matched⟩

def IsSignature (type tokens : List (Token × Span)) : Prop :=
  ∃ opening name sign closing, tokens = opening :: name :: sign :: (type ++ [closing]) ∧
    opening.1 = .openBrace ∧ name.1 = .identifier ∧ sign.1 = .doubleColon ∧
    closing.1 = .closeBrace

/-- A signature is parsed into one declaration, and nothing is reported. -/
theorem parse_typeSignature {form : TypeForm} (single : form.IsSingle) (shallow : form.nesting ≤ 30)
    {stream : TokenStream} (within : stream.Within (· = file))
    (quiet : reportsOf stream.items = []) {type : List (Token × Span)}
    (signature : IsSignature type stream.inner) (derives : form.Derives (bareWords .origin type))
    (context : Context) :
    ∃ program final, parse stream context = .ok (true, final) ∧ final.program = some program ∧
      final.diagnostics = context.diagnostics ∧
      ∃ decl span, program = ⟨[decl], span⟩ ∧ Signs file [] form decl := by
  obtain ⟨opening, name, sign, closing, split, opens, named, signed, closes⟩ := signature
  obtain ⟨kind, place⟩ := name
  obtain rfl : kind = .identifier := named
  obtain ⟨next, words⟩ := bareWords_append sign.2.stop type [closing]
  have closed : ∀ last ∈ stream.inner.getLast?, last.1 = .closeBrace := by
    intro last member
    rw [split, ← List.cons_append, ← List.cons_append, ← List.cons_append,
      List.getLast?_concat] at member
    cases member
    exact closes
  have shape : ∃ opener gap signer closer, bareWords .origin stream.inner =
      opener :: ⟨.identifier, [], gap⟩ :: signer :: (bareWords sign.2.stop type ++ [closer]) ∧
        opener.token = .openBrace ∧ signer.token = .doubleColon ∧ closer.token = .closeBrace := by
    refine ⟨⟨opening.1, [], decide (opening.2.start ≠ .origin)⟩,
      decide (place.start ≠ opening.2.stop), ⟨sign.1, [], decide (sign.2.start ≠ place.stop)⟩,
      ⟨closing.1, [], decide (closing.2.start ≠ next)⟩, ?_, opens, signed, closes⟩
    rw [split, bareWords, bareWords, bareWords, words]
    rfl
  obtain ⟨opener, gap, signer, closer, shape, opens, signed, closes⟩ := shape
  have read := form.isRead file [] single (show form.nesting < nestingLimit by
    unfold nestingLimit; omega) _ [closer] derives (by simp [aheadOf, closes, isCloser])
  have parses := parses_onlyDecl opens closes rfl (by simp)
    (parses_signature [] gap signed (read.replace sign.2.stop))
  exact parse_of_parses within quiet closed shape parses context

/-- A constructor applied to a variable before a double arrow, then a list and an arrow behind it. -/
theorem parse_constrained_signature :
    let stream := TokenStream.spaced [.openBrace, .identifier, .doubleColon, .properIdentifier,
      .identifier, .doubleArrow, .openBracket, .identifier, .closeBracket, .arrow, .openParen,
      .closeParen, .closeBrace]
    let element := TypeForm.arrows (.applied (.typeVariable []) []) []
    let form := TypeForm.constrained (.applied (.constructor [] []) [.typeVariable []]) []
      (.arrows (.applied (.list element) []) [.applied .unit []])
    ∃ program final, parse stream {} = .ok (true, final) ∧ final.program = some program ∧
      final.diagnostics = #[] ∧
      ∃ decl span, program = ⟨[decl], span⟩ ∧ Signs .single [] form decl := by
  intro stream element form
  let type := (stream.inner.drop 3).dropLast
  have signature : IsSignature type stream.inner :=
    ⟨(.openBrace, .slot 0), (.identifier, .slot 1), (.doubleColon, .slot 2),
      (.closeBrace, .slot 12), by decide +kernel, rfl, rfl, rfl, rfl⟩
  have words : bareWords .origin type = [.properIdentifier, .identifier, .doubleArrow,
      .openBracket, .identifier, .closeBracket, .arrow, .openParen, .closeParen].map
        (⟨·, [], true⟩) := by rfl
  have constrains : (TypeOperand.applied (.constructor [] []) [.typeVariable []]).Derives
      [⟨.properIdentifier, [], true⟩, ⟨.identifier, [], true⟩] :=
    ⟨[_], _, rfl, ⟨true, .last true⟩, [_], [], rfl, ⟨true, rfl⟩, rfl⟩
  have lists : (TypeAtom.list element).Derives
      [⟨.openBracket, [], true⟩, ⟨.identifier, [], true⟩, ⟨.closeBracket, [], true⟩] :=
    ⟨_, _, rfl, rfl, [_], _, rfl, ⟨[_], [], rfl, ⟨[_], [], rfl, ⟨true, rfl⟩, rfl⟩, rfl⟩,
      _, [], rfl, rfl, rfl⟩
  have derives : form.Derives (bareWords .origin type) := by
    rw [words]
    refine ⟨[_, _], _, rfl, ⟨[_, _], [], rfl, constrains, rfl⟩, _, _, rfl, rfl, ?_⟩
    refine ⟨[_, _, _], _, rfl, ⟨[_, _, _], [], rfl, lists, rfl⟩, [_, _, _], [], rfl, ?_, rfl⟩
    exact ⟨_, _, rfl, rfl, [_, _], [], rfl, ⟨_, _, rfl, rfl, [], _, rfl, rfl, _, [], rfl, rfl, rfl⟩,
      rfl⟩
  have single : form.IsSingle :=
    ⟨⟨trivial, trivial, trivial⟩, trivial, ⟨⟨⟨⟨trivial, trivial⟩, trivial⟩, trivial⟩,
      ⟨trivial, trivial⟩, trivial⟩, trivial⟩
  exact parse_typeSignature single (by decide) (TokenStream.spaced_within (by decide))
    (by decide +kernel) signature derives {}

/-- Behind a second double arrow stands a type by the grammar, and it is reported. -/
theorem second_constraint_reported :
    let stream := TokenStream.spaced [.openBrace, .identifier, .doubleColon, .identifier,
      .doubleArrow, .identifier, .doubleArrow, .identifier, .closeBrace]
    let operand := TypeOperand.applied (.typeVariable []) []
    let form := TypeForm.constrained operand [] (.constrained operand [] (.arrows operand []))
    (∃ type, IsSignature type stream.inner ∧ form.Derives (bareWords .origin type)) ∧
      form.nesting = 0 ∧
      (parseTokens stream {}).2.context.diagnostics ≠ #[] := by
  intro stream operand form
  let type := (stream.inner.drop 3).dropLast
  have words : bareWords .origin type = [.identifier, .doubleArrow, .identifier, .doubleArrow,
      .identifier].map (⟨·, [], true⟩) := by rfl
  have chain : Beside operand.Derives (TypeOperand.LaterDerive []) [⟨.identifier, [], true⟩] :=
    ⟨[_], [], rfl, ⟨[_], [], rfl, ⟨true, rfl⟩, rfl⟩, rfl⟩
  refine ⟨⟨type, ⟨(.openBrace, .slot 0), (.identifier, .slot 1), (.doubleColon, .slot 2),
      (.closeBrace, .slot 8), by decide +kernel, rfl, rfl, rfl, rfl⟩, ?_⟩, rfl, by decide +kernel⟩
  rw [words]
  exact ⟨[_], _, rfl, chain, _, _, rfl, rfl, [_], _, rfl, chain, _, _, rfl, rfl, chain⟩

end Offside.Haskell.Core
