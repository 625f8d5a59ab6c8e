import Offside.Proofs.Rendering.Programs

/-!
Tokens without their texts. Where a production only looks at the kinds of the tokens and at whether they
touch, any tokens of one file are words, whose texts do not matter. What is said of productions before
words holds of a parser of such a stream.
-/

namespace Offside.Haskell.Core

set_option autoImplicit false

open Offside.Lexical Offside.Parser Offside.Parse Offside.Haskell.Grammar

variable {file : FileId}

theorem shows_nothing {span : Span} (inFile : span.file = file) : span.Shows file [] [] where
  file := inFile
  slice := by
    have nothing : ∀ place, byteOffset [] place = 0 := fun place => rfl
    simp [Span.slice?, Span.byteRange, nothing, splitBytes?]

/-- Tokens as words without texts. A token that starts where the one before it stops has no blank before
it. -/
def bareWords : Position → List (Token × Span) → List Word
  | _, [] => []
  | place, (token, span) :: later =>
    ⟨token, [], decide (span.start ≠ place)⟩ :: bareWords span.stop later

theorem marks_bareWords {tokens : List (Token × Span)}
    (inFile : ∀ found ∈ tokens, found.2.file = file) (place : Position) :
    Marks file [] place (bareWords place tokens) tokens := by
  induction tokens generalizing place with
  | nil => exact .nil place
  | cons found later induction =>
    rw [List.forall_mem_cons] at inFile
    exact .cons (shows_nothing inFile.1) (by simp) (induction inFile.2 found.2.stop)

theorem bareWords_append (place : Position) (first second : List (Token × Span)) :
    ∃ next, bareWords place (first ++ second) = bareWords place first ++ bareWords next second := by
  induction first generalizing place with
  | nil => exact ⟨place, rfl⟩
  | cons found later induction =>
    obtain ⟨next, split⟩ := induction found.2.stop
    exact ⟨next, by rw [List.cons_append, bareWords, split, bareWords, List.cons_append]⟩

/-- What stands before the first word makes no difference. -/
theorem Facing.regap {source : List Char} {room : Nat} {token : Token} {text : List Char}
    {gap : Bool} {words : List Word} {parser : Parser}
    (facing : Facing file source room (⟨token, text, gap⟩ :: words) parser) (other : Bool) :
    Facing file source room (⟨token, text, other⟩ :: words) parser := by
  obtain ⟨place, marks⟩ := facing.marks
  generalize found : parser.rest = tokens at marks
  cases marks with
  | @cons _ _ span _ _ shows near later =>
    have anywhere : ∃ place, span.start = place ↔ other = false := by
      cases other with
      | false => exact ⟨span.start, by simp⟩
      | true => exact ⟨⟨span.start.line + 1, 0⟩, by
          simp only [Bool.true_eq_false, iff_false]
          intro same
          exact absurd (congrArg Position.line same) (by simp)⟩
    obtain ⟨place, nearer⟩ := anywhere
    refine { facing with
      marks := ⟨place, by rw [found]; exact .cons shows nearer later⟩
      closed := fun last member => ?_ }
    cases words with
    | nil =>
      cases member
      exact facing.closed ⟨token, text, gap⟩ rfl
    | cons next words => exact facing.closed last (by simpa using member)

theorem Parses.replace {α : Type} {source : List Char} {room : Nat} {place : Position}
    {tokens : List (Token × Span)} {words after : List Word} {production : Parse α}
    {holds : α → Prop}
    (parses : Parses file source room (bareWords place tokens ++ words) production after holds)
    (other : Position) :
    Parses file source room (bareWords other tokens ++ words) production after holds := by
  cases tokens with
  | nil => exact parses
  | cons found later =>
    intro parser facing
    obtain ⟨held, advances⟩ := parses parser (facing.regap _)
    exact ⟨held, { advances with }⟩

section Streams

variable {stream : TokenStream}

theorem inner_within (within : stream.Within (· = file)) :
    ∀ found ∈ stream.inner, found.2.file = file := by
  intro found member
  obtain ⟨item, among, rfl⟩ := List.mem_map.1 (List.takeWhile_subset _ member)
  exact within.items item (List.mem_of_mem_filter among)

theorem facing_stream (within : stream.Within (· = file)) (quiet : reportsOf stream.items = [])
    (closed : ∀ last ∈ stream.inner.getLast?, last.1 = .closeBrace) (place : Position)
    (context : Context) :
    Facing file [] nestingLimit (bareWords place stream.inner) (Parser.start stream context) ∧
      (Parser.start stream context).context.diagnostics = context.diagnostics := by
  have pulled := quiet_pullFrom quiet context
  have marks := marks_bareWords (inner_within within) place
  have lasts : ∀ last ∈ (bareWords place stream.inner).getLast?, last.token = .closeBrace := by
    intro last member
    have same : (stream.inner.map Prod.fst).getLast? = some last.token := by
      rw [marks_tokens marks, List.getLast?_map, member]
      rfl
    rw [List.getLast?_map] at same
    obtain ⟨found, among, known⟩ := Option.map_eq_some_iff.1 same
    rw [← known]
    exact closed found among
  exact
    ⟨{ marks := ⟨place, by rw [Parser.rest_start]; exact marks⟩
       closed := lasts
       room := Nat.le_of_eq (Nat.zero_add _)
       quiet := pulled.1 }, pulled.2⟩

/-- What is read of the words of a stream is what parsing it leaves behind. -/
theorem parse_of_parses (within : stream.Within (· = file)) (quiet : reportsOf stream.items = [])
    (closed : ∀ last ∈ stream.inner.getLast?, last.1 = .closeBrace) {place : Position}
    {word : Word} {words : List Word} (shape : bareWords place stream.inner = word :: words)
    {holds : Program → Prop}
    (parses : Parses file [] nestingLimit (word :: words) program [] holds) (context : Context) :
    ∃ found final, parse stream context = .ok (true, final) ∧ final.program = some found ∧
      final.diagnostics = context.diagnostics ∧ holds found := by
  obtain ⟨facing, diagnostics⟩ := facing_stream within quiet closed place context
  rw [shape] at facing
  obtain ⟨held, advances⟩ := parses _ facing
  have unharmed := (parseTokens_run within context).fault_of_single
  refine ⟨_, _, parse_of_some unharmed (parseTokens_program facing.inner), rfl, ?_, held⟩
  rw [parseTokens_final facing.inner]
  exact advances.diagnostics.trans diagnostics

end Streams

/-!
Types as they are derived. A tree stands for a derivation of the grammar

* type: operands with arrows between them, and a type after a double arrow or none,
* operand: an atom with arguments or none,
* atom: a possibly qualified constructor, a variable, the unit type, one of the constructors of
  functions, tuples and lists, a type in parentheses, a tuple or list type.

The words of a tree are told by their kinds. Where blanks stand between them makes no difference, except
that the parts of a qualified name touch.
-/

/-! How words make up phrases. -/

def Beside (first later : List Word → Prop) (words : List Word) : Prop :=
  ∃ front back, words = front ++ back ∧ first front ∧ later back

def Heads (token : Token) (later : List Word → Prop) (words : List Word) : Prop :=
  ∃ word rest, words = word :: rest ∧ word.token = token ∧ later rest

def Encloses (opening closing : Token) (inside : List Word → Prop) : List Word → Prop :=
  Heads opening (Beside inside (Heads closing (· = [])))

mutual

inductive TypeAtom where
  | constructor (qualifiers : List (List Char)) (text : List Char)
  | typeVariable (text : List Char)
  | unit
  /-- The constructor of functions. -/
  | arrow
  /-- The constructor of tuples, with a comma and further ones. -/
  | tupleConstructor (further : Nat)
  | parenthesized (inner : TypeForm)
  | tuple (first second : TypeForm) (later : List TypeForm)
  /-- The constructor of lists. -/
  | listConstructor
  | list (element : TypeForm)

inductive TypeOperand where
  | applied (function : TypeAtom) (arguments : List TypeAtom)

inductive TypeForm where
  | arrows (first : TypeOperand) (later : List TypeOperand)
  /-- The type behind a double arrow. -/
  | constrained (first : TypeOperand) (later : List TypeOperand) (body : TypeForm)

end

/-! How deep brackets are nested. -/

mutual

def TypeAtom.nesting : TypeAtom → Nat
  | .constructor _ _ | .typeVariable _ => 0
  | .unit | .arrow | .tupleConstructor _ | .listConstructor => 1
  | .parenthesized inner => inner.nesting + 1
  | .tuple first second later =>
    max first.nesting (max second.nesting (TypeForm.listNesting later)) + 1
  | .list element => element.nesting + 1

def TypeAtom.listNesting : List TypeAtom → Nat
  | [] => 0
  | atom :: later => max atom.nesting (TypeAtom.listNesting later)

def TypeOperand.nesting : TypeOperand → Nat
  | .applied function arguments => max function.nesting (TypeAtom.listNesting arguments)

def TypeOperand.listNesting : List TypeOperand → Nat
  | [] => 0
  | operand :: later => max operand.nesting (TypeOperand.listNesting later)

def TypeForm.nesting : TypeForm → Nat
  | .arrows first later => max first.nesting (TypeOperand.listNesting later)
  | .constrained first later body =>
    max (max first.nesting (TypeOperand.listNesting later)) body.nesting

def TypeForm.listNesting : List TypeForm → Nat
  | [] => 0
  | form :: later => max form.nesting (TypeForm.listNesting later)

end

/-! Between the same brackets there is at most one double arrow. -/

mutual

def TypeAtom.IsSingle : TypeAtom → Prop
  | .parenthesized inner => inner.IsSingle
  | .tuple first second later =>
    first.IsSingle ∧ second.IsSingle ∧ TypeForm.AreSingle later
  | .list element => element.IsSingle
  | _ => True

def TypeAtom.AreSingle : List TypeAtom → Prop
  | [] => True
  | atom :: later => atom.IsSingle ∧ TypeAtom.AreSingle later

def TypeOperand.IsSingle : TypeOperand → Prop
  | .applied function arguments => function.IsSingle ∧ TypeAtom.AreSingle arguments

def TypeOperand.AreSingle : List TypeOperand → Prop
  | [] => True
  | operand :: later => operand.IsSingle ∧ TypeOperand.AreSingle later

def TypeForm.IsSingle : TypeForm → Prop
  | .arrows first later => first.IsSingle ∧ TypeOperand.AreSingle later
  | .constrained first later body =>
    first.IsSingle ∧ TypeOperand.AreSingle later ∧ body.IsSingle ∧
      match body with
      | .arrows _ _ => True
      | .constrained _ _ _ => False

def TypeForm.AreSingle : List TypeForm → Prop
  | [] => True
  | form :: later => form.IsSingle ∧ TypeForm.AreSingle later

end

/-! The words of a tree. -/

mutual

def TypeAtom.Derives : TypeAtom → List Word → Prop
  | .constructor qualifiers text, words =>
    ∃ gap, IsDotted .properIdentifier text gap qualifiers words
  | .typeVariable text, words => ∃ gap, words = [⟨.identifier, text, gap⟩]
  | .unit, words => Encloses .openParen .closeParen (· = []) words
  | .arrow, words => Encloses .openParen .closeParen (Heads .arrow (· = [])) words
  | .tupleConstructor further, words =>
    Encloses .openParen .closeParen
      (fun content => content.map Word.token = List.replicate (further + 1) .comma) words
  | .parenthesized inner, words => Encloses .openParen .closeParen inner.Derives words
  | .tuple first second later, words =>
    Encloses .openParen .closeParen
      (Beside first.Derives (Beside (Heads .comma second.Derives)
        (TypeForm.LaterDerive later))) words
  | .listConstructor, words => Encloses .openBracket .closeBracket (· = []) words
  | .list element, words => Encloses .openBracket .closeBracket element.Derives words

def TypeAtom.ListDerives : List TypeAtom → List Word → Prop
  | [], words => words = []
  | atom :: later, words => Beside atom.Derives (TypeAtom.ListDerives later) words

def TypeOperand.Derives : TypeOperand → List Word → Prop
  | .applied function arguments, words =>
    Beside function.Derives (TypeAtom.ListDerives arguments) words

def TypeOperand.LaterDerive : List TypeOperand → List Word → Prop
  | [], words => words = []
  | operand :: later, words =>
    Beside (Heads .arrow operand.Derives) (TypeOperand.LaterDerive later) words

def TypeForm.Derives : TypeForm → List Word → Prop
  | .arrows first later, words => Beside first.Derives (TypeOperand.LaterDerive later) words
  | .constrained first later body, words =>
    Beside (Beside first.Derives (TypeOperand.LaterDerive later))
      (Heads .doubleArrow body.Derives) words

def TypeForm.LaterDerive : List TypeForm → List Word → Prop
  | [], words => words = []
  | form :: later, words =>
    Beside (Heads .comma form.Derives) (TypeForm.LaterDerive later) words

end

/-! The type terms that stand for a tree, with spans anywhere. A type in parentheses stands for itself,
and arrows lean to the right. -/

section Matches

variable (file : FileId) (source : List Char)

mutual

def TypeAtom.Matches : TypeAtom → TypeTerm → Prop
  | .constructor qualifiers text, term => ∃ name, term = .constructor name ∧
      IsNamed file source qualifiers (IsPart file source text) name
  | .typeVariable text, term => ∃ name, term = .typeVariable name ∧ IsPart file source text name
  | .unit, term => ∃ span, term = .unit span
  | .arrow, term | .tupleConstructor _, term | .listConstructor, term =>
    ∃ span, term = .constructor (.special span)
  | .parenthesized inner, term => inner.Matches term
  | .tuple first second later, term => ∃ one other others span,
      term = .tuple (one :: other :: others) span ∧ first.Matches one ∧ second.Matches other ∧
        TypeForm.ListMatches later others
  | .list element, term => ∃ inner span, term = .list inner span ∧ element.Matches inner

def TypeAtom.ListMatches : List TypeAtom → List TypeTerm → Prop
  | [], terms => terms = []
  | atom :: later, terms => ∃ first others,
      terms = first :: others ∧ atom.Matches first ∧ TypeAtom.ListMatches later others

def TypeOperand.Matches : TypeOperand → TypeTerm → Prop
  | .applied function arguments, term =>
    if arguments.isEmpty then function.Matches term
    else ∃ head others span, term = .application head others span ∧ function.Matches head ∧
      TypeAtom.ListMatches arguments others

def TypeOperand.ArrowsMatch (first : TypeTerm → Prop) : List TypeOperand → TypeTerm → Prop
  | [], term => first term
  | next :: later, term => ∃ parameter result span,
      term = .function parameter result span ∧ first parameter ∧
        TypeOperand.ArrowsMatch next.Matches later result

def TypeForm.Matches : TypeForm → TypeTerm → Prop
  | .arrows first later, term => TypeOperand.ArrowsMatch first.Matches later term
  | .constrained first later body, term => ∃ context inner span,
      term = .constrained context inner span ∧
        TypeOperand.ArrowsMatch first.Matches later context ∧ body.Matches inner

def TypeForm.ListMatches : List TypeForm → List TypeTerm → Prop
  | [], terms => terms = []
  | form :: later, terms => ∃ first others,
      terms = first :: others ∧ form.Matches first ∧ TypeForm.ListMatches later others

end

end Matches

end Offside.Haskell.Core
