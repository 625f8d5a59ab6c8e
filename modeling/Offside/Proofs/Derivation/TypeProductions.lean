import Offside.Proofs.Derivation.Types

/-!
Derived types as they are read. Every bracket around a type takes one nesting level. A double arrow is
looked for once behind a chain of arrows, so a type with at most one between the same brackets is read
up to the token that closes it.
-/

namespace Offside.Haskell.Core

set_option autoImplicit false

open Offside.Lexical Offside.Parse Offside.Haskell.Grammar

section Reading

variable (file : FileId) (source : List Char) (further : Nat)

def TypeAtom.IsRead (atom : TypeAtom) : Prop :=
  ∀ words later, atom.Derives words → Loose later →
    Parses file source further (words ++ later) (typeAtom (level further)) later
      (atom.Matches file source)

def TypeOperand.IsRead : TypeOperand → Prop
  | .applied function arguments => function.IsRead file source further ∧
      ∀ atom ∈ arguments, atom.IsRead file source further

def TypeForm.IsRead (form : TypeForm) : Prop :=
  ∀ words later, form.Derives words → isCloser (aheadOf later) = true →
    Parses file source further (words ++ later) (level further).type later
      (form.Matches file source)

end Reading

section Productions

variable {file : FileId} {source : List Char} {further room : Nat} {words later : List Word}
  {opening closing token : Token} {inside : List Word → Prop}

theorem loose_of_ahead (other : aheadOf words ≠ .dot) : Loose words := by
  intro word member dotted
  cases words with
  | nil => cases member
  | cons first others =>
    cases member
    exact absurd dotted other

theorem Encloses.split (encloses : Encloses opening closing inside words) (later : List Word) :
    ∃ first content last, words ++ later = first :: (content ++ last :: later) ∧
      first.token = opening ∧ last.token = closing ∧ inside content := by
  obtain ⟨first, rest, rfl, opens, content, ends, rfl, held, last, _, rfl, closes, rfl⟩ := encloses
  exact ⟨first, content, last, by simp, opens, closes, held⟩

/-- A type starts with one of its atoms, and never with a token that is none of theirs. -/
theorem TypeAtom.head {atom : TypeAtom} (derives : atom.Derives words) :
    ∃ word rest, words = word :: rest ∧ startsTypeAtom word.token = true := by
  have enclosed : ∀ {opening closing inside}, startsTypeAtom opening = true →
      Encloses opening closing inside words →
        ∃ word rest, words = word :: rest ∧ startsTypeAtom word.token = true := by
    rintro opening closing inside starts ⟨word, rest, split, opens, -⟩
    exact ⟨word, rest, split, by rw [opens, starts]⟩
  cases atom with
  | constructor qualifiers text =>
    obtain ⟨gap, dotted⟩ := derives
    obtain ⟨word, rest, split, -, kind⟩ := dotted.head
    refine ⟨word, rest, split, ?_⟩
    rcases kind with same | same
    · rw [same]
      rfl
    · rw [same]
      rfl
  | typeVariable text =>
    obtain ⟨gap, rfl⟩ := derives
    exact ⟨_, _, rfl, rfl⟩
  | _ => exact enclosed rfl derives

theorem TypeOperand.head {operand : TypeOperand} (derives : operand.Derives words) :
    ∃ word rest, words = word :: rest ∧ startsTypeAtom word.token = true := by
  cases operand with
  | applied function arguments =>
    obtain ⟨front, back, rfl, derives, -⟩ := derives
    obtain ⟨word, rest, rfl, starts⟩ := function.head derives
    exact ⟨word, rest ++ back, rfl, starts⟩

theorem TypeForm.head {form : TypeForm} (derives : form.Derives words) :
    ∃ word rest, words = word :: rest ∧ startsTypeAtom word.token = true := by
  cases form with
  | arrows first later =>
    obtain ⟨front, back, rfl, derives, -⟩ := derives
    obtain ⟨word, rest, rfl, starts⟩ := first.head derives
    exact ⟨word, rest ++ back, rfl, starts⟩
  | constrained first later body =>
    obtain ⟨_, body, rfl, ⟨front, back, rfl, derives, -⟩, -⟩ := derives
    obtain ⟨word, rest, rfl, starts⟩ := first.head derives
    exact ⟨word, rest ++ back ++ body, by simp, starts⟩

theorem TypeForm.ahead_ne {form : TypeForm} (derives : form.Derives words)
    (other : startsTypeAtom token = false) : aheadOf (words ++ later) ≠ token := by
  obtain ⟨word, rest, rfl, starts⟩ := form.head derives
  rintro rfl
  cases other.symm.trans starts

/-! Names and constructors. -/

theorem isRead_constructor (qualifiers : List (List Char)) (text : List Char) :
    (TypeAtom.constructor qualifiers text).IsRead file source further := by
  rintro words later ⟨gap, dotted⟩ loose
  have ahead : aheadOf (words ++ later) = .properIdentifier := by
    obtain ⟨word, rest, rfl, -, kind⟩ := dotted.head
    exact kind.elim id id
  refine Parses.ahead ahead ?_
  have last : ∀ gap, Parses file source further (⟨.properIdentifier, text, gap⟩ :: later)
      eitherIdentifier later (IsPart file source text) := fun gap =>
    Parses.unlessAt (by simp [aheadOf]) (parses_nameAt (by decide) text gap)
  refine (dotted.parses_qualifiedBy rfl loose last fun _ => IsPart.inFile).bind ?_
  exact fun name named => Parses.pure ⟨name, rfl, named⟩

theorem isRead_typeVariable (text : List Char) :
    (TypeAtom.typeVariable text).IsRead file source further := by
  rintro words later ⟨gap, rfl⟩ loose
  refine Parses.ahead rfl ((parses_nameAt (by decide) text gap).bind ?_)
  exact fun name part => Parses.pure ⟨name, rfl, part⟩

theorem isRead_unitType : TypeAtom.unit.IsRead file source further := by
  intro words later derives loose
  obtain ⟨first, content, last, split, opens, closes, rfl⟩ := derives.split later
  rw [split]
  refine Parses.ahead opens (Parses.start fun start => Parses.consume ?_)
  exact Parses.whenAccepted (by decide) closes
    (Parses.spanFrom fun span => Parses.pure ⟨span, rfl⟩)

theorem parses_skipAll_run {run : List Word} (all : ∀ word ∈ run, word.token = token)
    (inner : token ≠ .endOfInput) (other : aheadOf later ≠ token) :
    Parses file source room (run ++ later) (Parse.skipAll token) later fun _ => True := by
  induction run with
  | nil => exact parses_skipAll other
  | cons word run induction =>
    rw [List.forall_mem_cons] at all
    intro parser facing
    have ahead : parser.ahead = token := facing.ahead.trans all.1
    have next : Parse.skipAll token parser = Parse.skipAll token parser.consume := by
      change ((), parser.skipAll token) = ((), parser.consume.skipAll token)
      rw [Parser.skipAll, dif_neg (by simp [Parser.isAtEnd, ahead, inner]), if_pos ahead]
    rw [next]
    have consumed := Facing.consume facing
    obtain ⟨-, advances⟩ := induction all.2 _ consumed.facing
    exact ⟨trivial, consumed.trans advances⟩

/-- A constructor of arrows and commas, behind the opening parenthesis. -/
theorem parses_typeConstructor {inner : Level} {run arrow : List Word} {first last : Word}
    (closes : last.token = .closeParen) (commas : ∀ word ∈ run, word.token = .comma)
    (arrows : arrow = [] ∧ run ≠ [] ∨ run = [] ∧ ∃ word, arrow = [word] ∧ word.token = .arrow) :
    Parses file source room (first :: (run ++ (arrow ++ last :: later))) (parenthesizedType inner)
      later fun term => ∃ span, term = .constructor (.special span) := by
  have begins : aheadOf (run ++ (arrow ++ last :: later)) = .comma ∨
      aheadOf (run ++ (arrow ++ last :: later)) = .arrow := by
    rcases arrows with ⟨rfl, some⟩ | ⟨rfl, word, rfl, kind⟩
    · obtain ⟨comma, others, rfl⟩ := List.exists_cons_of_ne_nil some
      exact .inl (commas comma List.mem_cons_self)
    · exact .inr kind
  refine Parses.start fun start => Parses.consume ?_
  refine Parses.unlessAccepted (by decide) (by rcases begins with same | same <;> simp [same]) ?_
  refine Parses.decided (parses_isAt .arrow) (Parses.decided (parses_isAt .comma) ?_)
  rw [if_pos (by rcases begins with same | same <;> simp [same])]
  have behind : aheadOf (arrow ++ last :: later) ≠ .comma := by
    rcases arrows with ⟨rfl, -⟩ | ⟨-, word, rfl, kind⟩
    · simp [aheadOf, closes]
    · simp [aheadOf, kind]
  refine (parses_skipAll_run commas (by decide) behind).bind fun _ _ => ?_
  have passed : ∃ found, Parses file source room (arrow ++ last :: later) (accept .arrow)
      (last :: later) (· = found) := by
    rcases arrows with ⟨rfl, -⟩ | ⟨-, word, rfl, kind⟩
    · exact ⟨false, parses_accept_other (by decide) (by simp [aheadOf, closes])⟩
    · exact ⟨true, parses_accept (by decide) kind⟩
  obtain ⟨found, accepts⟩ := passed
  refine Parses.decided accepts (Parses.decided (parses_expectOrSkipTo (by decide) closes) ?_)
  exact Parses.spanFrom fun span => Parses.pure ⟨span, rfl⟩

theorem isRead_arrow : TypeAtom.arrow.IsRead file source further := by
  intro words later derives loose
  obtain ⟨first, content, last, split, opens, closes, arrow, _, rfl, kind, rfl⟩ :=
    derives.split later
  rw [split]
  refine Parses.ahead opens ?_
  exact @parses_typeConstructor file source further later _ [] [arrow] first last closes
    (by simp) (.inr ⟨rfl, arrow, rfl, kind⟩)

theorem isRead_tupleConstructor (count : Nat) :
    (TypeAtom.tupleConstructor count).IsRead file source further := by
  intro words later derives loose
  obtain ⟨first, content, last, split, opens, closes, commas⟩ := derives.split later
  rw [split]
  refine Parses.ahead opens ?_
  refine @parses_typeConstructor file source further later _ content [] first last closes
    ?_ (.inl ⟨rfl, ?_⟩)
  · intro word member
    have among := List.mem_map_of_mem (f := Word.token) member
    rw [commas] at among
    exact List.eq_of_mem_replicate among
  · rintro rfl
    simp at commas

theorem isRead_listConstructor : TypeAtom.listConstructor.IsRead file source further := by
  intro words later derives loose
  obtain ⟨first, content, last, split, opens, closes, rfl⟩ := derives.split later
  rw [split]
  refine Parses.ahead opens (Parses.start fun start => Parses.consume ?_)
  exact Parses.whenAccepted (by decide) closes
    (Parses.spanFrom fun span => Parses.pure ⟨span, rfl⟩)

/-! Types between brackets. -/

theorem isRead_listType {element : TypeForm} (read : element.IsRead file source further) :
    (TypeAtom.list element).IsRead file source further := by
  intro words later derives loose
  obtain ⟨first, content, last, split, opens, closes, inside⟩ := derives.split later
  rw [split]
  refine Parses.ahead opens (Parses.start fun start => Parses.consume ?_)
  refine Parses.unlessAccepted (by decide) (element.ahead_ne inside rfl) ?_
  refine (read content _ inside (by simp [aheadOf, closes, isCloser])).bind fun inner matched => ?_
  exact Parses.decided (parses_expectOrSkipTo (by decide) closes)
    (Parses.spanFrom fun span => Parses.pure ⟨inner, span, rfl, matched⟩)

theorem parses_parenthesizedType {form : TypeForm} {first : Word} {content behind : List Word}
    {holds : TypeTerm → Prop} (read : form.IsRead file source further)
    (opens : first.token = .openParen) (derives : form.Derives content)
    (closes : isCloser (aheadOf behind) = true)
    (next : ∀ start term, form.Matches file source term → Parses file source further behind
      (do if ← isAt .comma then
            let others ← many (accept .comma) (level further).type
            let _ ← expectOrSkipTo .closeParen
            return TypeTerm.tuple (term :: others) (← spanFrom start)
          else
            let _ ← expectOrSkipTo .closeParen
            return term) later holds) :
    Parses file source further (first :: (content ++ behind)) (typeAtom (level further)) later
      holds := by
  refine Parses.ahead opens (Parses.start fun start => Parses.consume ?_)
  refine Parses.unlessAccepted (by decide) (form.ahead_ne derives rfl) ?_
  refine Parses.decided (parses_isAt .arrow) (Parses.decided (parses_isAt .comma) ?_)
  have arrow : aheadOf (content ++ behind) ≠ .arrow := form.ahead_ne derives rfl
  have comma : aheadOf (content ++ behind) ≠ .comma := form.ahead_ne derives rfl
  rw [if_neg (by simp [arrow, comma])]
  exact (read content behind derives closes).bind fun term matched => next start term matched

theorem isRead_parenthesizedType {inner : TypeForm} (read : inner.IsRead file source further) :
    (TypeAtom.parenthesized inner).IsRead file source further := by
  intro words later derives loose
  obtain ⟨first, content, last, split, opens, closes, inside⟩ := derives.split later
  rw [split]
  refine parses_parenthesizedType read opens inside (by simp [aheadOf, closes, isCloser]) ?_
  intro start term matched
  refine Parses.unlessAt (by simp [aheadOf, closes]) ?_
  exact Parses.decided (parses_expectOrSkipTo (by decide) closes) (Parses.pure matched)

/-- By induction on the types: each is read behind its comma. -/
theorem parses_laterTypes {forms : List TypeForm}
    (reads : ∀ form ∈ forms, form.IsRead file source further)
    (derive : TypeForm.LaterDerive forms words) (closes : isCloser (aheadOf later) = true)
    (other : aheadOf later ≠ .comma) :
    Parses file source further (words ++ later) (many (accept .comma) (level further).type) later
      (TypeForm.ListMatches file source forms) := by
  induction forms generalizing words with
  | nil =>
    obtain rfl : words = [] := derive
    exact parses_many_stop (parses_accept_other (by decide) other)
  | cons form others induction =>
    rw [List.forall_mem_cons] at reads
    obtain ⟨_, rest, rfl, ⟨comma, own, rfl, kind, derives⟩, derive⟩ := derive
    have next : isCloser (aheadOf (rest ++ later)) = true := by
      cases others with
      | nil =>
        obtain rfl : rest = [] := derive
        exact closes
      | cons =>
        obtain ⟨_, _, rfl, ⟨comma, own, rfl, kind, -⟩, -⟩ := derive
        simp [aheadOf, kind, isCloser]
    rw [List.cons_append, List.cons_append, List.append_assoc]
    refine parses_many_step (parses_accept (by decide) kind) (reads.1 own _ derives next) ?_
      (induction reads.2 derive)
    simp only [List.length_cons, List.length_append]
    omega

theorem isRead_tupleType {first second : TypeForm} {forms : List TypeForm}
    (read : first.IsRead file source further)
    (reads : ∀ form ∈ second :: forms, form.IsRead file source further) :
    (TypeAtom.tuple first second forms).IsRead file source further := by
  intro words later derives loose
  obtain ⟨opening, content, last, split, opens, closes, front, back, rfl, derives, rest⟩ :=
    derives.split later
  have elements : TypeForm.LaterDerive (second :: forms) back := rest
  have comma : aheadOf (back ++ last :: later) = .comma := by
    obtain ⟨_, _, rfl, ⟨comma, own, rfl, kind, -⟩, -⟩ := rest
    exact kind
  rw [split, List.append_assoc]
  refine parses_parenthesizedType read opens derives (by rw [comma]; rfl) ?_
  intro start term matched
  refine Parses.whenAt comma ?_
  refine (parses_laterTypes reads elements (by simp [aheadOf, closes, isCloser])
    (by simp [aheadOf, closes])).bind ?_
  rintro _ ⟨other, others, rfl, following, further⟩
  exact Parses.decided (parses_expectOrSkipTo (by decide) closes)
    (Parses.spanFrom fun span => Parses.pure ⟨term, other, others, span, rfl, matched, following,
      further⟩)

/-! Applications and arrows. -/

def endsTypeOperand (token : Token) : Bool := !startsTypeAtom token && token != .dot

/-- By induction on the arguments: all are read. -/
theorem parses_typeArguments {atoms : List TypeAtom}
    (reads : ∀ atom ∈ atoms, atom.IsRead file source further)
    (derive : TypeAtom.ListDerives atoms words) (ends : endsTypeOperand (aheadOf later) = true) :
    Loose (words ++ later) ∧
      Parses file source further (words ++ later)
        (many (do return startsTypeAtom (← ahead)) (typeAtom (level further))) later
        (TypeAtom.ListMatches file source atoms) := by
  simp only [endsTypeOperand, Bool.and_eq_true, Bool.not_eq_true', bne_iff_ne] at ends
  induction atoms generalizing words with
  | nil =>
    obtain rfl : words = [] := derive
    refine ⟨loose_of_ahead ends.2, parses_many_stop ?_⟩
    exact Parses.ahead rfl (Parses.pure ends.1)
  | cons atom others induction =>
    rw [List.forall_mem_cons] at reads
    obtain ⟨own, rest, rfl, derives, derive⟩ := derive
    obtain ⟨loose, parses⟩ := induction reads.2 derive
    obtain ⟨word, more, rfl, starts⟩ := atom.head derives
    rw [List.append_assoc]
    constructor
    · apply loose_of_ahead
      rintro dot
      have same : word.token = .dot := dot
      rw [same] at starts
      cases starts
    · refine parses_many_step (Parses.ahead rfl (Parses.pure starts))
        (reads.1 _ _ derives loose) ?_ parses
      simp only [List.cons_append, List.length_cons, List.length_append]
      omega

theorem TypeOperand.parses {operand : TypeOperand} (read : operand.IsRead file source further)
    (derives : operand.Derives words) (ends : endsTypeOperand (aheadOf later) = true) :
    Parses file source further (words ++ later) (typeApplication (level further)) later
      (operand.Matches file source) := by
  cases operand with
  | applied function atoms =>
    obtain ⟨own, rest, rfl, derives, derive⟩ := derives
    obtain ⟨loose, parses⟩ := parses_typeArguments read.2 derive ends
    rw [List.append_assoc]
    refine Parses.start fun start => (read.1 own _ derives loose).bind fun head matched => ?_
    refine parses.bind fun arguments others => ?_
    cases atoms with
    | nil =>
      obtain rfl : arguments = [] := others
      exact Parses.pure matched
    | cons atom atoms =>
      obtain ⟨first, later, rfl, -⟩ := id others
      exact Parses.spanFrom fun span => Parses.pure ⟨head, _, span, rfl, matched, others⟩

/-- By induction on the operands: each is read behind its arrow. -/
theorem parses_laterOperands {operands : List TypeOperand}
    (reads : ∀ operand ∈ operands, operand.IsRead file source further)
    (derive : TypeOperand.LaterDerive operands words)
    (ends : endsTypeOperand (aheadOf later) = true) (other : aheadOf later ≠ .arrow) :
    endsTypeOperand (aheadOf (words ++ later)) = true ∧
      Parses file source further (words ++ later)
        (many (accept .arrow) (typeApplication (level further))) later
        (List.Forall₂ (TypeOperand.Matches file source) operands) := by
  induction operands generalizing words with
  | nil =>
    obtain rfl : words = [] := derive
    exact ⟨ends, (parses_many_stop (parses_accept_other (by decide) other)).mono
      fun _ none => none ▸ .nil⟩
  | cons operand others induction =>
    rw [List.forall_mem_cons] at reads
    obtain ⟨_, rest, rfl, ⟨arrow, own, rfl, kind, derives⟩, derive⟩ := derive
    obtain ⟨next, parses⟩ := induction reads.2 derive
    rw [List.cons_append, List.cons_append, List.append_assoc]
    refine ⟨by simp [aheadOf, kind, endsTypeOperand, startsTypeAtom], ?_⟩
    refine (parses_many_step (parses_accept (by decide) kind)
      (TypeOperand.parses reads.1 derives next) ?_ parses).mono ?_
    · simp only [List.length_cons, List.length_append]
      omega
    · rintro _ ⟨value, values, rfl, matched, further⟩
      exact .cons matched further

/-- By induction on the operands: they are joined from the right. -/
theorem parses_arrows {operands : List TypeOperand} {terms : List TypeTerm}
    (matched : List.Forall₂ (TypeOperand.Matches file source) operands terms)
    {first : TypeTerm → Prop} {term : TypeTerm} (held : first term) :
    Parses file source room words (arrows term terms) words
      (TypeOperand.ArrowsMatch file source first operands) := by
  induction matched generalizing first term with
  | nil => exact Parses.pure held
  | @cons operand next operands terms holds later induction =>
    refine (induction holds).bind fun result joined => ?_
    exact Parses.join fun span => Parses.pure ⟨term, result, span, rfl, held, joined⟩

theorem parses_functionType {first : TypeOperand} {operands : List TypeOperand}
    (read : first.IsRead file source further)
    (reads : ∀ operand ∈ operands, operand.IsRead file source further)
    (derives : Beside first.Derives (TypeOperand.LaterDerive operands) words)
    (ends : endsTypeOperand (aheadOf later) = true) (other : aheadOf later ≠ .arrow) :
    Parses file source further (words ++ later) (functionType (level further)) later
      (TypeOperand.ArrowsMatch file source (first.Matches file source) operands) := by
  obtain ⟨own, rest, rfl, derives, derive⟩ := derives
  obtain ⟨next, parses⟩ := parses_laterOperands reads derive ends other
  rw [List.append_assoc]
  refine (TypeOperand.parses read derives next).bind fun term matched => ?_
  exact parses.bind fun terms others => parses_arrows others matched

theorem closer_endsType (closes : isCloser token = true) :
    endsTypeOperand token = true ∧ token ≠ .arrow ∧ token ≠ .doubleArrow := by
  cases token <;> first | decide | cases closes

theorem isRead_arrows {first : TypeOperand} {operands : List TypeOperand}
    (read : first.IsRead file source further)
    (reads : ∀ operand ∈ operands, operand.IsRead file source further) :
    (TypeForm.arrows first operands).IsRead file source (further + 1) := by
  intro words later derives closes
  obtain ⟨ends, noArrow, noDouble⟩ := closer_endsType closes
  refine parses_nested (Parses.start fun start => ?_)
  refine (parses_functionType read reads derives ends noArrow).bind fun term matched => ?_
  exact Parses.unlessAccepted (by decide) noDouble (Parses.pure matched)

theorem isRead_constrained {first next : TypeOperand} {operands others : List TypeOperand}
    (read : first.IsRead file source further)
    (reads : ∀ operand ∈ operands, operand.IsRead file source further)
    (readNext : next.IsRead file source further)
    (readOthers : ∀ operand ∈ others, operand.IsRead file source further) :
    (TypeForm.constrained first operands (.arrows next others)).IsRead file source
      (further + 1) := by
  intro words later derives closes
  obtain ⟨ends, noArrow, -⟩ := closer_endsType closes
  obtain ⟨context, _, rfl, derives, sign, body, rfl, kind, derivesBody⟩ := derives
  have behind : aheadOf (sign :: (body ++ later)) = .doubleArrow := kind
  rw [List.append_assoc, List.cons_append]
  refine parses_nested (Parses.start fun start => ?_)
  refine (parses_functionType read reads derives (by rw [behind]; rfl)
    (by rw [behind]; decide)).bind fun term matched => ?_
  refine Parses.whenAccepted (by decide) kind ?_
  refine (parses_functionType readNext readOthers derivesBody ends noArrow).bind
    fun inner matchedBody => ?_
  exact Parses.spanFrom fun span => Parses.pure ⟨term, inner, span, rfl, matched, matchedBody⟩

/-! Every tree with single double arrows is read if there is a further level for each bracket around
its innermost parts, and one for the tree itself. -/

section Trees

variable (file source)

mutual

theorem TypeAtom.isRead (atom : TypeAtom) (single : atom.IsSingle) {further : Nat}
    (room : atom.nesting ≤ further) : atom.IsRead file source further := by
  cases atom with
  | constructor qualifiers text => exact isRead_constructor qualifiers text
  | typeVariable text => exact isRead_typeVariable text
  | unit => exact isRead_unitType
  | arrow => exact isRead_arrow
  | tupleConstructor count => exact isRead_tupleConstructor count
  | parenthesized inner =>
    rw [TypeAtom.nesting] at room
    exact isRead_parenthesizedType (inner.isRead single room)
  | tuple first second later =>
    rw [TypeAtom.nesting] at room
    exact isRead_tupleType (first.isRead single.1 (by omega))
      (List.forall_mem_cons.2 ⟨second.isRead single.2.1 (by omega),
        TypeForm.areRead later single.2.2 (by omega)⟩)
  | listConstructor => exact isRead_listConstructor
  | list element =>
    rw [TypeAtom.nesting] at room
    exact isRead_listType (element.isRead single room)

theorem TypeAtom.areRead (atoms : List TypeAtom) (single : TypeAtom.AreSingle atoms)
    {further : Nat} (room : TypeAtom.listNesting atoms ≤ further) :
    ∀ atom ∈ atoms, atom.IsRead file source further := by
  cases atoms with
  | nil => simp
  | cons atom later =>
    rw [TypeAtom.listNesting] at room
    exact List.forall_mem_cons.2 ⟨atom.isRead single.1 (by omega),
      TypeAtom.areRead later single.2 (by omega)⟩

theorem TypeOperand.isRead (operand : TypeOperand) (single : operand.IsSingle) {further : Nat}
    (room : operand.nesting ≤ further) : operand.IsRead file source further := by
  cases operand with
  | applied function atoms =>
    rw [TypeOperand.nesting] at room
    exact ⟨function.isRead single.1 (by omega), TypeAtom.areRead atoms single.2 (by omega)⟩

theorem TypeOperand.areRead (operands : List TypeOperand)
    (single : TypeOperand.AreSingle operands) {further : Nat}
    (room : TypeOperand.listNesting operands ≤ further) :
    ∀ operand ∈ operands, operand.IsRead file source further := by
  cases operands with
  | nil => simp
  | cons operand later =>
    rw [TypeOperand.listNesting] at room
    exact List.forall_mem_cons.2 ⟨operand.isRead single.1 (by omega),
      TypeOperand.areRead later single.2 (by omega)⟩

theorem TypeForm.isRead (form : TypeForm) (single : form.IsSingle) {further : Nat}
    (room : form.nesting < further) : form.IsRead file source further := by
  obtain ⟨further, rfl⟩ := Nat.exists_eq_add_of_le' (Nat.succ_le_of_lt (Nat.zero_lt_of_lt room))
  cases form with
  | arrows first later =>
    rw [TypeForm.nesting] at room
    exact isRead_arrows (first.isRead single.1 (by omega))
      (TypeOperand.areRead later single.2 (by omega))
  | constrained first later body =>
    cases body with
    | constrained => exact single.2.2.2.elim
    | arrows next others =>
      rw [TypeForm.nesting, TypeForm.nesting] at room
      exact isRead_constrained (first.isRead single.1 (by omega))
        (TypeOperand.areRead later single.2.1 (by omega))
        (next.isRead single.2.2.1.1 (by omega))
        (TypeOperand.areRead others single.2.2.1.2 (by omega))

theorem TypeForm.areRead (forms : List TypeForm) (single : TypeForm.AreSingle forms)
    {further : Nat} (room : TypeForm.listNesting forms < further) :
    ∀ form ∈ forms, form.IsRead file source further := by
  cases forms with
  | nil => simp
  | cons form later =>
    rw [TypeForm.listNesting] at room
    exact List.forall_mem_cons.2 ⟨form.isRead single.1 (by omega),
      TypeForm.areRead later single.2 (by omega)⟩

end

end Trees

end Productions

end Offside.Haskell.Core
