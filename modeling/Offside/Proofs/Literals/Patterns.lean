import Mathlib.Computability.RegularExpressions
import Offside.Proofs.Lexical.Spellings
import Offside.Proofs.Literals.Kinds

/-!
Regular patterns and what reads them. A part of a token is read without looking back: it takes as many
characters as it can and is given up for good. Such reading finds the longest match of a pattern whose
parts cannot be told apart too late, because no part starts with a character that would continue the
part before it. Numbers are such patterns.
-/

namespace Offside.Lexical

set_option autoImplicit false

open RegularExpression

def oneOf (characters : List Char) : RegularExpression Char :=
  characters.foldr (fun character others => char character + others) 0

def optional (pattern : RegularExpression Char) : RegularExpression Char := 1 + pattern

def anyOf (characters : List Char) : RegularExpression Char := star (oneOf characters)

section Matching

variable {pattern other : RegularExpression Char} {characters : List Char} {text : List Char}

theorem matches_oneOf :
    text ∈ (oneOf characters).matches' ↔ ∃ character ∈ characters, text = [character] := by
  induction characters with
  | nil => simp [oneOf]
  | cons first later induction =>
    have split : text ∈ (oneOf (first :: later)).matches' ↔
        text = [first] ∨ text ∈ (oneOf later).matches' := Iff.rfl
    rw [split, induction]
    simp

theorem matches_optional :
    text ∈ (optional pattern).matches' ↔ text = [] ∨ text ∈ pattern.matches' :=
  Iff.rfl

theorem matches_mul :
    text ∈ (pattern * other).matches' ↔
      ∃ front ∈ pattern.matches', ∃ back ∈ other.matches', front ++ back = text :=
  Language.mem_mul

theorem matches_anyOf :
    text ∈ (anyOf characters).matches' ↔ ∀ character ∈ text, character ∈ characters := by
  rw [anyOf, matches'_star, Language.mem_kstar]
  constructor
  · rintro ⟨pieces, rfl, each⟩ character member
    obtain ⟨piece, among, inside⟩ := List.mem_flatten.1 member
    obtain ⟨only, known, rfl⟩ := matches_oneOf.1 (each piece among)
    rw [List.mem_singleton.1 inside]
    exact known
  · intro known
    have pieces : (text.map fun character => [character]).flatten = text :=
      List.flatMap_singleton' text
    refine ⟨text.map fun character => [character], pieces.symm, fun piece member => ?_⟩
    obtain ⟨character, among, rfl⟩ := List.mem_map.1 member
    exact matches_oneOf.2 ⟨character, known character among, rfl⟩

theorem take_add_matches {count more : Nat} (front : text.take count ∈ pattern.matches')
    (back : (text.drop count).take more ∈ other.matches') :
    text.take (count + more) ∈ (pattern * other).matches' := by
  rw [List.take_add]
  exact matches_mul.2 ⟨_, front, _, back, rfl⟩

theorem takeWhile_matches {accepts : Char → Bool}
    (known : ∀ character, accepts character = true ↔ character ∈ characters) (text : List Char) :
    text.take (text.takeWhile accepts).length ∈ (anyOf characters).matches' := by
  rw [take_takeWhile, matches_anyOf]
  exact fun character member => (known character).1 (List.mem_takeWhile_imp member)

theorem mark_matches {accepts : Char → Bool}
    (known : ∀ character, accepts character = true ↔ character ∈ characters) (text : List Char) :
    text.take (if leads accepts text then 1 else 0) ∈ (optional (oneOf characters)).matches' := by
  split
  · rename_i led
    cases text with
    | nil => cases led
    | cons first rest => exact .inr (matches_oneOf.2 ⟨first, (known first).1 led, rfl⟩)
  · exact .inl rfl

end Matching

structure IsLongestMatch (pattern : RegularExpression Char) (text literal : List Char) : Prop where
  starts : literal <+: text
  matching : literal ∈ pattern.matches'
  longest : ∀ other, other <+: text → other ∈ pattern.matches' → other.length ≤ literal.length

theorem IsLongestMatch.take {pattern : RegularExpression Char} {text : List Char} {width : Nat}
    (matching : text.take width ∈ pattern.matches')
    (longest : ∀ other, other <+: text → other ∈ pattern.matches' → other.length ≤ width) :
    IsLongestMatch pattern text (text.take width) where
  starts := List.take_prefix _ _
  matching := matching
  longest := by
    intro other starts found
    rw [List.length_take]
    exact Nat.le_min.2 ⟨longest other starts found, starts.length_le⟩

/-- A width that is never exceeded by a match, and that is the width of a match which ends in front of
a character that cannot continue it. -/
structure Munches (pattern : RegularExpression Char) (width : List Char → Nat)
    (continuing : List Char) : Prop where
  longest : ∀ front back, front ∈ pattern.matches' → front.length ≤ width (front ++ back)
  exact : ∀ front next back, front ∈ pattern.matches' → next ∉ continuing →
    width (front ++ next :: back) = front.length

namespace Munches

variable {pattern other : RegularExpression Char} {width further : List Char → Nat}
  {continuing more : List Char}

theorem mono (munches : Munches pattern width continuing)
    (fewer : ∀ text, text ∈ other.matches' → text ∈ pattern.matches') :
    Munches other width continuing where
  longest := fun front back matching => munches.longest front back (fewer front matching)
  exact := fun front next back matching => munches.exact front next back (fewer front matching)

/-- One part behind another, if no match of the second starts with a character that continues the
first. -/
theorem followed (one : Munches pattern width continuing) (two : Munches other further more)
    (apart : ∀ next back, next :: back ∈ other.matches' → next ∉ continuing) :
    Munches (pattern * other) (fun text => width text + further (text.drop (width text)))
      (continuing ++ more) where
  longest := by
    intro text rest matching
    obtain ⟨front, first, back, second, rfl⟩ := matches_mul.1 matching
    cases back with
    | nil =>
      have reached := one.longest front rest first
      rw [List.append_nil]
      omega
    | cons next back =>
      have ended := one.exact front next (back ++ rest) first (apart next back second)
      have reached := two.longest (next :: back) rest second
      rw [List.append_assoc, List.cons_append, ended, List.drop_left, List.length_append]
      rw [List.cons_append] at reached
      omega
  exact := by
    intro text last rest matching stops
    obtain ⟨front, first, back, second, rfl⟩ := matches_mul.1 matching
    rw [List.mem_append, not_or] at stops
    cases back with
    | nil =>
      have ended := one.exact front last rest first stops.1
      have none := two.exact [] last rest second stops.2
      rw [List.append_nil, ended, List.drop_left]
      rw [List.nil_append, List.length_nil] at none
      omega
    | cons next back =>
      have ended := one.exact front next (back ++ last :: rest) first (apart next back second)
      have reached := two.exact (next :: back) last rest second stops.2
      rw [List.append_assoc, List.cons_append, ended, List.drop_left, List.length_append]
      rw [List.cons_append] at reached
      omega

/-- Where a match stands in front of a character that cannot continue it, no match is longer. -/
theorem length_le (munches : Munches pattern width continuing) {alone front back : List Char}
    {next : Char} (matching : alone ∈ pattern.matches') (stops : next ∉ continuing)
    (found : front ∈ pattern.matches') (starts : front <+: alone ++ next :: back) :
    front.length ≤ alone.length := by
  obtain ⟨later, split⟩ := starts
  have reached := munches.longest front later found
  rw [split, munches.exact alone next back matching stops] at reached
  exact reached

variable {accepts marks : Char → Bool} {characters letters : List Char}

theorem run (known : ∀ character, accepts character = true ↔ character ∈ characters) :
    Munches (anyOf characters) (fun text => (text.takeWhile accepts).length) characters where
  longest := by
    intro front back matching
    rw [matches_anyOf] at matching
    rw [List.takeWhile_append_of_pos fun character member => (known _).2 (matching _ member),
      List.length_append]
    exact Nat.le_add_right _ _
  exact := by
    intro front next back matching stops
    rw [matches_anyOf] at matching
    rw [← known] at stops
    rw [List.takeWhile_append_of_pos fun character member => (known _).2 (matching _ member),
      List.takeWhile_cons_of_neg stops, List.append_nil]

theorem mark (known : ∀ character, accepts character = true ↔ character ∈ characters) :
    Munches (optional (oneOf characters)) (fun text => if leads accepts text then 1 else 0)
      characters where
  longest := by
    intro front back matching
    rcases matches_optional.1 matching with rfl | matching
    · exact Nat.zero_le _
    · obtain ⟨character, member, rfl⟩ := matches_oneOf.1 matching
      have led : leads accepts ([character] ++ back) = true := (known character).2 member
      rw [if_pos led]
      exact Nat.le_refl 1
  exact := by
    intro front next back matching stops
    rw [← known] at stops
    rcases matches_optional.1 matching with rfl | matching
    · exact if_neg stops
    · obtain ⟨character, member, rfl⟩ := matches_oneOf.1 matching
      exact if_pos ((known character).2 member)

/-- A part that may be missing and is announced by characters that would not be read without it. -/
theorem announced {opening : RegularExpression Char} {all : List Char → Nat}
    (one : Munches pattern width continuing)
    (present : ∀ front body back, front ∈ opening.matches' → body ∈ pattern.matches' →
      all (front ++ (body ++ back)) = front.length + width (body ++ back))
    (missing : ∀ next back, next ∉ letters → all (next :: back) = 0) :
    Munches (optional (opening * pattern)) all (letters ++ continuing) where
  longest := by
    intro text rest matching
    rcases matches_optional.1 matching with rfl | matching
    · exact Nat.zero_le _
    · obtain ⟨front, first, body, second, rfl⟩ := matches_mul.1 matching
      have reached := one.longest body rest second
      rw [List.append_assoc, present front body rest first second, List.length_append]
      omega
  exact := by
    intro text last rest matching stops
    rw [List.mem_append, not_or] at stops
    rcases matches_optional.1 matching with rfl | matching
    · exact missing last rest stops.1
    · obtain ⟨front, first, body, second, rfl⟩ := matches_mul.1 matching
      have reached := one.exact body last rest second stops.2
      rw [List.append_assoc, present front body _ first second, reached, List.length_append]

end Munches

/-- Digits, with separators anywhere behind the first. -/
def digitRun (separators : List Char) : RegularExpression Char :=
  oneOf Text.decimals * anyOf (Text.decimals ++ separators)

def exponentOpening : RegularExpression Char := oneOf ['e', 'E'] * optional (oneOf ['+', '-'])

def exponent (separators : List Char) : RegularExpression Char :=
  exponentOpening * digitRun separators

def announcement (radix : Text.Radix) : RegularExpression Char := oneOf ['0'] * oneOf radix.letters

def radixDigits (separators : List Char) (radix : Text.Radix) : RegularExpression Char :=
  anyOf (radix.digits ++ separators)

/-- Numbers of every radix, given what stands behind its announcement, and decimal ones. -/
def numbersOf (behind : Text.Radix → RegularExpression Char) (decimal : RegularExpression Char) :
    RegularExpression Char :=
  announcement .hexadecimal * behind .hexadecimal + announcement .octal * behind .octal +
    announcement .binary * behind .binary + decimal

section Parts

variable {pattern : RegularExpression Char} {separators letters text : List Char}
  {radix : Text.Radix} {continues : Char → Bool}

theorem matches_announcement :
    text ∈ (announcement radix).matches' ↔ ∃ letter ∈ radix.letters, text = ['0', letter] := by
  rw [announcement, matches_mul]
  constructor
  · rintro ⟨zero, isZero, mark, announced, rfl⟩
    obtain ⟨first, known, rfl⟩ := matches_oneOf.1 isZero
    obtain ⟨letter, among, rfl⟩ := matches_oneOf.1 announced
    rw [List.mem_singleton.1 known]
    exact ⟨letter, among, rfl⟩
  · rintro ⟨letter, among, rfl⟩
    exact ⟨['0'], matches_oneOf.2 ⟨'0', List.mem_cons_self, rfl⟩, [letter],
      matches_oneOf.2 ⟨letter, among, rfl⟩, rfl⟩

theorem matches_numbersOf {behind : Text.Radix → RegularExpression Char}
    {decimal : RegularExpression Char} :
    text ∈ (numbersOf behind decimal).matches' ↔
      (∃ radix, ∃ letter ∈ radix.letters, ∃ rest ∈ (behind radix).matches',
        text = '0' :: letter :: rest) ∨ text ∈ decimal.matches' := by
  have announced : ∀ radix, text ∈ (announcement radix * behind radix).matches' ↔
      ∃ letter ∈ radix.letters, ∃ rest ∈ (behind radix).matches', text = '0' :: letter :: rest := by
    intro radix
    rw [matches_mul]
    constructor
    · rintro ⟨front, opened, rest, found, rfl⟩
      obtain ⟨letter, among, rfl⟩ := matches_announcement.1 opened
      exact ⟨letter, among, rest, found, rfl⟩
    · rintro ⟨letter, among, rest, found, rfl⟩
      exact ⟨['0', letter], matches_announcement.2 ⟨letter, among, rfl⟩, rest, found, rfl⟩
  have sum : text ∈ (numbersOf behind decimal).matches' ↔
      ((text ∈ (announcement .hexadecimal * behind .hexadecimal).matches' ∨
          text ∈ (announcement .octal * behind .octal).matches') ∨
        text ∈ (announcement .binary * behind .binary).matches') ∨ text ∈ decimal.matches' := Iff.rfl
  simp only [← announced]
  rw [sum]
  apply or_congr_left
  constructor
  · rintro ((hexadecimal | octal) | binary)
    · exact ⟨_, hexadecimal⟩
    · exact ⟨_, octal⟩
    · exact ⟨_, binary⟩
  · rintro ⟨radix, found⟩
    cases radix with
    | binary => exact .inr found
    | octal => exact .inl (.inr found)
    | hexadecimal => exact .inl (.inl found)

theorem matches_digitRun :
    text ∈ (digitRun separators).matches' ↔
      ∃ first rest, text = first :: rest ∧ first ∈ Text.decimals ∧
        ∀ character ∈ rest, character ∈ Text.decimals ++ separators := by
  rw [digitRun, matches_mul]
  constructor
  · rintro ⟨front, digit, rest, digits, rfl⟩
    obtain ⟨first, known, rfl⟩ := matches_oneOf.1 digit
    exact ⟨first, rest, rfl, known, matches_anyOf.1 digits⟩
  · rintro ⟨first, rest, rfl, digit, digits⟩
    exact ⟨[first], matches_oneOf.2 ⟨first, digit, rfl⟩, rest, matches_anyOf.2 digits, rfl⟩

theorem anyOf_of_digitRun (run : text ∈ (digitRun separators).matches') :
    text ∈ (anyOf (Text.decimals ++ separators)).matches' := by
  obtain ⟨first, rest, rfl, digit, digits⟩ := matches_digitRun.1 run
  exact matches_anyOf.2 (List.forall_mem_cons.2 ⟨List.mem_append_left _ digit, digits⟩)

/-- What stands where digits are read, if at least one does. -/
theorem takeWhile_digitRun
    (known : ∀ character, continues character = true ↔ character ∈ Text.decimals ++ separators)
    (led : leads Char.isDigit text = true) :
    text.take (text.takeWhile continues).length ∈ (digitRun separators).matches' := by
  cases text with
  | nil => cases led
  | cons first rest =>
    have digit : first ∈ Text.decimals := (Text.isDigit_iff first).1 led
    have continued : continues first = true := (known first).2 (List.mem_append_left _ digit)
    rw [List.takeWhile_cons_of_pos continued, List.length_cons, List.take_succ_cons]
    exact matches_digitRun.2 ⟨first, _, rfl, digit, matches_anyOf.1 (takeWhile_matches known rest)⟩

theorem matches_exponentOpening :
    text ∈ exponentOpening.matches' ↔
      ∃ mark ∈ ['e', 'E'], ∃ sign ∈ (optional (oneOf ['+', '-'])).matches', text = mark :: sign := by
  rw [exponentOpening, matches_mul]
  constructor
  · rintro ⟨front, marked, sign, signed, rfl⟩
    obtain ⟨mark, known, rfl⟩ := matches_oneOf.1 marked
    exact ⟨mark, known, sign, signed, rfl⟩
  · rintro ⟨mark, known, sign, signed, rfl⟩
    exact ⟨[mark], matches_oneOf.2 ⟨mark, known, rfl⟩, sign, signed, rfl⟩

theorem isExponentMark_iff (character : Char) :
    isExponentMark character = true ↔ character ∈ ['e', 'E'] := by
  simp [isExponentMark]

theorem isSign_iff (character : Char) : isSign character = true ↔ character ∈ ['+', '-'] := by
  simp [isSign]

/-- A number and its exponent are told apart by the first character of the exponent. -/
theorem munches_exponent
    (known : ∀ character, continues character = true ↔ character ∈ Text.decimals ++ separators) :
    Munches (optional (exponent separators)) (exponentWidth continues)
      (['e', 'E'] ++ (Text.decimals ++ separators)) := by
  have digits := (Munches.run known).mono fun text => @anyOf_of_digitRun separators text
  apply digits.announced
  · intro front body back announced run
    obtain ⟨mark, marked, sign, signed, rfl⟩ := matches_exponentOpening.1 announced
    obtain ⟨first, rest, rfl, digit, -⟩ := matches_digitRun.1 run
    have isMark : isExponentMark mark = true := (isExponentMark_iff mark).2 marked
    have isDigit : first.isDigit = true := (Text.isDigit_iff first).2 digit
    rcases matches_optional.1 signed with rfl | signed
    · have noSign : isSign first = false := by
        have apart : ∀ character ∈ Text.decimals, isSign character = false :=
          List.all_iff_forall_prop.1 (by decide)
        exact apart first digit
      simp [exponentWidth, leads, isMark, noSign, isDigit]
    · obtain ⟨plus, known, rfl⟩ := matches_oneOf.1 signed
      have isSign : isSign plus = true := (isSign_iff plus).2 known
      simp [exponentWidth, leads, isMark, isSign, isDigit]
  · intro next back other
    have noMark : ¬isExponentMark next = true := fun marked => other ((isExponentMark_iff next).1 marked)
    exact if_neg noMark

theorem exponentWidth_matches
    (known : ∀ character, continues character = true ↔ character ∈ Text.decimals ++ separators)
    (text : List Char) :
    text.take (exponentWidth continues text) ∈ (optional (exponent separators)).matches' := by
  unfold exponentWidth
  split
  · rename_i marked
    have signed := mark_matches isSign_iff (text.drop 1)
    simp only
    generalize (if leads isSign (text.drop 1) = true then 1 else 0) = sign at signed ⊢
    split
    · rename_i led
      apply Or.inr
      have mark : text.take 1 ∈ (oneOf ['e', 'E']).matches' := by
        cases text with
        | nil => cases marked
        | cons first rest => exact matches_oneOf.2 ⟨first, (isExponentMark_iff first).1 marked, rfl⟩
      exact take_add_matches (take_add_matches mark signed)
        (takeWhile_digitRun known led)
    · exact .inl rfl
  · exact .inl rfl

theorem leads_of_exponentWidth (present : 0 < exponentWidth continues text) :
    leads isExponentMark text = true := by
  apply Classical.byContradiction
  intro none
  rw [exponentWidth, if_neg none] at present
  exact Nat.lt_irrefl 0 present

/-- Nothing but the mark is in a mark that may be missing. -/
theorem mem_of_mark (matching : text ∈ (optional (oneOf letters)).matches') :
    ∀ character ∈ text, character ∈ letters := by
  rcases matches_optional.1 matching with rfl | found
  · exact List.forall_mem_nil _
  · obtain ⟨mark, known, rfl⟩ := matches_oneOf.1 found
    exact List.forall_mem_singleton.2 known

section First

variable {next : Char} {back : List Char}

theorem mem_of_announced
    (matching : next :: back ∈ (optional (oneOf letters * pattern)).matches') : next ∈ letters := by
  rcases matches_optional.1 matching with none | matching
  · cases none
  · obtain ⟨front, marked, body, -, split⟩ := matches_mul.1 matching
    obtain ⟨character, known, rfl⟩ := matches_oneOf.1 marked
    cases split
    exact known

theorem mem_of_exponent (matching : next :: back ∈ (optional (exponent separators)).matches') :
    next ∈ ['e', 'E'] := by
  rcases matches_optional.1 matching with none | matching
  · cases none
  · obtain ⟨front, opening, body, -, split⟩ := matches_mul.1 matching
    obtain ⟨mark, known, sign, -, rfl⟩ := matches_exponentOpening.1 opening
    cases split
    exact known

end First

theorem radixOf?_iff :
    radixOf? text = some radix ↔ ∃ letter ∈ radix.letters, ∃ rest, text = '0' :: letter :: rest := by
  constructor
  · intro announced
    unfold radixOf? at announced
    split at announced
    · exact ⟨_, (radix.ofLetter?_iff _).1 announced, _, rfl⟩
    · cases announced
  · rintro ⟨letter, known, rest, rfl⟩
    exact (radix.ofLetter?_iff letter).2 known

end Parts

def HasRadix (literal : List Char) : Prop :=
  ∃ radix : Text.Radix, ∃ letter ∈ radix.letters, ∃ rest, literal = '0' :: letter :: rest

/-- A scan of the longest number at the start of a text. It is a float if one of the given characters
is in it and they cannot be digits. -/
structure Scan.IsNumber (scan : Scan) (pattern : RegularExpression Char) (marks : List Char)
    (text : List Char) : Prop where
  kind : scan.token = .integer ∨ scan.token = .float
  longest : IsLongestMatch pattern text (text.take scan.width)
  float : scan.token = .float ↔
    ¬HasRadix (text.take scan.width) ∧ ∃ character ∈ text.take scan.width, character ∈ marks

section Literals

variable {text other : List Char} {radix : Text.Radix} {accepts : Char → Bool}

theorem hasRadix_iff : HasRadix text ↔ radixOf? text ≠ none := by
  rw [Option.ne_none_iff_exists']
  exact exists_congr fun radix => radixOf?_iff.symm

/-- A literal announces a radix only if the text does that it starts. -/
theorem not_hasRadix_take (plain : radixOf? text = none) (width : Nat) :
    ¬HasRadix (text.take width) := by
  rintro ⟨radix, letter, known, rest, split⟩
  obtain ⟨later, whole⟩ := List.take_prefix width text
  rw [split] at whole
  exact hasRadix_iff.1 ⟨radix, letter, known, rest ++ later, whole.symm⟩ plain

theorem radix_unique {one two : Text.Radix} {letter : Char} (first : letter ∈ one.letters)
    (second : letter ∈ two.letters) : one = two :=
  Option.some.inj (((one.ofLetter?_iff letter).2 first).symm.trans ((two.ofLetter?_iff letter).2 second))

/-- A character that is looked at and then read is in the literal. -/
theorem exists_of_leads {place width : Nat} (led : leads accepts (text.drop place) = true)
    (read : place < width) : ∃ character ∈ text.take width, accepts character = true := by
  rw [leads, List.head?_drop, Option.any_eq_true] at led
  obtain ⟨character, found, accepted⟩ := led
  have inside : (text.take width)[place]? = some character := by
    rw [List.getElem?_take_of_lt read, found]
  exact ⟨character, List.mem_of_getElem? inside, accepted⟩

theorem exists_floatMark {whole fraction exponent : Nat} (more : 0 < fraction + exponent)
    (pointed : 0 < fraction → leads (· == '.') (text.drop whole) = true)
    (raised : 0 < exponent → leads isExponentMark (text.drop (whole + fraction)) = true) :
    ∃ character ∈ text.take (whole + fraction + exponent), character ∈ ['.', 'e', 'E'] := by
  by_cases point : 0 < fraction
  · obtain ⟨character, read, isPoint⟩ :=
      exists_of_leads (pointed point) (Nat.lt_add_right exponent (Nat.lt_add_of_pos_right point))
    rw [beq_iff_eq.1 isPoint] at read
    exact ⟨'.', read, List.mem_cons_self⟩
  · have mark : 0 < exponent := by omega
    obtain ⟨character, read, isMark⟩ :=
      exists_of_leads (raised mark) (Nat.lt_add_of_pos_right mark)
    exact ⟨character, read, List.mem_cons_of_mem _ ((isExponentMark_iff character).1 isMark)⟩

end Literals

namespace Scan

variable {scan : Scan} {behind : Text.Radix → RegularExpression Char}
  {decimal : RegularExpression Char} {marks text : List Char}

/-- Behind the announcement of a radix the number is as long as its digits, since the zero alone is the
longest decimal number there. -/
theorem isNumber_of_radix {radix : Text.Radix} {letter : Char} {rest : List Char}
    {width : List Char → Nat} {continuing : List Char} (announced : letter ∈ radix.letters)
    (munches : Munches (behind radix) width continuing)
    (reads : rest.take (width rest) ∈ (behind radix).matches')
    (short : ∀ front, front <+: '0' :: letter :: rest → front ∈ decimal.matches' → front.length ≤ 1)
    (integer : scan.token = .integer) (whole : scan.width = width rest + 2) :
    scan.IsNumber (numbersOf behind decimal) marks ('0' :: letter :: rest) := by
  have literal : ('0' :: letter :: rest).take scan.width = '0' :: letter :: rest.take (width rest) := by
    rw [whole, List.take_succ_cons, List.take_succ_cons]
  constructor
  · exact .inl integer
  · apply IsLongestMatch.take
    · rw [literal]
      exact matches_numbersOf.2 (.inl ⟨radix, letter, announced, _, reads, rfl⟩)
    · intro front starts found
      rw [whole]
      rcases matches_numbersOf.1 found with ⟨other, same, among, digits, read, rfl⟩ | decimal
      · obtain ⟨later, split⟩ := starts
        simp only [List.cons_append, List.cons.injEq, true_and] at split
        obtain ⟨rfl, rfl⟩ := split
        cases radix_unique among announced
        exact Nat.add_le_add_right (munches.longest digits later read) 2
      · exact Nat.le_trans (short front starts decimal) (Nat.le_add_left 1 (width rest + 1))
  · rw [literal, integer]
    exact iff_of_false (by decide) fun decimal => decimal.1 ⟨radix, letter, announced, _, rfl⟩

theorem isNumber_of_plain (plain : radixOf? text = none)
    (kind : scan.token = .integer ∨ scan.token = .float)
    (matching : text.take scan.width ∈ decimal.matches')
    (longest : ∀ front, front <+: text → front ∈ decimal.matches' → front.length ≤ scan.width)
    (float : scan.token = .float ↔ ∃ character ∈ text.take scan.width, character ∈ marks) :
    scan.IsNumber (numbersOf behind decimal) marks text := by
  constructor
  · exact kind
  · apply IsLongestMatch.take (matches_numbersOf.2 (.inr matching))
    intro front starts found
    rcases matches_numbersOf.1 found with ⟨radix, letter, announced, rest, -, rfl⟩ | decimal
    · obtain ⟨later, rfl⟩ := starts
      exact absurd plain (hasRadix_iff.1 ⟨radix, letter, announced, rest ++ later, rfl⟩)
    · exact longest front starts decimal
  · rw [float]
    exact (and_iff_right (not_hasRadix_take plain scan.width)).symm

end Scan

end Offside.Lexical
