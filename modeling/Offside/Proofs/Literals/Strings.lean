import Offside.Proofs.Lexical.Origins
import Offside.Proofs.Literals.Kinds
import Offside.Proofs.Python.WholeLines

/-!
Where strings end, told place by place. A character counts if the backslashes right in front of it pair
up among themselves. A scanner that takes every backslash along with the character behind it comes to the
places that count and to no others, so the scanners of both languages end their strings where they end.
-/

namespace Offside

set_option autoImplicit false

open Offside.Lexical

namespace Lexical

/-- How strings end: the quote that closes them, perhaps with further ones behind it, and the line
breaks that cut them off. -/
structure StringForm where
  quote : Char
  further : List Char
  breaks : List (List Char)
  /-- The line break is read together with the string that it cuts off. -/
  consumesBreak : Bool
  quote_plain : quote ≠ '\\'
  breaks_plain : ∀ lineBreak ∈ breaks, ∃ first rest, lineBreak = first :: rest ∧ first ≠ '\\' ∧
    first ≠ quote

/-- An even number of backslashes stands right in front of a place. -/
def IsUnescaped (body : List Char) (place : Nat) : Prop :=
  ((body.take place).reverse.takeWhile (· == '\\')).length % 2 = 0

namespace StringForm

def closing (form : StringForm) : List Char := form.quote :: form.further

def ClosesAt (form : StringForm) (body : List Char) (place : Nat) : Prop :=
  form.closing <+: body.drop place ∧ IsUnescaped body place

/-- A line break cuts the string off, or there is no more text. -/
def StopsAt (form : StringForm) (body : List Char) (place : Nat) : Prop :=
  place = body.length ∨
    ∃ lineBreak ∈ form.breaks, lineBreak <+: body.drop place ∧ IsUnescaped body place

/-- Characters of the line break at the start of a text that are read with the string in front of it. -/
def consumed (form : StringForm) (text : List Char) : Nat :=
  if form.consumesBreak then ((form.breaks.find? (·.isPrefixOf text)).getD []).length else 0

/-- Where a string ends, given what stands behind its opening quotes: behind the first quotes that
close it if no stop comes before them, and otherwise in front of the first stop. The flag says that it
was closed. -/
inductive Ends (form : StringForm) (body : List Char) : Nat → Bool → Prop
  | closed {place : Nat} (closes : form.ClosesAt body place)
      (first : ∀ earlier, form.ClosesAt body earlier → place ≤ earlier)
      (before : ∀ stop, form.StopsAt body stop → place < stop) :
      Ends form body (place + form.closing.length) true
  | cut {place : Nat} (stops : form.StopsAt body place)
      (first : ∀ earlier, form.StopsAt body earlier → place ≤ earlier)
      (before : ∀ quotes, form.ClosesAt body quotes → place < quotes) :
      Ends form body place false

end StringForm

variable {front rest : List Char} {place : Nat}

/-- What stands in front of a place that counts makes no difference behind it. -/
theorem isUnescaped_append (whole : IsUnescaped front front.length) :
    IsUnescaped (front ++ rest) (front.length + place) ↔ IsUnescaped rest place := by
  unfold IsUnescaped at *
  rw [List.take_length] at whole
  rw [List.take_length_add_append, List.reverse_append, List.takeWhile_append]
  split
  · rename_i every
    rw [List.length_append, ← every]
    omega
  · rfl

namespace StringForm

variable {form : StringForm} {body text : List Char} {width : Nat} {closed : Bool} {character : Char}

theorem closesAt_append (whole : IsUnescaped front front.length) :
    form.ClosesAt (front ++ rest) (front.length + place) ↔ form.ClosesAt rest place := by
  rw [ClosesAt, ClosesAt, isUnescaped_append whole, List.drop_length_add_append]

theorem stopsAt_append (whole : IsUnescaped front front.length) :
    form.StopsAt (front ++ rest) (front.length + place) ↔ form.StopsAt rest place := by
  simp only [StopsAt, isUnescaped_append whole, List.drop_length_add_append, List.length_append,
    Nat.add_left_cancel_iff]

/-- A string that does not end in its first characters ends where it would without them. -/
theorem Ends.behind (ends : form.Ends rest width closed) (whole : IsUnescaped front front.length)
    (passed : ∀ place < front.length,
      ¬form.ClosesAt (front ++ rest) place ∧ ¬form.StopsAt (front ++ rest) place) :
    form.Ends (front ++ rest) (front.length + width) closed := by
  have closesBehind : ∀ {bound place : Nat}, form.ClosesAt (front ++ rest) place →
      (∀ later, form.ClosesAt rest later → bound ≤ later) → front.length + bound ≤ place := by
    intro bound place closes above
    rcases Nat.lt_or_ge place front.length with early | late
    · exact absurd closes (passed place early).1
    · obtain ⟨later, rfl⟩ := Nat.exists_eq_add_of_le late
      exact Nat.add_le_add_left (above later ((closesAt_append whole).1 closes)) _
  have stopsBehind : ∀ {bound place : Nat}, form.StopsAt (front ++ rest) place →
      (∀ later, form.StopsAt rest later → bound ≤ later) → front.length + bound ≤ place := by
    intro bound place stops above
    rcases Nat.lt_or_ge place front.length with early | late
    · exact absurd stops (passed place early).2
    · obtain ⟨later, rfl⟩ := Nat.exists_eq_add_of_le late
      exact Nat.add_le_add_left (above later ((stopsAt_append whole).1 stops)) _
  cases ends with
  | closed closes first before =>
    rw [← Nat.add_assoc]
    exact .closed ((closesAt_append whole).2 closes)
      (fun earlier found => closesBehind found first) fun stop found => stopsBehind found before
  | cut stops first before =>
    exact .cut ((stopsAt_append whole).2 stops)
      (fun earlier found => stopsBehind found first) fun quotes found => closesBehind found before

theorem not_closesAt_of_ne (other : character ≠ form.quote) :
    ¬form.ClosesAt (character :: rest) 0 := by
  intro closes
  obtain ⟨later, split⟩ := closes.1
  cases split
  exact other rfl

theorem not_stopsAt_of_plain (inner : ∀ lineBreak ∈ form.breaks, ¬lineBreak <+: character :: rest) :
    ¬form.StopsAt (character :: rest) 0 := by
  rintro (ended | ⟨lineBreak, known, found, -⟩)
  · cases ended
  · exact inner lineBreak known found

theorem not_break_of_ne (other : ∀ lineBreak ∈ form.breaks, lineBreak.head? ≠ some character)
    (lineBreak : List Char) (known : lineBreak ∈ form.breaks) : ¬lineBreak <+: character :: rest := by
  rintro ⟨later, split⟩
  obtain ⟨first, more, rfl, -, -⟩ := form.breaks_plain lineBreak known
  cases split
  exact other _ known rfl

theorem head?_ne_backslash : ∀ lineBreak ∈ form.breaks, lineBreak.head? ≠ some '\\' := by
  intro lineBreak known
  obtain ⟨first, more, rfl, plain, -⟩ := form.breaks_plain lineBreak known
  exact fun same => plain (Option.some.inj same)

theorem head?_ne_quote : ∀ lineBreak ∈ form.breaks, lineBreak.head? ≠ some form.quote := by
  intro lineBreak known
  obtain ⟨first, more, rfl, -, other⟩ := form.breaks_plain lineBreak known
  exact fun same => other (Option.some.inj same)

theorem ends_nil : form.Ends [] 0 false := by
  apply Ends.cut (.inl rfl) (fun _ _ => Nat.zero_le _)
  intro quotes closes
  obtain ⟨later, split⟩ := closes.1
  rw [List.drop_nil] at split
  cases split

theorem ends_closing (found : form.closing <+: text) : form.Ends text form.closing.length true := by
  obtain ⟨later, rfl⟩ := found
  have ends := @Ends.closed form (form.closing ++ later) 0 ⟨List.prefix_append _ _, rfl⟩
    (fun _ _ => Nat.zero_le _) (by
      intro stop stops
      apply Nat.pos_of_ne_zero
      rintro rfl
      exact not_stopsAt_of_plain (not_break_of_ne head?_ne_quote) stops)
  rwa [Nat.zero_add] at ends

theorem ends_break {lineBreak : List Char} (known : lineBreak ∈ form.breaks)
    (found : lineBreak <+: text) : form.Ends text 0 false := by
  have stops : form.StopsAt text 0 := .inr ⟨lineBreak, known, found, rfl⟩
  apply Ends.cut stops (fun _ _ => Nat.zero_le _)
  intro quotes closes
  apply Nat.pos_of_ne_zero
  rintro rfl
  obtain ⟨first, more, rfl, -, other⟩ := form.breaks_plain lineBreak known
  obtain ⟨later, rfl⟩ := found
  exact not_closesAt_of_ne other closes

theorem Ends.cons (ends : form.Ends rest width closed) (plain : character ≠ '\\')
    (unclosed : ¬form.closing <+: character :: rest)
    (inner : ∀ lineBreak ∈ form.breaks, ¬lineBreak <+: character :: rest) :
    form.Ends (character :: rest) (width + 1) closed := by
  have whole : IsUnescaped [character] 1 := by simp [IsUnescaped, plain]
  have ends := @Ends.behind [character] rest form width closed ends whole (by
    intro place early
    obtain rfl := Nat.lt_one_iff.1 early
    exact ⟨fun closes => unclosed closes.1, not_stopsAt_of_plain inner⟩)
  rwa [List.length_singleton, Nat.add_comm] at ends

theorem Ends.escape (ends : form.Ends rest width closed) :
    form.Ends ('\\' :: character :: rest) (width + 2) closed := by
  have whole : IsUnescaped ['\\', character] 2 := by
    by_cases backslash : character = '\\' <;> simp [IsUnescaped, backslash]
  have escaped : ¬IsUnescaped ('\\' :: character :: rest) 1 := by simp [IsUnescaped]
  have ends := @Ends.behind ['\\', character] rest form width closed ends whole (by
    intro place early
    match place, early with
    | 0, _ =>
      exact ⟨not_closesAt_of_ne form.quote_plain.symm,
        not_stopsAt_of_plain (not_break_of_ne head?_ne_backslash)⟩
    | 1, _ =>
      refine ⟨fun closes => escaped closes.2, ?_⟩
      rintro (ended | ⟨-, -, -, unescaped⟩)
      · simp at ended
      · exact escaped unescaped)
  rwa [Nat.add_comm] at ends

/-- A backslash at the end of the text escapes nothing. -/
theorem ends_backslash : form.Ends ['\\'] 1 false := by
  have inside : ∀ {place : Nat}, form.closing <+: ['\\'].drop place → False := by
    intro place found
    obtain ⟨later, split⟩ := found
    match place with
    | 0 => exact form.quote_plain (List.cons.inj split).1
    | place + 1 => simp [closing] at split
  apply Ends.cut (.inl rfl)
  · intro earlier stops
    apply Nat.pos_of_ne_zero
    rintro rfl
    exact not_stopsAt_of_plain (not_break_of_ne head?_ne_backslash) stops
  · exact fun quotes closes => (inside closes.1).elim

end StringForm

end Lexical

namespace Python

def stringPrefixes : List (List Char) :=
  [[], ['r'], ['u'], ['b'], ['f'], ['u', 'r'], ['b', 'r'], ['f', 'r'], ['r', 'b'], ['r', 'f']]

def lineBreaks : List (List Char) := [['\n'], ['\r', '\n']]

def stringForm (quote : Char) (mark : isQuote quote = true) (triple : Bool) : StringForm where
  quote := quote
  further := if triple then [quote, quote] else []
  breaks := if triple then [] else lineBreaks
  consumesBreak := true
  quote_plain := by
    rintro rfl
    cases mark
  breaks_plain := by
    intro lineBreak known
    have plain : ∀ lineBreak ∈ lineBreaks, ∃ first rest, lineBreak = first :: rest ∧
        first ≠ '\\' ∧ isQuote first = false := by
      intro lineBreak listed
      rcases List.mem_pair.1 listed with rfl | rfl
      · exact ⟨'\n', [], rfl, by decide, rfl⟩
      · exact ⟨'\r', ['\n'], rfl, by decide, rfl⟩
    cases triple with
    | true => cases known
    | false =>
      obtain ⟨first, rest, split, noEscape, noQuote⟩ := plain lineBreak known
      refine ⟨first, rest, split, noEscape, ?_⟩
      rintro rfl
      rw [mark] at noQuote
      cases noQuote

end Python

def Haskell.stringForm : StringForm where
  quote := '"'
  further := []
  breaks := [['\n']]
  consumesBreak := false
  quote_plain := by decide
  breaks_plain := by
    intro lineBreak known
    rw [List.mem_singleton.1 known]
    exact ⟨'\n', [], rfl, by decide, by decide⟩

/-- A scan of the string behind an opening. It reports the string just when nothing closes it. -/
def Lexical.Scan.IsString (scan : Scan) (form : StringForm) (opening body : List Char) : Prop :=
  ∃ width closed, form.Ends body width closed ∧ scan.token = .string ∧
    scan.width = opening.length + width ∧
    scan.absorbed = (if closed then 0 else form.consumed (body.drop width)) ∧
    scan.defect = if closed then none else some ⟨.unterminatedLiteral, scan.width⟩

/-- What opens a string, what stands behind the opening, and how such a string ends. In Python two equal
quotes behind the first open a string in triple quotes. -/
inductive Language.Opens : Language → List Char → List Char → StringForm → Prop
  | single {letters : List Char} {quote : Char} {body : List Char}
      (known : letters.map Char.toLower ∈ Python.stringPrefixes)
      (mark : Python.isQuote quote = true) (alone : ¬[quote, quote] <+: body) :
      Opens .python (letters ++ [quote]) body (Python.stringForm quote mark false)
  | triple {letters : List Char} {quote : Char} (body : List Char)
      (known : letters.map Char.toLower ∈ Python.stringPrefixes)
      (mark : Python.isQuote quote = true) :
      Opens .python (letters ++ [quote, quote, quote]) body (Python.stringForm quote mark true)
  | haskell (body : List Char) : Opens .haskell ['"'] body Haskell.stringForm

namespace Python

variable {quote : Char} {text rest : List Char}

theorem not_lineBreak (none : ¬lineBreakWidth text > 0) :
    ∀ lineBreak ∈ lineBreaks, ¬lineBreak <+: text := by
  intro lineBreak known
  rintro ⟨later, rfl⟩
  rcases List.mem_pair.1 known with rfl | rfl
  · exact none Nat.one_pos
  · exact none Nat.two_pos

theorem exists_lineBreak (isBreak : lineBreakWidth text > 0) :
    ∃ lineBreak ∈ lineBreaks, lineBreak <+: text := by
  unfold lineBreakWidth at isBreak
  split at isBreak
  · exact ⟨['\n'], by decide, _, rfl⟩
  · exact ⟨['\r', '\n'], by decide, _, rfl⟩
  · exact absurd isBreak (Nat.lt_irrefl 0)

theorem lineBreakWidth_eq_find (text : List Char) :
    lineBreakWidth text = ((lineBreaks.find? (·.isPrefixOf text)).getD []).length := by
  by_cases isBreak : lineBreakWidth text > 0
  · obtain ⟨lineBreak, known, later, rfl⟩ := exists_lineBreak isBreak
    rcases List.mem_pair.1 known with rfl | rfl
    · rfl
    · rfl
  · have none : lineBreaks.find? (·.isPrefixOf text) = none := by
      apply List.find?_eq_none.2
      intro lineBreak known found
      exact not_lineBreak isBreak lineBreak known (List.isPrefixOf_iff_prefix.1 found)
    rw [none]
    exact Nat.eq_zero_of_not_pos isBreak

theorem take_two_iff : text.take 2 = [quote, quote] ↔ [quote, quote] <+: text := by
  rw [List.prefix_iff_eq_take]
  exact eq_comm

theorem stringBody_ends (mark : isQuote quote = true) (triple : Bool) (text : List Char) :
    (stringForm quote mark triple).Ends text (stringBody quote triple text).1
      (stringBody quote triple text).2 := by
  fun_induction stringBody quote triple text with
  | case1 => exact StringForm.ends_nil
  | case2 => exact StringForm.ends_backslash
  | case3 second rest width closed found induction =>
    rw [found] at induction
    exact induction.escape
  | case4 character rest notLast notEscape breaks =>
    obtain ⟨single, isBreak⟩ := Bool.and_eq_true_iff.1 breaks
    obtain rfl : triple = false := by simpa using single
    obtain ⟨lineBreak, known, found⟩ := exists_lineBreak (of_decide_eq_true isBreak)
    exact StringForm.ends_break known found
  | case5 character rest notLast notEscape unbroken single =>
    obtain ⟨rfl, rfl⟩ := single
    exact StringForm.ends_closing ⟨rest, rfl⟩
  | case6 character rest notLast notEscape unbroken notSingle three =>
    obtain ⟨rfl, two⟩ := three
    obtain rfl : triple = true := by simpa using notSingle
    obtain ⟨later, rfl⟩ := take_two_iff.1 two
    exact StringForm.ends_closing ⟨later, rfl⟩
  | case7 character rest notLast notEscape unbroken notSingle notThree width closed found induction =>
    rw [found] at induction
    apply induction.cons
    · rintro rfl
      cases rest with
      | nil => exact notLast rfl rfl
      | cons second later => exact notEscape second later rfl rfl
    · rintro ⟨later, split⟩
      cases triple with
      | false =>
        cases split
        exact notSingle ⟨rfl, rfl⟩
      | true =>
        cases split
        exact notThree ⟨rfl, rfl⟩
    · cases triple with
      | false => exact not_lineBreak (by simpa using unbroken)
      | true => exact List.forall_mem_nil _

theorem isPrefixLetter_iff (letter : Char) :
    isPrefixLetter letter = true ↔ [letter] ∈ stringPrefixes := by
  simp [stringPrefixes, isPrefixLetter, or_assoc]

theorem isPrefixPair_iff (first second : Char) :
    isPrefixPair first second = true ↔ [first, second] ∈ stringPrefixes := by
  have computed : isPrefixPair first second = true ↔
      second = 'r' ∧ (first = 'u' ∨ first = 'b' ∨ first = 'f') ∨
        first = 'r' ∧ (second = 'b' ∨ second = 'f') := by
    simp [isPrefixPair, or_assoc]
  have listed : [first, second] ∈ stringPrefixes ↔
      first = 'u' ∧ second = 'r' ∨ first = 'b' ∧ second = 'r' ∨ first = 'f' ∧ second = 'r' ∨
        first = 'r' ∧ second = 'b' ∨ first = 'r' ∧ second = 'f' := by
    simp [stringPrefixes]
  rw [computed, listed]
  grind

theorem stringPrefixWidth?_of_known {letters : List Char}
    (known : letters.map Char.toLower ∈ stringPrefixes) (mark : isQuote quote = true) :
    stringPrefixWidth? (letters ++ quote :: rest) = some letters.length := by
  have lengths : ∀ letters ∈ stringPrefixes, letters.length ≤ 2 := by decide
  have short := lengths _ known
  rw [List.length_map] at short
  have led : ∀ later, leads isQuote (quote :: later) = true := fun _ => mark
  rcases letters with _ | ⟨first, _ | ⟨second, _ | ⟨third, more⟩⟩⟩
  · simp [stringPrefixWidth?, mark]
  · have letter := (isPrefixLetter_iff _).2 known
    simp [stringPrefixWidth?, led, letter, prefixLetter_plain letter]
  · have pair := (isPrefixPair_iff _ _).2 known
    have letters := isPrefixLetter_of_pair pair
    have notYet : leads isQuote (second :: quote :: rest) = false := (prefixLetter_plain letters.2).1
    simp [stringPrefixWidth?, led, notYet, pair, prefixLetter_plain letters.1]
  · simp at short

theorem exists_of_stringPrefixWidth? {width : Nat} (string : stringPrefixWidth? text = some width) :
    ∃ letters quote rest, text = letters ++ quote :: rest ∧ letters.length = width ∧
      isQuote quote = true ∧ letters.map Char.toLower ∈ stringPrefixes := by
  unfold stringPrefixWidth? at string
  split at string
  · cases string
  · rename_i first rest
    split at string
    · rename_i mark
      cases string
      exact ⟨[], first, rest, rfl, rfl, mark, by decide⟩
    · split at string
      · rename_i one
        cases string
        obtain ⟨letter, led⟩ := Bool.and_eq_true_iff.1 one
        cases rest with
        | nil => cases led
        | cons quote rest =>
          exact ⟨[first], quote, rest, rfl, rfl, led, (isPrefixLetter_iff _).1 letter⟩
      · split at string
        · rename_i second more _
          split at string
          · rename_i two
            cases string
            obtain ⟨pair, led⟩ := Bool.and_eq_true_iff.1 two
            cases more with
            | nil => cases led
            | cons quote rest =>
              exact ⟨[first, second], quote, rest, rfl, rfl, led, (isPrefixPair_iff _ _).1 pair⟩
          · cases string
        · cases string

end Python

namespace Haskell

theorem stringBody_ends (text : List Char) :
    stringForm.Ends text (stringBody text).1 (stringBody text).2 := by
  fun_induction stringBody text with
  | case1 => exact StringForm.ends_nil
  | case2 => exact StringForm.ends_backslash
  | case3 second rest width closed found induction =>
    rw [found] at induction
    exact induction.escape
  | case4 rest => exact StringForm.ends_closing ⟨rest, rfl⟩
  | case5 rest => exact StringForm.ends_break (List.mem_singleton_self _) ⟨rest, rfl⟩
  | case6 character rest notLast notEscape unquoted inLine width closed found induction =>
    rw [found] at induction
    apply induction.cons
    · rintro rfl
      cases rest with
      | nil => exact notLast rfl rfl
      | cons second later => exact notEscape second later rfl rfl
    · rintro ⟨later, split⟩
      cases split
      exact unquoted rfl
    · intro lineBreak known
      rw [List.mem_singleton.1 known]
      rintro ⟨later, split⟩
      cases split
      exact inLine rfl

end Haskell

namespace Python

variable {quote : Char} {letters rest text : List Char}

theorem exists_first (known : letters.map Char.toLower ∈ stringPrefixes)
    (mark : isQuote quote = true) :
    ∃ first more, letters ++ quote :: rest = first :: more ∧
      (isPrefixLetter first.toLower = true ∨ isQuote first = true) := by
  have firsts : ∀ letters ∈ stringPrefixes, letters.head?.all isPrefixLetter = true := by decide
  cases letters with
  | nil => exact ⟨quote, rest, rfl, .inr mark⟩
  | cons first more => exact ⟨first, more ++ quote :: rest, rfl, .inl (firsts _ known)⟩

theorem opening_plain (known : letters.map Char.toLower ∈ stringPrefixes)
    (mark : isQuote quote = true) :
    startsNumber (letters ++ quote :: rest) = false ∧
      ¬leads (· == '#') (letters ++ quote :: rest) = true := by
  have apart : ∀ first ∈ '#' :: '.' :: Text.decimals,
      isPrefixLetter first.toLower = false ∧ isQuote first = false :=
    List.all_iff_forall_prop.1 (by decide)
  obtain ⟨first, more, split, opens⟩ := @exists_first quote letters rest known mark
  have other : first ∉ '#' :: '.' :: Text.decimals := by
    intro listed
    obtain ⟨noLetter, noQuote⟩ := apart first listed
    rw [noLetter, noQuote] at opens
    exact absurd opens (by decide)
  rw [List.mem_cons, List.mem_cons, not_or, not_or, ← Text.isDigit_iff] at other
  obtain ⟨noComment, noPoint, noDigit⟩ := other
  rw [split]
  simp [startsNumber, leads, noComment, noPoint, noDigit]

theorem feed_ne_opening (known : letters.map Char.toLower ∈ stringPrefixes)
    (mark : isQuote quote = true) (later : List Char) : '\n' :: later ≠ letters ++ quote :: rest := by
  intro same
  obtain ⟨first, more, split, opens⟩ := @exists_first quote letters rest known mark
  rw [split] at same
  cases same
  exact absurd opens (by decide)

theorem consumed_eq (mark : isQuote quote = true) (triple : Bool) (text : List Char) :
    (stringForm quote mark triple).consumed text = if triple then 0 else lineBreakWidth text := by
  cases triple with
  | true => rfl
  | false => exact (lineBreakWidth_eq_find text).symm

theorem stringOf_isString (mark : isQuote quote = true) (triple : Bool) (opening body : List Char) :
    (stringOf (opening ++ body) opening.length triple (stringBody quote triple body)).IsString
      (stringForm quote mark triple) opening body := by
  refine ⟨_, _, stringBody_ends mark triple body, rfl, rfl, ?_, rfl⟩
  rw [stringOf, List.drop_length_add_append, consumed_eq]
  cases (stringBody quote triple body).2 with
  | true => rfl
  | false => rfl

theorem scanString_single_isString (mark : isQuote quote = true) (letters : List Char)
    (alone : ¬[quote, quote] <+: rest) :
    (scanString letters.length (letters ++ quote :: rest)).IsString (stringForm quote mark false)
      (letters ++ [quote]) rest := by
  have two : (rest.take 2 == [quote, quote]) = false := by
    rw [beq_eq_false_iff_ne]
    exact fun same => alone (take_two_iff.1 same)
  rw [scanString_of_quote quote letters rest false two, List.append_cons]
  have string := stringOf_isString mark false (letters ++ [quote]) rest
  rwa [List.length_append] at string

theorem scanString_triple_isString (mark : isQuote quote = true) (letters body : List Char) :
    (scanString letters.length (letters ++ quote :: quote :: quote :: body)).IsString
      (stringForm quote mark true) (letters ++ [quote, quote, quote]) body := by
  have split : letters ++ quote :: quote :: quote :: body = letters ++ [quote, quote, quote] ++ body := by
    rw [List.append_assoc]
    rfl
  rw [scanString_of_quote quote letters (quote :: quote :: body) true (beq_self_eq_true _), split]
  have string := stringOf_isString mark true (letters ++ [quote, quote, quote]) body
  rwa [List.length_append] at string

end Python

namespace Haskell

theorem scanString_isString (body : List Char) :
    (scanString body).IsString stringForm ['"'] body := by
  refine ⟨_, _, stringBody_ends body, rfl, rfl, ?_, rfl⟩
  split <;> rfl

end Haskell

namespace Language

variable {language : Language} {opening body text : List Char} {form : StringForm}

theorem scan_isString (afterProper : Bool) (opens : Opens language opening body form) :
    (language.scan afterProper (opening ++ body)).IsString form opening body := by
  cases opens with
  | @single letters quote _ known mark alone =>
    have plain := @Python.opening_plain quote letters body known mark
    rw [List.append_assoc, List.singleton_append, scan, if_neg plain.2,
      Python.scan_opened plain.1 (Python.stringPrefixWidth?_of_known known mark)]
    exact Python.scanString_single_isString mark letters alone
  | @triple letters quote _ known mark =>
    have plain := @Python.opening_plain quote letters (quote :: quote :: body) known mark
    rw [List.append_assoc]
    change (Language.python.scan afterProper (letters ++ quote :: quote :: quote :: body)).IsString _ _ _
    rw [scan, if_neg plain.2,
      Python.scan_opened plain.1 (Python.stringPrefixWidth?_of_known known mark)]
    exact Python.scanString_triple_isString mark letters body
  | haskell body =>
    rw [List.singleton_append, scan, Haskell.scan_string]
    exact Haskell.scanString_isString body

theorem exists_opens_of_scan {afterProper : Bool}
    (string : (language.scan afterProper text).token = .string) :
    ∃ opening body form, text = opening ++ body ∧ Opens language opening body form := by
  cases language with
  | python =>
    simp only [scan] at string
    split at string
    · cases string
    · obtain ⟨width, found⟩ := Python.exists_prefix_of_scan string
      obtain ⟨letters, quote, rest, rfl, -, mark, known⟩ := Python.exists_of_stringPrefixWidth? found
      by_cases two : [quote, quote] <+: rest
      · obtain ⟨body, rfl⟩ := two
        exact ⟨_, body, _, (List.append_assoc letters [quote, quote, quote] body).symm,
          .triple body known mark⟩
      · exact ⟨_, rest, _, List.append_cons letters quote rest, .single known mark two⟩
  | haskell =>
    obtain ⟨rest, rfl⟩ := Haskell.exists_of_leads_quote (Haskell.leads_quote_of_scan string)
    exact ⟨['"'], rest, _, rfl, .haskell rest⟩

end Language

end Offside
