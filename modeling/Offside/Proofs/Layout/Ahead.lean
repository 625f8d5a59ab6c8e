import Offside.Proofs.Layout.Readings
import Offside.Proofs.Lexical.Cuts

/-!
What a lexer reads next, from the text ahead of it alone: the blanks before the next token, the text of
that token and what is left behind it. Of what was read before, only that a proper identifier ends
where the text ahead starts makes a difference.
-/

namespace Offside.Haskell

set_option autoImplicit false

open Offside.Lexical

namespace Layout

/-- Tokens that close nothing by what they are. -/
def isQuiet : Token → Bool
  | .kwIn | .closeParen | .closeBracket | .comma | .closeBrace | .endOfInput => false
  | _ => true

/-- Layout adds nothing to a quiet token in the middle of a line. -/
theorem step_quiet {written : Written} {layout : Layout} (started : layout.started = true)
    (idle : layout.opener = none) (inLine : written.firstOnLine = false)
    (quiet : isQuiet written.token = true) : (layout.step written).1 = [] := by
  have met : layout.meet written = ([], { layout with started := true }) := by
    simp [meet, started, idle, align, inLine]
  rw [step_eq_meet, met]
  simp only [pass, List.nil_append]
  cases found : written.token <;> rw [found] at quiet <;> first | rfl | cases quiet

end Layout

theorem length_takeWhile_le_length (accepts : Char → Bool) (text : List Char) :
    (text.takeWhile accepts).length ≤ text.length :=
  (List.takeWhile_sublist accepts).length_le

theorem length_pos_of_leads {accepts : Char → Bool} {text : List Char}
    (led : leads accepts text = true) : 0 < text.length := by
  cases text with
  | nil => cases led
  | cons first rest => exact Nat.succ_pos _

theorem fractionWidth_le (text : List Char) : fractionWidth text ≤ text.length := by
  have digits := length_takeWhile_le_length Char.isDigit (text.drop 1)
  unfold fractionWidth
  split
  · rename_i found
    have positive := length_pos_of_leads (Bool.and_eq_true_iff.1 found).1
    rw [List.length_drop] at digits
    omega
  · exact Nat.zero_le _

theorem exponentWidth_le (continues : Char → Bool) (text : List Char) :
    exponentWidth continues text ≤ text.length := by
  simp only [exponentWidth]
  split
  · generalize (if leads isSign (text.drop 1) then 1 else 0) = sign
    have digits := length_takeWhile_le_length continues (text.drop (1 + sign))
    split
    · rename_i led
      have positive := length_pos_of_leads led
      rw [List.length_drop] at digits positive
      omega
    · exact Nat.zero_le _
  · exact Nat.zero_le _

theorem stringBody_le (text : List Char) : (stringBody text).1 ≤ text.length := by
  fun_induction stringBody text with
  | case1 => exact Nat.le_refl _
  | case2 => exact Nat.le_refl _
  | case3 second rest width isClosed found induction =>
    rw [found] at induction
    exact Nat.add_le_add_right induction 2
  | case4 rest => exact Nat.le_add_left 1 _
  | case5 => exact Nat.zero_le _
  | case6 first rest alone escaping unquoted inLine width isClosed found induction =>
    rw [found] at induction
    exact Nat.succ_le_succ induction

theorem commentBody_le (depth : Nat) (text : List Char) :
    (commentBody depth text).1 ≤ text.length := by
  fun_induction commentBody depth text with
  | case1 => exact Nat.le_refl _
  | case2 depth rest width isClosed found induction =>
    rw [found] at induction
    exact Nat.add_le_add_right induction 2
  | case3 rest => exact Nat.le_add_left 2 _
  | case4 depth rest width isClosed found induction =>
    rw [found] at induction
    exact Nat.add_le_add_right induction 2
  | case5 depth first rest opens closes ends width isClosed found induction =>
    rw [found] at induction
    exact Nat.succ_le_succ induction

theorem characterBody_le (text : List Char) : characterBody text ≤ text.length := by
  unfold characterBody
  split
  · exact Nat.le_refl _
  · rename_i rest
    have letters := length_takeWhile_le_length Char.isAlphanum (rest.drop 1)
    rw [List.length_drop] at letters
    rw [List.length_take, List.length_cons]
    omega
  · rename_i some _
    exact List.length_pos_iff.2 some

theorem scanCharacter_le (rest : List Char) : (scanCharacter rest).width ≤ rest.length + 1 := by
  have body := characterBody_le rest
  simp only [scanCharacter]
  split
  · rename_i closed
    have quote := length_pos_of_leads (Bool.and_eq_true_iff.1 closed).2
    rw [List.length_drop] at quote
    omega
  · omega

theorem scanNumber_le (text : List Char) : (scanNumber text).width ≤ text.length := by
  unfold scanNumber
  split
  · rename_i radix found
    have digits := length_takeWhile_le_length radix.isDigit (text.drop 2)
    have announced : 2 ≤ text.length := by
      unfold radixOf? at found
      split at found
      · exact Nat.le_add_left 2 _
      · cases found
    rw [List.length_drop] at digits
    simp only [scanRadix]
    omega
  · have whole := length_takeWhile_le_length Char.isDigit text
    have fraction := fractionWidth_le (text.drop (text.takeWhile Char.isDigit).length)
    rw [List.length_drop] at fraction
    simp only [scanDecimal]
    generalize (text.takeWhile Char.isDigit).length = first at *
    generalize fractionWidth (text.drop first) = second at *
    have exponent := exponentWidth_le Char.isDigit (text.drop (first + second))
    rw [List.length_drop] at exponent
    omega

theorem scan_width_le (afterProper : Bool) (text : List Char) :
    (scan afterProper text).width ≤ text.length := by
  have scanned := scan_scanned afterProper text
  generalize scan afterProper text = found at scanned ⊢
  cases scanned with
  | ended => exact Nat.le_refl _
  | @blockComment rest opens =>
    have dash := length_pos_of_leads opens
    have body := commentBody_le 0 (rest.drop 1)
    rw [List.length_drop] at body
    simp only [scanBlockComment, List.length_cons]
    omega
  | lineComment => exact length_takeWhile_le_length _ _
  | delimiter => exact Nat.le_add_left 1 _
  | string rest =>
    have body := stringBody_le rest
    simp only [scanString, List.length_cons]
    omega
  | character rest => exact scanCharacter_le rest
  | number => exact scanNumber_le _
  | word => exact length_takeWhile_le_length _ _
  | properWord => exact length_takeWhile_le_length _ _
  | qualifyingDot => exact Nat.le_add_left 1 _
  | operator => exact length_takeWhile_le_length _ _
  | unknown => exact Nat.le_add_left 1 _

theorem symbols_apart : ∀ character ∈ symbolCharacters,
    (character == '{') = false ∧ Token.spelled? delimiters [character] = none ∧
      (character == '"') = false ∧ (character == '\'') = false ∧ character.isDigit = false ∧
      (Text.isLowercase character || character == '_') = false ∧
      Text.isUppercase character = false ∧ Text.isBlank character = false := by
  have each : (symbolCharacters.all fun character =>
      decide ((character == '{') = false ∧ Token.spelled? delimiters [character] = none ∧
        (character == '"') = false ∧ (character == '\'') = false ∧ character.isDigit = false ∧
        (Text.isLowercase character || character == '_') = false ∧
        Text.isUppercase character = false ∧ Text.isBlank character = false)) = true := by
    decide
  exact fun character member => of_decide_eq_true (List.all_eq_true.1 each character member)

theorem blank_of_symbol {character : Char} (symbol : isSymbol character = true) :
    Text.isBlank character = false :=
  (symbols_apart character (List.contains_iff_mem.1 symbol)).2.2.2.2.2.2.2

/-- A symbol that touches no proper identifier starts a comment or an operator. -/
theorem scan_of_symbol {first : Char} (symbol : isSymbol first = true) (rest : List Char) :
    scan false (first :: rest) =
      if startsLineComment (first :: rest) then scanLineComment (first :: rest)
      else scanOperator (first :: rest) := by
  obtain ⟨brace, delimiter, quote, apostrophe, digit, lower, upper, -⟩ :=
    symbols_apart first (List.contains_iff_mem.1 symbol)
  unfold scan
  simp only [brace, delimiter, quote, apostrophe, digit, lower, upper, symbol, Bool.false_and,
    Bool.and_false, Bool.false_eq_true, if_false, if_true]

/-- A dot after a proper identifier that qualifies what follows it. -/
theorem scan_qualifying {rest : List Char} (qualifying : qualifies rest = true) :
    scan true ('.' :: rest) = { token := .dot, width := 1 } := by
  obtain ⟨brace, delimiter, quote, apostrophe, digit, lower, upper, -⟩ :=
    symbols_apart '.' (by decide)
  have comment : startsLineComment ('.' :: rest) = false := by simp [startsLineComment]
  have dot : (('.' == '.') && true && qualifies rest) = true := by simp [qualifying]
  unfold scan
  simp only [brace, delimiter, quote, apostrophe, digit, lower, upper, comment, dot,
    Bool.false_and, Bool.false_eq_true, if_false, if_true]

/-- Only a dot depends on what was read before it. -/
theorem scan_flag (text : List Char) :
    scan false text = scan true text ∨ (scan true text).token = .dot := by
  cases text with
  | nil => exact Or.inl rfl
  | cons first rest =>
    by_cases dot : (first == '.' && true && qualifies rest) = true
    · right
      obtain ⟨isDot, qualifying⟩ := Bool.and_eq_true_iff.1 dot
      have same : first = '.' := by simpa using isDot
      rw [same, scan_qualifying qualifying]
    · left
      unfold scan
      simp only [dot, Bool.and_false, Bool.false_and, Bool.false_eq_true, if_false]

theorem scan_proper (afterProper : Bool) (text : List Char)
    (proper : (scan afterProper text).token = .properIdentifier) :
    scan afterProper text = scanConstructor text := by
  have scanned := scan_scanned afterProper text
  generalize scan afterProper text = found at scanned proper ⊢
  cases scanned with
  | properWord => rfl
  | delimiter rest spelled =>
    exact absurd proper (Token.forall_of_spelled? (· ≠ .properIdentifier) (by decide) spelled)
  | @number first rest =>
    rcases scanNumber_kind (first :: rest) with kind | kind <;> rw [kind] at proper <;> cases proper
  | word =>
    exact absurd proper
      (scanVariable_token (· ≠ .properIdentifier) (by decide) (by decide) (by decide) _)
  | operator =>
    exact absurd proper
      (scanOperator_token (· ≠ .properIdentifier) (by decide) (by decide) (by decide) _)
  | ended | blockComment | lineComment | string | character | qualifyingDot | unknown => cases proper

theorem exists_symbol_of_qualifies {text : List Char} (qualifying : qualifies text = true) :
    ∃ first rest, text = first :: rest ∧ isSymbol first = true := by
  cases text with
  | nil => cases qualifying
  | cons first rest =>
    refine ⟨first, rest, rfl, ?_⟩
    by_cases dot : first = '.'
    · rw [dot]
      decide
    · have other : leads (· == '.') (first :: rest) = false := by simp [leads, dot]
      rw [qualifies, other] at qualifying
      exact qualifying

/-- What a dot qualifies it still qualifies if only the next token is left of it. -/
theorem qualifies_next {text : List Char} (qualifying : qualifies text = true)
    (after : List Char) : qualifies (text.take (scan false text).width ++ after) = true := by
  obtain ⟨first, rest, rfl, symbol⟩ := exists_symbol_of_qualifies qualifying
  by_cases dot : first = '.'
  · subst dot
    have comment : startsLineComment ('.' :: rest) = false := by simp [startsLineComment]
    cases rest with
    | nil => cases qualifying
    | cons second rest =>
      have follows : isSymbol second = true := qualifying
      rw [scan_of_symbol symbol, comment]
      simp only [Bool.false_eq_true, if_false, scanOperator, List.takeWhile_cons, symbol, follows,
        if_true, List.length_cons, List.take_succ_cons, List.cons_append]
      exact follows
  · have positive := scan_width_pos false (List.cons_ne_nil first rest)
    obtain ⟨fewer, width⟩ := Nat.exists_eq_succ_of_ne_zero (Nat.ne_of_gt positive)
    have other : ∀ more, leads (· == '.') (first :: more) = false := by simp [leads, dot]
    rw [width, List.take_succ_cons, List.cons_append, qualifies, other]
    exact symbol

namespace Lexer

def gap (lexer : Lexer) : List Char := lexer.cursor.ahead.takeWhile Text.isBlank

def nextText (lexer : Lexer) : List Char := lexer.place.ahead.take lexer.nextScan.width

theorem gap_append (lexer : Lexer) : lexer.gap ++ lexer.place.ahead = lexer.cursor.ahead := by
  have start := List.prefix_iff_eq_take.1
    (List.takeWhile_prefix Text.isBlank (l := lexer.cursor.ahead))
  rw [place, Cursor.skipWhile, Cursor.ahead_skip, gap]
  nth_rewrite 1 [start]
  exact List.take_append_drop _ _

theorem nextText_append (lexer : Lexer) :
    lexer.nextText ++ lexer.pastNext.cursor.ahead = lexer.place.ahead := by
  rw [cursor_pastNext, Cursor.ahead_skip]
  exact List.take_append_drop _ _

theorem length_nextText (lexer : Lexer) : lexer.nextText.length = lexer.nextScan.width := by
  rw [nextText, List.length_take]
  exact Nat.min_eq_left (scan_width_le _ _)

theorem take_nextText (lexer : Lexer) (rest : List Char) :
    (lexer.nextText ++ rest).take lexer.nextScan.width = lexer.nextText := by
  rw [← length_nextText, List.take_left]

theorem drop_nextText (lexer : Lexer) (rest : List Char) :
    (lexer.nextText ++ rest).drop lexer.nextScan.width = rest := by
  rw [← length_nextText, List.drop_left]

theorem exists_nextText {lexer : Lexer} (inner : lexer.nextScan.token ≠ .endOfInput) :
    ∃ first text, lexer.nextText = first :: text := by
  have remains : lexer.place.ahead ≠ [] := by
    intro ended
    rw [nextScan_ended ended] at inner
    exact inner rfl
  apply List.exists_cons_of_length_pos
  rw [length_nextText]
  exact scan_width_pos _ remains

/-- A proper identifier was read last and ends where the text ahead starts. -/
def touches (lexer : Lexer) : Bool := lexer.properEnd == some lexer.cursor.position

def EndsBehind (lexer : Lexer) : Prop :=
  ∀ place ∈ lexer.properEnd, place ≤ lexer.cursor.position

theorem place_of_gap {lexer : Lexer} (close : lexer.gap = []) : lexer.place = lexer.cursor := by
  have none : lexer.cursor.ahead.takeWhile Text.isBlank = [] := close
  rw [place, Cursor.skipWhile, none]
  rfl

/-- The next token touches a proper identifier only without blanks between them. -/
theorem afterProper_eq {lexer : Lexer} (behind : lexer.EndsBehind) :
    (lexer.properEnd == some lexer.place.position) = (lexer.touches && lexer.gap.isEmpty) := by
  cases found : lexer.gap with
  | nil =>
    rw [place_of_gap found]
    simp [touches]
  | cons first rest =>
    have blanks : 0 < (lexer.cursor.ahead.takeWhile Text.isBlank).length := by
      rw [show lexer.cursor.ahead.takeWhile Text.isBlank = first :: rest from found]
      exact Nat.succ_pos _
    have remains : lexer.cursor.ahead ≠ [] := by
      intro ended
      simp [ended] at blanks
    have further : lexer.cursor.position < lexer.place.position :=
      Cursor.position_lt_skip blanks remains
    have apart : lexer.properEnd ≠ some lexer.place.position := fun ends =>
      Position.lt_irrefl _ (Position.lt_of_le_of_lt (behind _ ends) further)
    simp [apart]

theorem properEnd_pastNext (lexer : Lexer) :
    lexer.pastNext.properEnd =
      if lexer.nextScan.token = .comment then lexer.properEnd
      else if lexer.nextScan.token = .properIdentifier then some lexer.pastNext.cursor.position
      else none := by
  unfold pastNext
  split
  · rfl
  · rfl

theorem behind_pastNext {lexer : Lexer} (behind : lexer.EndsBehind) :
    lexer.pastNext.EndsBehind := by
  intro place ends
  rw [properEnd_pastNext] at ends
  split at ends
  · exact Position.le_trans (behind place ends) lexer.position_le_pastNext
  · split at ends
    · cases ends
      exact Position.le_refl _
    · cases ends

theorem touches_pastNext {lexer : Lexer} (behind : lexer.EndsBehind)
    (inner : lexer.nextScan.token ≠ .endOfInput) :
    lexer.pastNext.touches = (lexer.nextScan.token == .properIdentifier) := by
  rw [touches, properEnd_pastNext]
  split
  · rename_i comment
    have further := Position.lt_of_le_of_lt lexer.position_le_place (position_lt_pastNext inner)
    have apart : lexer.properEnd ≠ some lexer.pastNext.cursor.position := fun ends =>
      Position.lt_irrefl _ (Position.lt_of_le_of_lt (behind _ ends) further)
    simp [apart, comment]
  · split
    · rename_i proper
      simp [proper]
    · rename_i other
      simp [other]

theorem place_of_ahead {lexer : Lexer} {blanks text : List Char}
    (ahead : lexer.cursor.ahead = blanks ++ text)
    (blank : ∀ character ∈ blanks, Text.isBlank character = true)
    (starts : leads Text.isBlank text = false) :
    lexer.gap = blanks ∧ lexer.place.ahead = text := by
  have rest : text.takeWhile Text.isBlank = [] := by
    cases text with
    | nil => rfl
    | cons first rest =>
      have other : Text.isBlank first = false := starts
      simp [other]
  have gap : lexer.gap = blanks := by
    rw [Lexer.gap, ahead, List.takeWhile_append_of_pos blank, rest, List.append_nil]
  have whole := lexer.gap_append
  rw [gap, ahead] at whole
  exact ⟨gap, List.append_cancel_left whole⟩

theorem nextScan_of_ahead {lexer : Lexer} {blanks text : List Char} (behind : lexer.EndsBehind)
    (ahead : lexer.cursor.ahead = blanks ++ text)
    (blank : ∀ character ∈ blanks, Text.isBlank character = true)
    (starts : leads Text.isBlank text = false) :
    lexer.nextScan = scan (lexer.touches && blanks.isEmpty) text ∧
      lexer.nextText = text.take lexer.nextScan.width ∧
      lexer.pastNext.cursor.ahead = text.drop lexer.nextScan.width := by
  obtain ⟨gap, place⟩ := place_of_ahead ahead blank starts
  refine ⟨?_, ?_, ?_⟩
  · rw [nextScan, afterProper_eq behind, gap, place]
  · rw [nextText, place]
  · rw [cursor_pastNext, Cursor.ahead_skip, place]

theorem leads_place (lexer : Lexer) : leads Text.isBlank lexer.place.ahead = false := by
  rw [place, Cursor.skipWhile, Cursor.ahead_skip]
  exact leads_takeWhile_end Text.isBlank lexer.cursor.ahead

theorem starts_nextText {lexer : Lexer} (inner : lexer.nextScan.token ≠ .endOfInput)
    (rest : List Char) : leads Text.isBlank (lexer.nextText ++ rest) = false := by
  have starts := lexer.leads_place
  obtain ⟨first, text, found⟩ := exists_nextText inner
  rw [← nextText_append, found] at starts
  rw [found]
  exact starts

theorem gap_blank (lexer : Lexer) : ∀ character ∈ lexer.gap, Text.isBlank character = true :=
  fun _ member => List.mem_takeWhile_imp member

end Lexer

end Offside.Haskell
