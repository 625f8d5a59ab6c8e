import Offside.Proofs.Endings.Widths
import Offside.Proofs.Lexical.Cuts

/-!
Tokens of Haskell with the other line ends. Tokens that stand within a line are found again, and so are
block comments, with the same text behind them. A line comment or a string that its line cuts off takes
the carriage return along, and a quote at the end of a line takes it in place of the line feed; the
blanks in front of the next token make up for it. A string or character in which a backslash cancels
a line feed is not found again.
-/

namespace Offside.Haskell

set_option autoImplicit false

open Lexical Text

theorem fractionWidth_within : WithinLine fractionWidth where
  same := fun text => by
    have point : StaysInLine (· == '.') := by decide
    have digit : StaysInLine Char.isDigit := by decide
    unfold fractionWidth
    rw [leads_firstLine point]
    cases led : leads (· == '.') text with
    | false => rfl
    | true =>
      rw [drop_firstLine (length_firstLine_pos point led), leads_firstLine digit,
        takeWhile_firstLine digit]
  within := fun text => by
    have reads := (WithinLine.marked_run (show StaysInLine (· == '.') by decide)
      (show StaysInLine Char.isDigit by decide)).within text
    unfold fractionWidth
    split
    · rename_i found
      rw [if_pos (Bool.and_eq_true_iff.1 found).1] at reads
      exact reads
    · exact Nat.zero_le _

theorem scanRadix_reads {text : List Char} {radix : Text.Radix}
    (announced : radixOf? text = some radix) : ReadsLine (scanRadix radix) text := by
  have two := two_le_firstLine announced
  have stays : StaysInLine radix.isDigit := by cases radix <;> decide
  have digits := length_takeWhile_le_firstLine stays (text.drop 2)
  rw [← drop_firstLine two, List.length_drop] at digits
  constructor
  · simp only [scanRadix]
    rw [drop_firstLine two, takeWhile_firstLine stays]
  · simp only [scanRadix]
    omega

theorem scanDecimal_reads (text : List Char) : ReadsLine scanDecimal text := by
  have stays : StaysInLine Char.isDigit := by decide
  have whole := WithinLine.run stays
  have fraction := whole.followed fractionWidth_within
  have decimal := fraction.followed (exponentWidth_within stays)
  have behindWhole := whole.drop text
  have behindFraction := fraction.drop text
  constructor
  · simp only [scanDecimal, takeWhile_firstLine stays, behindWhole, fractionWidth_within.same,
      behindFraction, (exponentWidth_within stays).same]
  · exact decimal.within text

theorem scanNumber_reads (text : List Char) : ReadsLine scanNumber text :=
  .number (fun text radix announced => by rw [scanNumber, announced])
    (fun text unannounced => by rw [scanNumber, unannounced])
    (fun _ announced => scanRadix_reads announced) (scanDecimal_reads text)

theorem scanVariable_reads (text : List Char) : ReadsLine scanVariable text where
  same := by
    unfold scanVariable
    rw [takeWhile_firstLine (by decide)]
  within := length_takeWhile_le_firstLine (by decide) text

theorem scanConstructor_reads (text : List Char) : ReadsLine scanConstructor text where
  same := by
    unfold scanConstructor
    rw [takeWhile_firstLine (by decide)]
  within := length_takeWhile_le_firstLine (by decide) text

theorem scanOperator_reads (text : List Char) : ReadsLine scanOperator text where
  same := by
    unfold scanOperator
    rw [takeWhile_firstLine (by decide)]
  within := length_takeWhile_le_firstLine (by decide) text

theorem startsLineComment_firstLine (text : List Char) :
    startsLineComment (firstLine text) = startsLineComment text := by
  have dash : StaysInLine (· == '-') := by decide
  simp only [startsLineComment, takeWhile_firstLine dash,
    drop_firstLine (length_takeWhile_le_firstLine dash text),
    leads_firstLine (show StaysInLine isSymbol by decide)]

theorem qualifies_firstLine (text : List Char) : qualifies (firstLine text) = qualifies text := by
  have point : StaysInLine (· == '.') := by decide
  have symbol : StaysInLine isSymbol := by decide
  unfold qualifies
  rw [leads_firstLine point, leads_firstLine symbol]
  cases led : leads (· == '.') text with
  | false => rfl
  | true =>
    rw [drop_firstLine (length_firstLine_pos point led), leads_firstLine symbol]

section

variable {first : Char} {rest : List Char}

/-- A token that is no comment and has no quotes stands within its line. -/
theorem scan_reads (inLine : isInLine first = true)
    (noBlock : (first == '{' && leads (· == '-') rest) = false)
    (noComment : startsLineComment (first :: rest) = false) (noString : (first == '"') = false)
    (noCharacter : (first == '\'') = false) (afterProper : Bool) :
    ReadsLine (scan afterProper) (first :: rest) := by
  have noBlockLine : (first == '{' && leads (· == '-') (firstLine rest)) = false := by
    rw [leads_firstLine (show StaysInLine (· == '-') by decide), noBlock]
  constructor
  · rw [firstLine_cons inLine]
    simp only [scan, noBlock, noBlockLine, noString, noCharacter, Bool.false_eq_true, if_false]
    rw [← firstLine_cons inLine, startsLineComment_firstLine, (scanNumber_reads _).same,
      (scanVariable_reads _).same, (scanConstructor_reads _).same, (scanOperator_reads _).same,
      qualifies_firstLine]
    simp only [noComment, Bool.false_eq_true, if_false]
  · have one : 1 ≤ (firstLine (first :: rest)).length := by
      rw [firstLine_cons inLine]
      exact Nat.succ_pos _
    simp only [scan, noBlock, noComment, noString, noCharacter, Bool.false_eq_true, if_false]
    split
    · exact one
    · split
      · exact (scanNumber_reads _).within
      · split
        · exact (scanVariable_reads _).within
        · split
          · exact (scanConstructor_reads _).within
          · split
            · exact one
            · split
              · exact (scanOperator_reads _).within
              · exact one

end

theorem characterBody_crlf {rest : List Char} (onLine : rest.head? ≠ some '\n')
    (whole : ¬lineSplice <+: rest) : characterBody (crlf rest) = characterBody rest := by
  obtain _ | ⟨first, _ | ⟨second, more⟩⟩ := rest
  · rfl
  · have other : first ≠ '\n' := by simpa using onLine
    rw [crlf_cons other]
    rfl
  · have other : first ≠ '\n' := by simpa using onLine
    rw [crlf_cons other]
    by_cases escape : first = '\\'
    · have plain : second ≠ '\n' := by
        rintro rfl
        exact whole ⟨more, by rw [escape]; rfl⟩
      rw [escape, crlf_cons plain]
      simp [characterBody, takeWhile_crlf (show StaysInLine Char.isAlphanum by decide)]
    · simp [characterBody, escape]

theorem characterBody_within {rest : List Char} (feeds : '\r' ∉ rest)
    (onLine : rest.head? ≠ some '\n') (whole : ¬lineSplice <+: rest) :
    characterBody rest ≤ (firstLine rest).length := by
  obtain _ | ⟨first, _ | ⟨second, more⟩⟩ := rest
  · exact Nat.le_refl _
  · have other : first ≠ '\n' := by simpa using onLine
    rw [firstLine_cons (isInLine_of_ne other (by simpa using feeds))]
    unfold characterBody
    split <;> simp_all
  · have other : first ≠ '\n' := by simpa using onLine
    simp only [List.mem_cons, not_or] at feeds
    rw [firstLine_cons (isInLine_of_ne other feeds.1), List.length_cons]
    by_cases escape : first = '\\'
    · have plain : second ≠ '\n' := by
        rintro rfl
        exact whole ⟨more, by rw [escape]; rfl⟩
      have run := length_takeWhile_le_firstLine (show StaysInLine Char.isAlphanum by decide) more
      rw [firstLine_cons (isInLine_of_ne plain feeds.2.1), escape]
      simp only [characterBody, List.take_succ_cons, List.take_zero, List.drop_one,
        List.tail_cons, List.length_cons, List.length_nil]
      omega
    · simp [characterBody, escape]

theorem leads_lineFeed {text : List Char} (onLine : text.head? ≠ some '\n') :
    leads (· == '\n') text = false := by
  cases text with
  | nil => rfl
  | cons first rest => simpa [leads] using onLine

theorem scanCharacter_crlf {rest : List Char} (feeds : '\r' ∉ rest)
    (onLine : rest.head? ≠ some '\n') (whole : ¬lineSplice <+: rest) :
    scanCharacter (crlf rest) = scanCharacter rest ∧
      (scanCharacter rest).width ≤ (firstLine rest).length + 1 := by
  have quote : StaysInLine (· == '\'') := by decide
  have within := characterBody_within feeds onLine whole
  have behind : (crlf rest).drop (characterBody rest) = crlf (rest.drop (characterBody rest)) := by
    have dropped := drop_crlf rest (characterBody rest)
    rwa [crlf_take_of_within within, length_take_of_within within] at dropped
  have feed := leads_lineFeed onLine
  have feedOther := leads_lineFeed (head?_crlf_ne rest)
  constructor
  · simp only [scanCharacter, characterBody_crlf onLine whole, behind, feed, feedOther,
      leads_crlf quote]
  · simp only [scanCharacter]
    split
    · rename_i closed
      have closing := length_firstLine_pos quote (Bool.and_eq_true_iff.1 closed).2
      rw [← drop_firstLine within, List.length_drop] at closing
      omega
    · omega

theorem stringBody_escape (character : Char) (rest : List Char) :
    stringBody ('\\' :: character :: rest) = ((stringBody rest).1 + 2, (stringBody rest).2) :=
  rfl

theorem stringBody_passed {character : Char} (plain : character ≠ '\\') (inner : character ≠ '"')
    (onLine : character ≠ '\n') (rest : List Char) :
    stringBody (character :: rest) = ((stringBody rest).1 + 1, (stringBody rest).2) := by
  rw [stringBody]
  · rw [if_neg inner, if_neg onLine]
  · simp [plain]
  · simp [plain]

/-- What stands between the quotes of a string is found again, and the carriage return of the line end
that cuts the string off. -/
theorem stringBody_crlf {text : List Char} (feeds : '\r' ∉ text)
    (whole : ¬lineSplice <:+: text.take (stringBody text).1) :
    (stringBody (crlf text)).2 = (stringBody text).2 ∧
      (stringBody (crlf text)).1 = (stringBody text).1 +
        (if (stringBody text).2 = false ∧ (text.drop (stringBody text).1).head? = some '\n'
          then 1 else 0) ∧
      (stringBody text).1 ≤ (firstLine text).length := by
  induction text using stringBody.induct with
  | case1 => simp [stringBody]
  | case2 => simp [stringBody, crlf_cons, firstLine_cons, isInLine]
  | case3 second rest width closed found induction =>
    simp only [List.mem_cons, not_or] at feeds
    rw [stringBody_escape] at whole ⊢
    have plain : second ≠ '\n' := by
      rintro rfl
      exact whole ⟨[], _, rfl⟩
    obtain ⟨same, width, within⟩ := induction feeds.2.2 fun splice =>
      whole (List.infix_cons (List.infix_cons splice))
    rw [crlf_cons (by decide), crlf_cons plain, stringBody_escape,
      firstLine_cons (by decide), firstLine_cons (isInLine_of_ne plain feeds.2.1)]
    refine ⟨same, ?_, Nat.add_le_add_right within 2⟩
    simp only [width, List.drop_succ_cons]
    omega
  | case4 rest notLast notEscape =>
    rw [crlf_cons (by decide), firstLine_cons (by decide)]
    simp [stringBody]
  | case5 rest notLast notEscape other =>
    rw [crlf_lineFeed, stringBody_passed (by decide) (by decide) (by decide)]
    simp [stringBody]
  | case6 character rest notLast notEscape inner onLine width closed found induction =>
    simp only [List.mem_cons, not_or] at feeds
    have plain := plain_of_no_escape notLast notEscape
    rw [stringBody_passed plain inner onLine] at whole ⊢
    obtain ⟨same, width, within⟩ := induction feeds.2 fun splice =>
      whole (List.infix_cons splice)
    rw [crlf_cons onLine, stringBody_passed plain inner onLine,
      firstLine_cons (isInLine_of_ne onLine feeds.1)]
    refine ⟨same, ?_, Nat.add_le_add_right within 1⟩
    simp only [width, List.drop_succ_cons]
    omega

theorem commentBody_passed {character : Char} (noOpening : character ≠ '{')
    (noClosing : character ≠ '-') (depth : Nat) (rest : List Char) :
    commentBody depth (character :: rest) =
      ((commentBody depth rest).1 + 1, (commentBody depth rest).2) := by
  cases depth <;> simp [commentBody, noOpening, noClosing]

theorem commentBody_crlf (depth : Nat) (text : List Char) :
    commentBody depth (crlf text) =
      ((crlf (text.take (commentBody depth text).1)).length, (commentBody depth text).2) := by
  fun_induction commentBody depth text with
  | case1 => rfl
  | case2 depth rest width isClosed found induction =>
    rw [found] at induction
    rw [crlf_cons (by decide), crlf_cons (by decide), commentBody, induction]
    simp [crlf_cons]
  | case3 rest =>
    rw [crlf_cons (by decide), crlf_cons (by decide), commentBody]
    rfl
  | case4 depth rest width isClosed found induction =>
    rw [found] at induction
    rw [crlf_cons (by decide), crlf_cons (by decide), commentBody, induction]
    simp [crlf_cons]
  | case5 depth first rest opens closes ends width isClosed found induction =>
    rw [found] at induction
    by_cases lineFeed : first = '\n'
    · rw [lineFeed, crlf_lineFeed, commentBody_passed (by decide) (by decide),
        commentBody_passed (by decide) (by decide), induction]
      simp
    · rw [crlf_cons lineFeed, commentBody, induction]
      · simp [crlf_cons lineFeed]
      · intro tail isFirst isSecond
        obtain ⟨more, second⟩ := exists_cons_of_crlf isSecond (by decide)
        exact opens more isFirst second
      · intro tail outermost isFirst isSecond
        obtain ⟨more, second⟩ := exists_cons_of_crlf isSecond (by decide)
        exact closes more outermost isFirst second
      · intro outer tail inner isFirst isSecond
        obtain ⟨more, second⟩ := exists_cons_of_crlf isSecond (by decide)
        exact ends outer more inner isFirst second

/-- Cursors that are twins behind the blanks ahead of them. -/
def Near (left right : Cursor) : Prop :=
  (left.skipWhile Text.isBlank).Twin (right.skipWhile Text.isBlank)

theorem near_of_twin {left right : Cursor} (twin : left.Twin right) : Near left right :=
  twin.skipWhile_breaks (by decide) (by decide)

theorem skipBlanks_advance {cursor : Cursor} {first : Char} {rest : List Char}
    (ahead : cursor.ahead = first :: rest) (blank : Text.isBlank first = true) :
    cursor.advance.skipWhile Text.isBlank = cursor.skipWhile Text.isBlank := by
  unfold Cursor.skipWhile
  rw [Cursor.ahead_advance, ahead, List.takeWhile_cons_of_pos blank]
  rfl

section

variable {left right : Cursor} {rest : List Char}

/-- Of two cursors at a line end the second may be past the carriage return. -/
theorem near_return (twin : left.Twin right) (feed : left.ahead = '\n' :: rest) :
    Near left right.advance := by
  have ahead : right.ahead = '\r' :: '\n' :: crlf rest := by rw [twin.ahead, feed]; rfl
  unfold Near
  rw [skipBlanks_advance ahead (by decide)]
  exact near_of_twin twin

theorem near_advance (twin : left.Twin right) (feed : left.ahead = '\n' :: rest) :
    Near left.advance right.advance := by
  have near := near_return twin feed
  unfold Near at near ⊢
  rwa [skipBlanks_advance feed (by decide)]

end

/-- Scans at twin cursors that find the same, with the cursors behind them near each other. Behind
a proper identifier they are at the same place. -/
structure FindsNear (left right : Cursor) (found other : Scan) : Prop where
  alike : Scan.Alike found other
  near : Near (left.skip found.width) (right.skip other.width)
  place : found.token = .properIdentifier →
    (right.skip other.width).position = (left.skip found.width).position

theorem findsNear_of_twin {left right : Cursor} {found other : Scan}
    (alike : Scan.Alike found other) (twin : (left.skip found.width).Twin (right.skip other.width)) :
    FindsNear left right found other where
  alike := alike
  near := near_of_twin twin
  place := fun _ => twin.position

/-- A string or character in which a backslash cancels a line feed. -/
def IsSpliced (token : Token) (text : List Char) : Prop :=
  (token = .string ∨ token = .character) ∧ lineSplice <:+: text

section

variable {left right : Cursor} {rest : List Char}

theorem blockComment_near (twin : left.Twin right) (ahead : left.ahead = '{' :: '-' :: rest) :
    FindsNear left right (scanBlockComment rest) (scanBlockComment (crlf rest)) := by
  have skipped := twin.skip (scanBlockComment rest).width
  have width : (crlf (left.ahead.take (scanBlockComment rest).width)).length =
      (scanBlockComment (crlf rest)).width := by
    simp only [scanBlockComment, commentBody_crlf, ahead, Nat.add_comm 2, List.take_succ_cons]
    rw [crlf_cons (by decide), crlf_cons (by decide)]
    rfl
  rw [width] at skipped
  refine findsNear_of_twin ⟨rfl, ?_⟩ skipped
  simp only [scanBlockComment, commentBody_crlf]
  split <;> rfl

theorem lineComment_near (twin : left.Twin right) :
    FindsNear left right (scanLineComment left.ahead) (scanLineComment right.ahead) where
  alike := ⟨rfl, rfl⟩
  near := by
    have inLine : ∃ base, (left.skipWhile (· != '\n')).Twin base ∧
        right.skipWhile (· != '\n') =
          if (left.skipWhile (· != '\n')).startsWith '\n' then base.advance else base :=
      twin.skipWhile_return (by decide) (by decide)
    obtain ⟨base, reached, skipped⟩ := inLine
    change Near (left.skipWhile (· != '\n')) (right.skipWhile (· != '\n'))
    rw [skipped]
    split
    · rename_i feed
      obtain ⟨rest, ahead⟩ := Cursor.ahead_of_lineFeed feed
      exact near_return reached ahead
    · exact near_of_twin reached
  place := fun proper => by cases proper

theorem string_near (twin : left.Twin right) (feeds : '\r' ∉ rest)
    (ahead : left.ahead = '"' :: rest)
    (whole : ¬lineSplice <:+: left.ahead.take (scanString rest).width) :
    FindsNear left right (scanString rest) (scanString (crlf rest)) := by
  have taken : left.ahead.take (scanString rest).width = '"' :: rest.take (stringBody rest).1 := by
    rw [ahead]
    simp only [scanString, Nat.add_comm 1, List.take_succ_cons]
  rw [taken] at whole
  obtain ⟨same, width, within⟩ := stringBody_crlf feeds fun splice =>
    whole (List.infix_cons splice)
  have reached : (left.skip (1 + (stringBody rest).1)).Twin
      (right.skip (1 + (stringBody rest).1)) := by
    refine twin.skip_within ?_
    rw [ahead, firstLine_cons (by decide), List.length_cons]
    omega
  refine ⟨⟨rfl, ?_⟩, ?_, fun proper => by cases proper⟩
  · simp only [scanString, same]
    split <;> rfl
  · simp only [scanString, width]
    split
    · rename_i cutOff
      obtain ⟨later, feed⟩ := List.head?_eq_some_iff.1 cutOff.2
      have behind : (left.skip (1 + (stringBody rest).1)).ahead = '\n' :: later := by
        rw [Cursor.ahead_skip, ahead, Nat.add_comm, List.drop_succ_cons, feed]
      have near := near_return reached behind
      rwa [show (right.skip (1 + (stringBody rest).1)).advance =
        right.skip (1 + (stringBody rest).1 + 1) from (Cursor.skip_add _ 1 right).symm] at near
    · exact near_of_twin reached

theorem character_near (twin : left.Twin right) (feeds : '\r' ∉ rest)
    (ahead : left.ahead = '\'' :: rest)
    (whole : ¬lineSplice <:+: left.ahead.take (scanCharacter rest).width) :
    FindsNear left right (scanCharacter rest) (scanCharacter (crlf rest)) := by
  by_cases feed : rest.head? = some '\n'
  · obtain ⟨later, rfl⟩ := List.head?_eq_some_iff.1 feed
    have quote : (left.skip 1).Twin (right.skip 1) := by
      refine twin.skip_within ?_
      rw [ahead]
      exact Nat.le_add_left _ _
    have behind : (left.skip 1).ahead = '\n' :: later := by
      rw [Cursor.ahead_skip, ahead]
      rfl
    exact ⟨⟨rfl, rfl⟩, near_advance quote behind, fun proper => by cases proper⟩
  · have plain : ¬lineSplice <+: rest := by
      rintro ⟨later, rfl⟩
      refine whole ⟨['\''], later.take ((scanCharacter (lineSplice ++ later)).width - 3), ?_⟩
      have wide : 3 ≤ (scanCharacter (lineSplice ++ later)).width := by
        simp only [scanCharacter, lineSplice, List.cons_append, characterBody, List.take_succ_cons,
          List.length_cons]
        split <;> omega
      obtain ⟨more, width⟩ := Nat.exists_eq_add_of_le' wide
      rw [width, ahead]
      rfl
    obtain ⟨same, within⟩ := scanCharacter_crlf feeds feed plain
    rw [same]
    refine findsNear_of_twin (.refl _) (twin.skip_within ?_)
    rw [ahead, firstLine_cons (by decide), List.length_cons]
    exact within

theorem startsLineComment_crlf (text : List Char) :
    startsLineComment (crlf text) = startsLineComment text := by
  rw [← startsLineComment_firstLine, firstLine_crlf, startsLineComment_firstLine]

theorem startsLineComment_of_ne {first : Char} (other : first ≠ '-') (rest : List Char) :
    startsLineComment (first :: rest) = false := by
  simp [startsLineComment, other]

theorem scan_block (afterProper : Bool) (rest : List Char) :
    scan afterProper ('{' :: '-' :: rest) = scanBlockComment rest := by
  simp [scan, leads]

theorem scan_comment {first : Char} {rest : List Char} (afterProper : Bool)
    (noBlock : (first == '{' && leads (· == '-') rest) = false)
    (comment : startsLineComment (first :: rest) = true) :
    scan afterProper (first :: rest) = scanLineComment (first :: rest) := by
  simp [scan, noBlock, comment]

theorem scan_string (afterProper : Bool) (rest : List Char) :
    scan afterProper ('"' :: rest) = scanString rest := by
  have unlisted : Token.spelled? delimiters ['"'] = none := by decide
  simp [scan, startsLineComment_of_ne, unlisted]

theorem scan_character (afterProper : Bool) (rest : List Char) :
    scan afterProper ('\'' :: rest) = scanCharacter rest := by
  have unlisted : Token.spelled? delimiters ['\''] = none := by decide
  simp [scan, startsLineComment_of_ne, unlisted]

theorem plain_near {first : Char} (twin : left.Twin right) (ahead : left.ahead = first :: rest)
    (inLine : isInLine first = true)
    (noBlock : (first == '{' && leads (· == '-') rest) = false)
    (noComment : startsLineComment (first :: rest) = false) (noString : (first == '"') = false)
    (noCharacter : (first == '\'') = false) (afterProper : Bool) :
    FindsNear left right (scan afterProper (first :: rest)) (scan afterProper right.ahead) := by
  have noFeed : first ≠ '\n' := by
    rintro rfl
    cases inLine
  have reads := scan_reads inLine noBlock noComment noString noCharacter afterProper
  have readsOther : ReadsLine (scan afterProper) (crlf (first :: rest)) := by
    rw [← startsLineComment_crlf, crlf_cons noFeed] at noComment
    rw [← leads_crlf (show StaysInLine (· == '-') by decide)] at noBlock
    rw [crlf_cons noFeed]
    exact scan_reads inLine noBlock noComment noString noCharacter afterProper
  rw [twin.ahead, ahead, reads.crlf readsOther]
  refine findsNear_of_twin (.refl _) (twin.skip_within ?_)
  rw [ahead]
  exact Nat.le_trans (Nat.le_add_right _ _) reads.within

/-- Behind the blanks of twin cursors the same token is found, unless it is a spliced one. -/
theorem scan_near (twin : left.Twin right) (feeds : '\r' ∉ left.ahead)
    (start : leads Text.isBlank left.ahead = false) (afterProper : Bool)
    (whole : ¬IsSpliced (scan afterProper left.ahead).token
      (left.ahead.take (scan afterProper left.ahead).width)) :
    FindsNear left right (scan afterProper left.ahead) (scan afterProper right.ahead) := by
  cases ahead : left.ahead with
  | nil =>
    rw [twin.ahead, ahead]
    exact findsNear_of_twin (.refl _) twin
  | cons first rest =>
    rw [ahead] at start
    have noFeed : first ≠ '\n' := by
      rintro rfl
      cases start
    have inLine := isInLine_of_ne noFeed fun found => feeds (by simp [ahead, ← found])
    have feedsBehind : '\r' ∉ rest := fun member => feeds (by simp [ahead, member])
    have other : right.ahead = first :: crlf rest := by rw [twin.ahead, ahead, crlf_cons noFeed]
    have comments : startsLineComment (first :: crlf rest) =
        startsLineComment (first :: rest) := by
      rw [← crlf_cons noFeed, startsLineComment_crlf]
    have dashes := leads_crlf (show StaysInLine (· == '-') by decide) rest
    by_cases block : (first == '{' && leads (· == '-') rest) = true
    · obtain ⟨brace, dash⟩ := Bool.and_eq_true_iff.1 block
      obtain ⟨more, rfl⟩ : ∃ more, rest = '-' :: more := by
        cases rest with
        | nil => cases dash
        | cons second more => exact ⟨more, by rw [show second = '-' by simpa [leads] using dash]⟩
      obtain rfl : first = '{' := eq_of_beq brace
      have otherBlock : right.ahead = '{' :: '-' :: crlf more := by
        rw [other, crlf_cons (by decide)]
      rw [otherBlock, scan_block, scan_block]
      exact blockComment_near twin ahead
    · have noBlock := Bool.eq_false_iff.2 block
      have noBlockOther : (first == '{' && leads (· == '-') (crlf rest)) = false := by
        rw [dashes, noBlock]
      by_cases comment : startsLineComment (first :: rest) = true
      · rw [other, scan_comment _ noBlock comment,
          scan_comment _ noBlockOther (comments.trans comment), ← other, ← ahead]
        exact lineComment_near twin
      · by_cases string : first = '"'
        · subst string
          rw [ahead, scan_string] at whole
          rw [other, scan_string, scan_string]
          refine string_near twin feedsBehind ahead fun splice => whole ⟨.inl rfl, ?_⟩
          rwa [← ahead]
        · by_cases character : first = '\''
          · subst character
            rw [ahead, scan_character] at whole
            rw [other, scan_character, scan_character]
            refine character_near twin feedsBehind ahead fun splice => whole ⟨.inr rfl, ?_⟩
            rwa [← ahead]
          · exact plain_near twin ahead inLine noBlock (Bool.eq_false_iff.2 comment)
              (beq_false_of_ne string) (beq_false_of_ne character) afterProper

end

end Offside.Haskell
