import Offside.Proofs.Endings.PythonScans
import Offside.Proofs.Lexical.Tiling
import Offside.Proofs.Python.Lines

/-!
Whole lines of Python. As long as a line feed is ahead in them, they are read alike whatever text follows
them, except for a string that is still open at their end. Such a string leads past them or to the end of
the text, and not to the start of a line right behind them.
-/

namespace Offside

set_option autoImplicit false

open Lexical Text

def EndsLine (text : List Char) : Prop := ∀ last ∈ text.getLast?, last = '\n'

section EndsLine

variable {text later : List Char} {accepts : Char → Bool} {character : Char}

theorem EndsLine.drop (ends : EndsLine text) (count : Nat) : EndsLine (text.drop count) := by
  intro last member
  by_cases within : count < text.length
  · rw [List.getLast?_drop, if_neg (by omega)] at member
    exact ends last member
  · rw [List.drop_eq_nil_of_le (by omega)] at member
    cases member

theorem EndsLine.tail (ends : EndsLine (character :: text)) : EndsLine text := ends.drop 1

theorem EndsLine.mem (ends : EndsLine text) (remains : text ≠ []) : '\n' ∈ text := by
  have last := List.getLast?_eq_some_getLast remains
  rw [← ends _ last]
  exact List.getLast_mem remains

theorem EndsLine.tail_ne_nil (ends : EndsLine (character :: text)) (inner : character ≠ '\n') :
    text ≠ [] := by
  rintro rfl
  exact inner (ends character rfl)

theorem length_takeWhile_lt (stops : accepts '\n' = false) (feed : '\n' ∈ text) :
    (text.takeWhile accepts).length < text.length := by
  refine Nat.lt_of_le_of_ne (List.takeWhile_sublist accepts).length_le fun same => ?_
  rw [(List.takeWhile_sublist accepts).eq_of_length same |>.symm] at feed
  rw [List.all_eq_true.1 List.all_takeWhile '\n' feed] at stops
  cases stops

theorem takeWhile_append (stops : accepts '\n' = false) (feed : '\n' ∈ text) :
    (text ++ later).takeWhile accepts = text.takeWhile accepts := by
  rw [List.takeWhile_append, if_neg (Nat.ne_of_lt (length_takeWhile_lt stops feed))]

theorem firstLine_append (feed : '\n' ∈ text) : firstLine (text ++ later) = firstLine text :=
  takeWhile_append (by decide) feed

theorem lineBreakWidth_append (ends : EndsLine text) (remains : text ≠ []) :
    lineBreakWidth (text ++ later) = lineBreakWidth text := by
  match text with
  | [] => exact absurd rfl remains
  | [first] =>
    obtain rfl : first = '\n' := ends first rfl
    rfl
  | first :: second :: rest =>
    by_cases feed : first = '\n'
    · rw [feed]
      rfl
    · by_cases broken : first = '\r' ∧ second = '\n'
      · rw [broken.1, broken.2]
        rfl
      · have none : ∀ rest, lineBreakWidth (first :: second :: rest) = 0 := by
          intro rest
          unfold lineBreakWidth
          split <;> simp_all
        rw [List.cons_append, List.cons_append, none, none]

theorem take_two_append {quote : Char} (inner : quote ≠ '\n') (ends : EndsLine text)
    (remains : text ≠ []) :
    (text ++ later).take 2 = [quote, quote] ↔ text.take 2 = [quote, quote] := by
  match text with
  | [] => exact absurd rfl remains
  | [first] =>
    obtain rfl : first = '\n' := ends first rfl
    simp [Ne.symm inner]
  | first :: second :: rest => rfl

end EndsLine

namespace Cursor

variable {cursor : Cursor} {further : List Char} {accepts : Char → Bool}

theorem skipWhile_onTo (stops : accepts '\n' = false) (feed : '\n' ∈ cursor.ahead) :
    (cursor.onTo further).skipWhile accepts = (cursor.skipWhile accepts).onTo further := by
  have same : (cursor.onTo further).ahead.takeWhile accepts = cursor.ahead.takeWhile accepts :=
    takeWhile_append stops feed
  rw [skipWhile, skipWhile, same]
  exact onTo_skip (Nat.le_of_lt (length_takeWhile_lt stops feed)) further

theorem skipWhile_remains (stops : accepts '\n' = false) (feed : '\n' ∈ cursor.ahead) :
    (cursor.skipWhile accepts).ahead ≠ [] := by
  have shorter := length_takeWhile_lt stops feed
  rw [skipWhile, ahead_skip, Ne, List.drop_eq_nil_iff]
  omega

theorem ahead_skipWhile (accepts : Char → Bool) (cursor : Cursor) :
    (cursor.skipWhile accepts).ahead = cursor.ahead.dropWhile accepts := by
  have split := List.takeWhile_append_dropWhile (p := accepts) (l := cursor.ahead)
  calc (cursor.skipWhile accepts).ahead
      = cursor.ahead.drop (cursor.ahead.takeWhile accepts).length := ahead_skip _ _
    _ = (cursor.ahead.takeWhile accepts ++ cursor.ahead.dropWhile accepts).drop
          (cursor.ahead.takeWhile accepts).length := by rw [split]
    _ = cursor.ahead.dropWhile accepts := List.drop_left

theorem startsWith_onTo (remains : cursor.ahead ≠ []) (character : Char) :
    (cursor.onTo further).startsWith character = cursor.startsWith character := by
  obtain ⟨first, rest, found⟩ := List.exists_cons_of_ne_nil remains
  simp [startsWith, onTo, found]

theorem spanAhead_onTo {width : Nat} (within : width ≤ cursor.ahead.length) (file : FileId) :
    spanAhead file (cursor.onTo further) width = spanAhead file cursor width := by
  unfold spanAhead
  rw [onTo_skip within]
  rfl

end Cursor

namespace Python

variable {quote : Char} {triple : Bool} {text : List Char} {prefixWidth : Nat}

theorem isQuote_plain (mark : isQuote quote = true) : quote ≠ '\n' ∧ quote ≠ '\\' := by
  refine ⟨?_, ?_⟩ <;>
  · rintro rfl
    cases mark

/-- Three quotes stand ahead as before, if a character that is a quote is one ahead of further text. -/
theorem closesTriple_append {character : Char} (mark : isQuote quote = true)
    (ends : EndsLine (character :: text)) (later : List Char) :
    (character = quote ∧ (text ++ later).take 2 = [quote, quote]) ↔
      character = quote ∧ text.take 2 = [quote, quote] := by
  refine and_congr_right fun same => ?_
  have noFeed := (isQuote_plain mark).1
  exact take_two_append noFeed ends.tail (ends.tail_ne_nil (by rwa [same]))

/-- What stands between quotes ends as before or goes on into the text that follows. -/
theorem stringBody_append (mark : isQuote quote = true) (ends : EndsLine text) (later : List Char) :
    stringBody quote triple (text ++ later) =
      if (stringBody quote triple text).1 = text.length then
        ((stringBody quote triple later).1 + text.length, (stringBody quote triple later).2)
      else stringBody quote triple text := by
  obtain ⟨noFeed, -⟩ := isQuote_plain mark
  fun_induction stringBody quote triple text with
  | case1 => rfl
  | case2 => exact absurd (ends '\\' rfl) (by decide)
  | case3 second rest width closed found induction =>
    have further := induction ends.tail.tail
    rw [found] at further
    rw [List.cons_append, List.cons_append, stringBody_escape, further]
    by_cases isOpen : width = rest.length
    · simp [isOpen, Nat.add_assoc]
    · simp [isOpen]
  | case4 character rest notLast notEscape breaks =>
    have plain := plain_of_no_escape notLast notEscape
    have same : lineBreakWidth (character :: rest ++ later) = lineBreakWidth (character :: rest) :=
      lineBreakWidth_append ends (List.cons_ne_nil _ _)
    rw [List.cons_append] at same ⊢
    rw [stringBody_cons plain, same, if_pos breaks]
    simp
  | case5 character rest notLast notEscape unbroken single =>
    have plain := plain_of_no_escape notLast notEscape
    have same : lineBreakWidth (character :: rest ++ later) = lineBreakWidth (character :: rest) :=
      lineBreakWidth_append ends (List.cons_ne_nil _ _)
    have remains : rest ≠ [] := ends.tail_ne_nil (by rw [single.1]; exact noFeed)
    rw [List.cons_append] at same ⊢
    rw [stringBody_cons plain, same, if_neg unbroken, if_pos single]
    simp [remains]
  | case6 character rest notLast notEscape unbroken notSingle three =>
    have plain := plain_of_no_escape notLast notEscape
    have same : lineBreakWidth (character :: rest ++ later) = lineBreakWidth (character :: rest) :=
      lineBreakWidth_append ends (List.cons_ne_nil _ _)
    rw [List.cons_append] at same ⊢
    rw [stringBody_cons plain, same, if_neg unbroken, if_neg notSingle,
      if_pos ((closesTriple_append mark ends later).2 three), if_neg]
    intro whole
    have pair : rest = [quote, quote] := by
      rw [← three.2, List.take_of_length_le]
      simp only [List.length_cons] at whole
      omega
    rw [pair] at ends
    exact noFeed (ends quote rfl)
  | case7 character rest notLast notEscape unbroken notSingle notThree width closed found induction =>
    have plain := plain_of_no_escape notLast notEscape
    have same : lineBreakWidth (character :: rest ++ later) = lineBreakWidth (character :: rest) :=
      lineBreakWidth_append ends (List.cons_ne_nil _ _)
    have further := induction ends.tail
    rw [found] at further
    rw [List.cons_append] at same ⊢
    rw [stringBody_cons plain, same, if_neg unbroken, if_neg notSingle,
      if_neg (mt (closesTriple_append mark ends later).1 notThree), further]
    by_cases isOpen : width = rest.length
    · simp [isOpen, Nat.add_assoc]
    · simp [isOpen]

theorem stringBody_le (quote : Char) (triple : Bool) (text : List Char) :
    (stringBody quote triple text).1 ≤ text.length := by
  fun_induction stringBody quote triple text with
  | case1 => exact Nat.le_refl _
  | case2 => exact Nat.le_refl _
  | case3 second rest width closed found induction =>
    rw [found] at induction
    simp only [List.length_cons]
    omega
  | case4 => exact Nat.zero_le _
  | case5 => simp
  | case6 character rest notLast notEscape unbroken notSingle three =>
    have pair := congrArg List.length three.2
    simp only [List.length_take, List.length_cons, List.length_nil] at pair ⊢
    omega
  | case7 character rest notLast notEscape unbroken notSingle notThree width closed found induction =>
    rw [found] at induction
    exact Nat.succ_le_succ induction

/-- A token ahead is read alike whatever follows the text, or leads to its end whatever follows. -/
def IsSettled (text : List Char) : Prop :=
  ((scan text).width < text.length ∧ ∀ later, scan (text ++ later) = scan text) ∨
    ∀ later, text.length ≤ (scan (text ++ later)).width

/-- What ends before the end of the text is followed by the same line break. -/
theorem lineBreakWidth_drop_append (ends : EndsLine text) {width : Nat} (within : width < text.length)
    (later : List Char) :
    lineBreakWidth ((text ++ later).drop width) = lineBreakWidth (text.drop width) := by
  rw [List.drop_append_of_le_length (Nat.le_of_lt within)]
  exact lineBreakWidth_append (ends.drop width) (by simpa using within)

def stringOf (text : List Char) (opening : Nat) (triple : Bool) (body : Nat × Bool) : Scan where
  token := .string
  width := opening + body.1
  absorbed := if body.2 || triple then 0 else lineBreakWidth (text.drop (opening + body.1))
  defect := if body.2 then none else some ⟨.unterminatedLiteral, opening + body.1⟩

theorem stringOf_append {opening : Nat} {body : Nat × Bool} (ends : EndsLine text)
    (within : opening + body.1 < text.length) (later : List Char) :
    stringOf (text ++ later) opening triple body = stringOf text opening triple body := by
  rw [stringOf, stringOf, lineBreakWidth_drop_append ends within]

theorem scanString_of_quote (quote : Char) (front rest : List Char) (triple : Bool)
    (three : (rest.take 2 == [quote, quote]) = triple) :
    scanString front.length (front ++ quote :: rest) =
      stringOf (front ++ quote :: rest) (front.length + if triple then 3 else 1) triple
        (stringBody quote triple (rest.drop ((if triple then 3 else 1) - 1))) := by
  rw [scanString, List.drop_left]
  simp only [three, stringOf]

theorem scanString_eq {front rest : List Char} (mark : isQuote quote = true)
    (ends : EndsLine (front ++ quote :: rest)) :
    ∃ triple opening, opening ≤ (front ++ quote :: rest).length ∧
      ∀ later, scanString front.length (front ++ quote :: rest ++ later) =
        stringOf (front ++ quote :: rest ++ later) opening triple
          (stringBody quote triple ((front ++ quote :: rest).drop opening ++ later)) := by
  have opened : EndsLine (quote :: rest) := by
    have dropped := ends.drop front.length
    rwa [List.drop_left] at dropped
  have remains : rest ≠ [] := opened.tail_ne_nil (isQuote_plain mark).1
  obtain ⟨triple, three⟩ : ∃ triple, (rest.take 2 == [quote, quote]) = triple := ⟨_, rfl⟩
  have further : ∀ later, ((rest ++ later).take 2 == [quote, quote]) = triple := by
    intro later
    rw [← three, Bool.eq_iff_iff, beq_iff_eq, beq_iff_eq]
    exact take_two_append (isQuote_plain mark).1 opened.tail remains
  have within : (if triple then 3 else 1) - 1 ≤ rest.length := by
    cases triple with
    | false => exact Nat.zero_le _
    | true =>
      have pair := congrArg List.length (eq_of_beq three)
      simp only [List.length_take, List.length_cons, List.length_nil] at pair
      simp only [if_true]
      omega
  have positive : 1 ≤ if triple then 3 else 1 := by cases triple <;> decide
  refine ⟨triple, front.length + if triple then 3 else 1, ?_, fun later => ?_⟩
  · rw [List.length_append, List.length_cons]
    omega
  · have split : (front ++ quote :: rest).drop (front.length + if triple then 3 else 1) =
        rest.drop ((if triple then 3 else 1) - 1) := by
      rw [← List.drop_drop, List.drop_left]
      obtain ⟨more, found⟩ := Nat.exists_eq_add_of_le' positive
      rw [found]
      rfl
    have scanned := scanString_of_quote quote front (rest ++ later) triple (further later)
    rw [List.drop_append_of_le_length within] at scanned
    rw [split, List.append_assoc, List.cons_append, scanned]

theorem scanString_append {front rest : List Char} (mark : isQuote quote = true)
    (ends : EndsLine (front ++ quote :: rest)) :
    ((scanString front.length (front ++ quote :: rest)).width < (front ++ quote :: rest).length ∧
      ∀ later, scanString front.length (front ++ quote :: rest ++ later) =
        scanString front.length (front ++ quote :: rest)) ∨
    ∀ later, (front ++ quote :: rest).length ≤
      (scanString front.length (front ++ quote :: rest ++ later)).width := by
  obtain ⟨triple, opening, within, scanned⟩ := scanString_eq mark ends
  have bodies := @stringBody_append quote triple _ mark (ends.drop opening)
  have bound := stringBody_le quote triple ((front ++ quote :: rest).drop opening)
  have alone := scanned []
  rw [List.append_nil, List.append_nil] at alone
  generalize front ++ quote :: rest = text at *
  have rest := List.length_drop (i := opening) (l := text)
  by_cases isOpen : (stringBody quote triple (text.drop opening)).1 = (text.drop opening).length
  · refine .inr fun later => ?_
    rw [scanned, bodies, if_pos isOpen]
    simp only [stringOf]
    omega
  · have short : opening + (stringBody quote triple (text.drop opening)).1 < text.length := by omega
    refine .inl ⟨?_, fun later => ?_⟩
    · rw [alone]
      exact short
    · rw [scanned, bodies, if_neg isOpen, alone, stringOf_append ends short]

theorem isSettled_of_line (ends : EndsLine text) (line : firstLine text ≠ []) : IsSettled text := by
  have remains : text ≠ [] := by
    rintro rfl
    exact line rfl
  have feed := ends.mem remains
  have shorter : (firstLine text).length < text.length := length_takeWhile_lt (by decide) feed
  have same : ∀ later, firstLine (text ++ later) = firstLine text := fun _ => firstLine_append feed
  have numbers : ∀ later, startsNumber (text ++ later) = startsNumber text := by
    intro later
    rw [← startsNumber_firstLine, same, startsNumber_firstLine]
  have strings : ∀ later, stringPrefixWidth? (text ++ later) = stringPrefixWidth? text := by
    intro later
    rw [← stringPrefixWidth?_firstLine, same, stringPrefixWidth?_firstLine]
  by_cases other : startsNumber text = true ∨ stringPrefixWidth? text = none
  · have reads := scan_reads line other
    refine .inl ⟨by have := reads.within; omega, fun later => ?_⟩
    have further : ReadsLine scan (text ++ later) :=
      scan_reads (by rwa [same]) (by rwa [numbers, strings])
    rw [← further.same, same, reads.same]
  · simp only [not_or, Bool.not_eq_true] at other
    obtain ⟨noNumber, found⟩ := other
    obtain ⟨width, string⟩ := Option.ne_none_iff_exists'.1 found
    obtain ⟨front, quote, rest, rfl, rfl, mark, -⟩ := stringPrefixWidth?_shape string
    have scanned := scan_opened noNumber string
    have further : ∀ later, scan (front ++ quote :: rest ++ later) =
        scanString front.length (front ++ quote :: rest ++ later) := fun later =>
      scan_opened (by rw [numbers, noNumber]) (by rw [strings, string])
    simp only [IsSettled, scanned, further]
    exact scanString_append mark ends

theorem scan_defect_le (text : List Char) :
    ∀ defect ∈ (scan text).defect, defect.width ≤ (scan text).width := by
  unfold scan
  split
  · unfold scanNumber
    split
    · rename_i radix _
      simp only [scanRadix]
      split
      · rintro _ ⟨⟩
        simp only
        omega
      · rintro _ ⟨⟩
    · simp only [scanDecimal]
      split
      · rintro _ ⟨⟩
      · split <;> rintro _ ⟨⟩
  · split
    · unfold scanString
      split
      · rintro _ ⟨⟩
      · simp only
        generalize stringBody _ _ _ = body
        obtain ⟨width, _ | _⟩ := body
        · rintro _ ⟨⟩
          exact Nat.le_refl _
        · rintro _ ⟨⟩
    · split
      · rintro _ ⟨⟩
      · unfold scanSymbol
        split
        · rintro _ ⟨⟩
        · rintro _ ⟨⟩
          exact Nat.le_refl _

/-- A line break that is read together with a token stands behind it. -/
theorem scan_absorbed_le (text : List Char) :
    (scan text).absorbed ≤ text.length - (scan text).width := by
  rcases scan_absorbed text with none | behind
  · omega
  · rw [behind, ← List.length_drop]
    exact lineBreakWidth_le_length _

namespace Lexer

variable {lexer : Lexer} {cursor : Cursor} {further : List Char} {file : FileId}

def onTo (further : List Char) (lexer : Lexer) : Lexer :=
  { lexer with cursor := lexer.cursor.onTo further }

def moveOnTo (further : List Char) (move : Move Lexer) : Move Lexer :=
  ⟨move.item, move.state.onTo further⟩

theorem ends_skip (ends : EndsLine cursor.ahead) (count : Nat) : EndsLine (cursor.skip count).ahead := by
  rw [Cursor.ahead_skip]
  exact ends.drop count

theorem lineBreakWidth_onTo (ends : EndsLine cursor.ahead) (remains : cursor.ahead ≠ []) :
    lineBreakWidth (cursor.onTo further).ahead = lineBreakWidth cursor.ahead :=
  lineBreakWidth_append ends remains

theorem commentScan_onTo (ends : EndsLine cursor.ahead) (remains : cursor.ahead ≠ []) :
    commentScan (cursor.onTo further).ahead = commentScan cursor.ahead := by
  have same : firstLine (cursor.ahead ++ further) = firstLine cursor.ahead :=
    firstLine_append (ends.mem remains)
  unfold firstLine at same
  exact congrArg (fun line : List Char => ({ token := .comment, width := line.length } : Scan)) same

theorem commentScan_lt (ends : EndsLine cursor.ahead) (remains : cursor.ahead ≠ []) :
    (commentScan cursor.ahead).width < cursor.ahead.length :=
  length_takeWhile_lt (by decide) (ends.mem remains)

theorem afterComment_onTo (ends : EndsLine cursor.ahead) (remains : cursor.ahead ≠ []) :
    afterComment (cursor.onTo further) = (afterComment cursor).onTo further := by
  rw [afterComment, commentScan_onTo ends remains]
  exact Cursor.onTo_skip (Nat.le_of_lt (commentScan_lt ends remains)) further

theorem afterComment_remains (ends : EndsLine cursor.ahead) (remains : cursor.ahead ≠ []) :
    (afterComment cursor).ahead ≠ [] := by
  rw [afterComment, Cursor.ahead_skip, Ne, List.drop_eq_nil_iff]
  have := commentScan_lt ends remains
  omega

/-- What a scan finds within the text ahead it finds in front of a further text. -/
theorem lexed_onTo {scan : Scan} (within : scan.width ≤ cursor.ahead.length)
    (defect : ∀ defect ∈ scan.defect, defect.width ≤ cursor.ahead.length) (text : List Char) :
    scan.lexed file (cursor.onTo further) text = scan.lexed file cursor text := by
  have reports : (scan.defect.toList.map fun defect =>
      (⟨defect.problem, spanAhead file (cursor.onTo further) defect.width⟩ : Diagnostic)) =
        scan.defect.toList.map fun defect => ⟨defect.problem, spanAhead file cursor defect.width⟩ := by
    refine List.map_congr_left fun found member => ?_
    rw [Cursor.spanAhead_onTo (defect found (by simpa using member))]
  rw [Scan.lexed, Scan.lexed, reports, Cursor.spanAhead_onTo within]
  rfl

theorem commentItem_onTo (ends : EndsLine cursor.ahead) (remains : cursor.ahead ≠ []) :
    commentItem file (cursor.onTo further) = commentItem file cursor := by
  have within := Nat.le_of_lt (commentScan_lt ends remains)
  have text : (cursor.onTo further).ahead.take (commentScan cursor.ahead).width =
      cursor.ahead.take (commentScan cursor.ahead).width := List.take_append_of_le_length within
  rw [commentItem, commentScan_onTo ends remains, text]
  exact lexed_onTo within (by rintro _ ⟨⟩) _

theorem moveAtLineStart_onTo (ends : EndsLine lexer.cursor.ahead) (remains : lexer.cursor.ahead ≠ []) :
    (lexer.onTo further).moveAtLineStart file = moveOnTo further (lexer.moveAtLineStart file) := by
  have feed := ends.mem remains
  have skipped : (lexer.cursor.onTo further).skipWhile Cursor.isIndentation =
      (lexer.cursor.skipWhile Cursor.isIndentation).onTo further :=
    Cursor.skipWhile_onTo (by decide) feed
  have endsLeft : EndsLine (lexer.cursor.skipWhile Cursor.isIndentation).ahead := ends_skip ends _
  have left := Cursor.skipWhile_remains (show Cursor.isIndentation '\n' = false by decide) feed
  simp only [moveAtLineStart, onTo, skipped]
  generalize lexer.cursor.skipWhile Cursor.isIndentation = cursor at endsLeft left ⊢
  have inner : (cursor.onTo further).ahead.isEmpty = cursor.ahead.isEmpty := by
    rw [List.isEmpty_eq_false_iff.2 left]
    exact List.isEmpty_eq_false_iff.2 (by simp [Cursor.onTo, left])
  simp only [inner, lineBreakWidth_onTo endsLeft left, Cursor.startsWith_onTo left]
  split
  · rfl
  · split
    · rw [Cursor.onTo_skip (lineBreakWidth_le_length _)]
      rfl
    · split
      · have breaks : lineBreakWidth ((afterComment cursor).onTo further).ahead =
            lineBreakWidth (afterComment cursor).ahead :=
          lineBreakWidth_onTo (ends_skip endsLeft _) (afterComment_remains endsLeft left)
        rw [commentItem_onTo endsLeft left, afterComment_onTo endsLeft left, breaks,
          Cursor.onTo_skip (lineBreakWidth_le_length _)]
        rfl
      · have meets : (cursor.onTo further).indentation = cursor.indentation := rfl
        rw [meets]
        generalize lexer.blocks.meet cursor.indentation = met
        obtain ⟨_ | _ | (_ | _), after⟩ := met <;> rfl

theorem moveAtLineFeed_onTo (remains : lexer.cursor.ahead ≠ []) :
    (lexer.onTo further).moveAtLineFeed file = moveOnTo further (lexer.moveAtLineFeed file) := by
  have moved : (lexer.cursor.onTo further).advance = lexer.cursor.advance.onTo further :=
    Cursor.onTo_skip (List.length_pos_iff.2 remains) further
  simp only [moveAtLineFeed, onTo, moved]
  split
  · rfl
  · split <;> rfl

/-- The lexer has read into the text that follows, or stands within a line at its start. -/
structure Past (further : List Char) (lexer : Lexer) : Prop where
  ahead : lexer.cursor.ahead.length ≤ further.length
  inLine : lexer.cursor.ahead.length = further.length → lexer.atLineStart = false

/-- A token ahead is read alike in front of any further text, or leads into it. -/
theorem moveAtToken_onTo (ends : EndsLine lexer.cursor.ahead) (line : firstLine lexer.cursor.ahead ≠ []) :
    (∀ further, (lexer.onTo further).moveAtToken file = moveOnTo further (lexer.moveAtToken file)) ∨
      ∀ further, Past further ((lexer.onTo further).moveAtToken file).state := by
  rcases isSettled_of_line ends line with ⟨within, same⟩ | leads
  · refine .inl fun further => ?_
    have found : scan (lexer.onTo further).cursor.ahead = scan lexer.cursor.ahead := same further
    have text : recordedText (scan lexer.cursor.ahead) (lexer.cursor.ahead ++ further) =
        recordedText (scan lexer.cursor.ahead) lexer.cursor.ahead := by
      rw [recordedText, recordedText, List.take_append_of_le_length (Nat.le_of_lt within)]
    have absorbed := scan_absorbed_le lexer.cursor.ahead
    have moved : (lexer.cursor.onTo further).skip
        ((scan lexer.cursor.ahead).width + (scan lexer.cursor.ahead).absorbed) =
          (lexer.cursor.skip ((scan lexer.cursor.ahead).width +
            (scan lexer.cursor.ahead).absorbed)).onTo further := Cursor.onTo_skip (by omega) further
    have item := @lexed_onTo lexer.cursor further file _ (Nat.le_of_lt within)
      (fun defect member => Nat.le_trans (scan_defect_le _ defect member) (Nat.le_of_lt within))
      (recordedText (scan lexer.cursor.ahead) lexer.cursor.ahead)
    simp only [moveAtToken, found]
    simp only [onTo, moved]
    rw [← item, ← text]
    rfl
  · refine .inr fun further => ?_
    have far : lexer.cursor.ahead.length ≤ (scan (lexer.cursor.ahead ++ further)).width := leads further
    have absorbed := scan_absorbed_le (lexer.cursor.ahead ++ further)
    have moves := scan_width_pos (lexer.cursor.ahead ++ further)
    simp only [moveAtToken, onTo, Move.emit, Cursor.onTo]
    constructor
    · simp only [Cursor.ahead_skip, List.length_drop, List.length_append]
      omega
    · simp only [Cursor.ahead_skip, List.length_drop, List.length_append] at absorbed ⊢
      intro whole
      have none : (scan (lexer.cursor.ahead ++ further)).absorbed = 0 := by omega
      simp [none]

theorem continuationWidth_append {text : List Char} (ends : EndsLine text) (remains : text ≠ []) :
    continuationWidth (text ++ further) = continuationWidth text := by
  cases text with
  | nil => exact absurd rfl remains
  | cons character rest =>
    by_cases escape : character = '\\'
    · have left : rest ≠ [] := ends.tail_ne_nil (by rw [escape]; decide)
      rw [escape, List.cons_append]
      simp only [continuationWidth, lineBreakWidth_append ends.tail left]
    · simp [continuationWidth, escape]

theorem continuationWidth_le (text : List Char) : continuationWidth text ≤ text.length := by
  unfold continuationWidth
  split
  · rename_i rest
    have := lineBreakWidth_le_length rest
    rw [List.length_cons]
    split <;> omega
  · exact Nat.zero_le _

/-- Behind the blanks of a line its end or some other character stands. -/
theorem firstLine_of_blanks (remains : (cursor.skipWhile isBlankInLine).ahead ≠ [])
    (onLine : (cursor.skipWhile isBlankInLine).startsWith '\n' = false) :
    firstLine (cursor.skipWhile isBlankInLine).ahead ≠ [] := by
  have stops := List.head?_dropWhile_not isBlankInLine cursor.ahead
  rw [← Cursor.ahead_skipWhile] at stops
  obtain ⟨first, more, found⟩ := List.exists_cons_of_ne_nil remains
  simp only [found, List.head?_cons, isBlankInLine, Bool.or_eq_false_iff, beq_eq_false_iff_ne] at stops
  have noFeed : first ≠ '\n' := by simpa [Cursor.startsWith, found] using onLine
  rw [found, firstLine_cons (isInLine_of_ne noFeed (Ne.symm stops.2))]
  exact List.cons_ne_nil _ _

theorem moveInLine_onTo (ends : EndsLine lexer.cursor.ahead) (remains : lexer.cursor.ahead ≠ []) :
    (∀ further, (lexer.onTo further).moveInLine file = moveOnTo further (lexer.moveInLine file)) ∨
      ∀ further, Past further ((lexer.onTo further).moveInLine file).state := by
  have feed := ends.mem remains
  have skipped : ∀ further, (lexer.cursor.onTo further).skipWhile isBlankInLine =
      (lexer.cursor.skipWhile isBlankInLine).onTo further :=
    fun _ => Cursor.skipWhile_onTo (by decide) feed
  have endsLeft : EndsLine (lexer.cursor.skipWhile isBlankInLine).ahead := ends_skip ends _
  have left := Cursor.skipWhile_remains (show isBlankInLine '\n' = false by decide) feed
  have line := firstLine_of_blanks left
  simp only [moveInLine, onTo, skipped]
  generalize lexer.cursor.skipWhile isBlankInLine = cursor at endsLeft left line ⊢
  have inner : ∀ further, (cursor.onTo further).ahead.isEmpty = cursor.ahead.isEmpty := by
    intro further
    rw [List.isEmpty_eq_false_iff.2 left]
    exact List.isEmpty_eq_false_iff.2 (by simp [Cursor.onTo, left])
  have continued : ∀ further, continuationWidth (cursor.onTo further).ahead =
      continuationWidth cursor.ahead := fun further => continuationWidth_append endsLeft left
  simp only [inner, continued, Cursor.startsWith_onTo left, List.isEmpty_eq_false_iff.2 left,
    Bool.false_eq_true, if_false]
  by_cases comment : cursor.startsWith '#' = true
  · simp only [if_pos comment, commentItem_onTo endsLeft left, afterComment_onTo endsLeft left]
    exact .inl fun further => rfl
  · simp only [if_neg comment]
    by_cases breaks : cursor.startsWith '\n' = true
    · simp only [if_pos breaks]
      exact .inl fun further => @moveAtLineFeed_onTo { lexer with cursor } further file left
    · simp only [if_neg breaks]
      by_cases joined : 0 < continuationWidth cursor.ahead
      · simp only [if_pos joined, Cursor.onTo_skip (continuationWidth_le _)]
        exact .inl fun further => rfl
      · simp only [if_neg joined]
        exact @moveAtToken_onTo { lexer with cursor } file endsLeft (line (by simpa using breaks))

/-- Within whole lines a move is the same whatever text follows, or it leads past them whatever follows. -/
theorem move_onTo (file : FileId) (ends : EndsLine lexer.cursor.ahead)
    (remains : lexer.cursor.ahead ≠ []) :
    (∀ further, (lexer.onTo further).move file = moveOnTo further (lexer.move file)) ∨
      ∀ further, Past further ((lexer.onTo further).move file).state := by
  have same : ∀ further, (lexer.onTo further).blocks.owed = lexer.blocks.owed ∧
      (lexer.onTo further).atLineStart = lexer.atLineStart := fun _ => ⟨rfl, rfl⟩
  simp only [move, same]
  split
  · exact .inl fun _ => rfl
  · split
    · exact .inl fun _ => moveAtLineStart_onTo ends remains
    · exact moveInLine_onTo ends remains

end Lexer

end Python

end Offside
