import Offside.Lexical.Number
import Offside.Proofs.Lexical.Recording

/-!
Texts whose lines end the other way. The carriage return that is written before a line feed ends, like
the line feed itself, whatever is read within a line, so nothing changes there. Every cursor in a text
has a twin in the other: what is ahead is the same text with the other line ends, and places and
indentations are the same.
-/

namespace Offside

set_option autoImplicit false

open Offside.Lexical

namespace Text

/-- A text with a carriage return before every line feed. -/
def crlf (text : List Char) : List Char :=
  text.flatMap fun character => if character = '\n' then ['\r', '\n'] else [character]

@[simp] theorem crlf_nil : crlf [] = [] := rfl

@[simp] theorem crlf_lineFeed (rest : List Char) :
    crlf ('\n' :: rest) = '\r' :: '\n' :: crlf rest :=
  rfl

theorem crlf_cons {character : Char} (other : character ≠ '\n') (rest : List Char) :
    crlf (character :: rest) = character :: crlf rest := by
  simp [crlf, other]

@[simp] theorem crlf_append (front back : List Char) :
    crlf (front ++ back) = crlf front ++ crlf back :=
  List.flatMap_append

theorem crlf_of_inLine {text : List Char} (inLine : '\n' ∉ text) : crlf text = text := by
  induction text with
  | nil => rfl
  | cons character rest induction =>
    simp only [List.mem_cons, not_or] at inLine
    rw [crlf_cons (Ne.symm inLine.1), induction inLine.2]

theorem crlf_eq_nil_iff {text : List Char} : crlf text = [] ↔ text = [] := by
  cases text with
  | nil => simp
  | cons character rest =>
    by_cases lineFeed : character = '\n'
    · simp [lineFeed]
    · simp [crlf_cons lineFeed]

/-- What leads the other text is led by the same character in the first, or is a carriage return. -/
theorem exists_cons_of_crlf {text tail : List Char} {character : Char}
    (led : crlf text = character :: tail) (other : character ≠ '\r') :
    ∃ rest, text = character :: rest := by
  cases text with
  | nil => cases led
  | cons first rest =>
    by_cases lineFeed : first = '\n'
    · rw [lineFeed, crlf_lineFeed] at led
      exact absurd (List.cons.inj led).1.symm other
    · rw [crlf_cons lineFeed] at led
      exact ⟨rest, by rw [(List.cons.inj led).1]⟩

theorem crlf_split (text : List Char) (count : Nat) :
    crlf text = crlf (text.take count) ++ crlf (text.drop count) := by
  rw [← crlf_append, List.take_append_drop]

theorem head?_crlf_ne (text : List Char) : (crlf text).head? ≠ some '\n' := by
  cases text with
  | nil => simp
  | cons character rest =>
    by_cases lineFeed : character = '\n'
    · simp [lineFeed]
    · simp [crlf_cons lineFeed, lineFeed]

theorem take_crlf (text : List Char) (count : Nat) :
    (crlf text).take (crlf (text.take count)).length = crlf (text.take count) := by
  rw [crlf_split text count]
  exact List.take_left

theorem drop_crlf (text : List Char) (count : Nat) :
    (crlf text).drop (crlf (text.take count)).length = crlf (text.drop count) := by
  rw [crlf_split text count]
  exact List.drop_left

abbrev StaysInLine (accepts : Char → Bool) : Prop :=
  accepts '\n' = false ∧ accepts '\r' = false

section

variable {accepts : Char → Bool}

theorem leads_crlf (stays : StaysInLine accepts) (text : List Char) :
    leads accepts (crlf text) = leads accepts text := by
  cases text with
  | nil => rfl
  | cons character rest =>
    by_cases lineFeed : character = '\n'
    · simp [lineFeed, leads, stays]
    · rw [crlf_cons lineFeed]
      rfl

theorem takeWhile_crlf (stays : StaysInLine accepts) (text : List Char) :
    (crlf text).takeWhile accepts = text.takeWhile accepts := by
  induction text with
  | nil => rfl
  | cons character rest induction =>
    by_cases lineFeed : character = '\n'
    · simp [lineFeed, stays]
    · rw [crlf_cons lineFeed, List.takeWhile_cons, List.takeWhile_cons, induction]

/-- A run of characters among which both characters of a line end may be keeps its lines. -/
theorem takeWhile_crlf_of_breaks (lineFeed : accepts '\n' = true)
    (carriageReturn : accepts '\r' = true) (text : List Char) :
    (crlf text).takeWhile accepts = crlf (text.takeWhile accepts) := by
  induction text with
  | nil => rfl
  | cons character rest induction =>
    by_cases isBreak : character = '\n'
    · simp [isBreak, lineFeed, carriageReturn, induction]
    · cases accepted : accepts character with
      | true => simp [crlf_cons isBreak, accepted, induction]
      | false => simp [crlf_cons isBreak, accepted]

/-- A run of characters among which only a carriage return may be takes along the one at its end. -/
theorem takeWhile_crlf_of_return (lineFeed : accepts '\n' = false)
    (carriageReturn : accepts '\r' = true) (text : List Char) :
    (crlf text).takeWhile accepts = text.takeWhile accepts ++
      if (text.drop (text.takeWhile accepts).length).head? == some '\n' then ['\r'] else [] := by
  induction text with
  | nil => rfl
  | cons character rest induction =>
    by_cases isBreak : character = '\n'
    · simp [isBreak, lineFeed, carriageReturn]
    · rw [crlf_cons isBreak]
      cases accepted : accepts character with
      | true => simp [accepted, induction]
      | false => simp [accepted, isBreak]

end

def isInLine (character : Char) : Bool := character != '\n' && character != '\r'

theorem isInLine_of_ne {character : Char} (noFeed : character ≠ '\n')
    (noReturn : '\r' ≠ character) : isInLine character = true := by
  simp [isInLine, noFeed, Ne.symm noReturn]

def firstLine (text : List Char) : List Char := text.takeWhile isInLine

theorem firstLine_cons {character : Char} (inLine : isInLine character = true)
    (rest : List Char) : firstLine (character :: rest) = character :: firstLine rest :=
  List.takeWhile_cons_of_pos inLine

theorem firstLine_of_break {character : Char} (isBreak : isInLine character = false)
    (rest : List Char) : firstLine (character :: rest) = [] := by
  simp [firstLine, isBreak]

theorem firstLine_ne_nil {text : List Char} (feeds : '\r' ∉ text) (remains : text ≠ [])
    (onLine : text.head? ≠ some '\n') : firstLine text ≠ [] := by
  cases text with
  | nil => exact absurd rfl remains
  | cons first rest =>
    simp only [List.mem_cons, not_or] at feeds
    rw [firstLine_cons (isInLine_of_ne (by simpa using onLine) feeds.1)]
    exact List.cons_ne_nil _ _

@[simp] theorem firstLine_crlf (text : List Char) : firstLine (crlf text) = firstLine text :=
  takeWhile_crlf (by decide) text

theorem StaysInLine.isInLine {accepts : Char → Bool} (stays : StaysInLine accepts)
    {character : Char} (accepted : accepts character = true) : isInLine character = true := by
  simp only [Text.isInLine, Bool.and_eq_true, bne_iff_ne]
  constructor
  · rintro rfl
    simp [stays.1] at accepted
  · rintro rfl
    simp [stays.2] at accepted

section

variable {accepts : Char → Bool}

theorem leads_firstLine (stays : StaysInLine accepts) (text : List Char) :
    leads accepts (firstLine text) = leads accepts text := by
  cases text with
  | nil => rfl
  | cons character rest =>
    cases inLine : isInLine character with
    | true =>
      rw [firstLine_cons inLine]
      rfl
    | false =>
      have rejected : accepts character = false := by
        cases accepted : accepts character with
        | false => rfl
        | true => rw [stays.isInLine accepted] at inLine; cases inLine
      rw [firstLine_of_break inLine]
      simp [leads, rejected]

theorem length_firstLine_pos (stays : StaysInLine accepts) {text : List Char}
    (led : leads accepts text = true) : 0 < (firstLine text).length := by
  rw [← leads_firstLine stays] at led
  cases found : firstLine text with
  | nil =>
    rw [found] at led
    cases led
  | cons character rest => exact Nat.succ_pos _

theorem takeWhile_firstLine (stays : StaysInLine accepts) (text : List Char) :
    (firstLine text).takeWhile accepts = text.takeWhile accepts := by
  induction text with
  | nil => rfl
  | cons character rest induction =>
    cases accepted : accepts character with
    | true => simp [firstLine_cons (stays.isInLine accepted), accepted, induction]
    | false =>
      cases inLine : isInLine character with
      | true => simp [firstLine_cons inLine, accepted]
      | false => simp [firstLine_of_break inLine, accepted]

theorem length_takeWhile_le_firstLine (stays : StaysInLine accepts) (text : List Char) :
    (text.takeWhile accepts).length ≤ (firstLine text).length := by
  rw [← takeWhile_firstLine stays]
  exact (List.takeWhile_sublist accepts).length_le

end

theorem drop_firstLine {text : List Char} {count : Nat}
    (within : count ≤ (firstLine text).length) :
    (firstLine text).drop count = firstLine (text.drop count) := by
  induction count generalizing text with
  | zero => rfl
  | succ count induction =>
    cases text with
    | nil => cases within
    | cons character rest =>
      cases inLine : isInLine character with
      | false =>
        rw [firstLine_of_break inLine] at within
        cases within
      | true =>
        rw [firstLine_cons inLine] at within ⊢
        exact induction (Nat.le_of_succ_le_succ within)

theorem isPrefixOf_firstLine {spelling : List Char}
    (inLine : ∀ character ∈ spelling, isInLine character = true) (text : List Char) :
    spelling.isPrefixOf (firstLine text) = spelling.isPrefixOf text := by
  induction spelling generalizing text with
  | nil => rfl
  | cons first spelling induction =>
    simp only [List.forall_mem_cons] at inLine
    cases text with
    | nil => rfl
    | cons character rest =>
      cases kept : isInLine character with
      | true =>
        rw [firstLine_cons kept, List.isPrefixOf_cons_cons, List.isPrefixOf_cons_cons,
          induction inLine.2]
      | false =>
        have differs : first ≠ character := by
          rintro rfl
          rw [inLine.1] at kept
          cases kept
        simp [firstLine_of_break kept, List.isPrefixOf, differs]

/-- Characters taken within the first line are the same characters of the other text. -/
theorem crlf_take_of_within {text : List Char} {count : Nat}
    (within : count ≤ (firstLine text).length) : crlf (text.take count) = text.take count := by
  apply crlf_of_inLine
  intro member
  have taken : text.take count <+: firstLine text := by
    have front : firstLine text <+: text := List.takeWhile_prefix _
    rw [List.prefix_iff_eq_take.1 front]
    exact List.take_prefix_take_left within
  have inLine := List.all_eq_true.1 List.all_takeWhile '\n' (taken.subset member)
  cases inLine

theorem length_take_of_within {text : List Char} {count : Nat}
    (within : count ≤ (firstLine text).length) : (text.take count).length = count := by
  have front : (firstLine text).length ≤ text.length := (List.takeWhile_sublist _).length_le
  rw [List.length_take]
  omega

def lineSplice : List Char := ['\\', '\n']

/-- What is read neither as a backslash at the end nor as one with a character behind it. -/
theorem plain_of_no_escape {character : Char} {rest : List Char}
    (notLast : character = '\\' → rest = [] → False)
    (notEscape : ∀ second more, character = '\\' → rest = second :: more → False) :
    character ≠ '\\' := by
  intro escape
  cases rest with
  | nil => exact notLast escape rfl
  | cons second more => exact notEscape second more escape rfl

end Text

open Text

theorem Position.afterAll_crlf (place : Position) (text : List Char) :
    place.afterAll (crlf text) = place.afterAll text := by
  induction text generalizing place with
  | nil => rfl
  | cons character rest induction =>
    by_cases lineFeed : character = '\n'
    · rw [lineFeed, crlf_lineFeed, afterAll_cons, afterAll_cons, afterAll_cons, induction]
      rfl
    · rw [crlf_cons lineFeed, afterAll_cons, afterAll_cons, induction]

namespace Cursor

theorem visual_crlf (visual : UInt32) (text : List Char) :
    (crlf text).foldl visualAfter visual = text.foldl visualAfter visual := by
  induction text generalizing visual with
  | nil => rfl
  | cons character rest induction =>
    by_cases lineFeed : character = '\n'
    · rw [lineFeed, crlf_lineFeed, List.foldl_cons, List.foldl_cons, List.foldl_cons, induction]
      rfl
    · rw [crlf_cons lineFeed, List.foldl_cons, List.foldl_cons, induction]

theorem Stands.not_mem_ahead {source : List Char} {cursor : Cursor} {character : Char}
    (stands : cursor.Stands source) (absent : character ∉ source) : character ∉ cursor.ahead := by
  intro member
  rw [← stands.text, Cursor.text] at absent
  exact absent (List.mem_append_right _ member)

structure Twin (left right : Cursor) : Prop where
  ahead : right.ahead = crlf left.ahead
  position : right.position = left.position
  visual : right.visual = left.visual

theorem twin_ofText (source : List Char) : (ofText source).Twin (ofText (crlf source)) where
  ahead := rfl
  position := rfl
  visual := rfl

theorem ahead_of_lineFeed {cursor : Cursor} (feed : cursor.startsWith '\n' = true) :
    ∃ rest, cursor.ahead = '\n' :: rest :=
  List.head?_eq_some_iff.1 (eq_of_beq feed)

namespace Twin

variable {left right : Cursor}

theorem indentation (twin : left.Twin right) : right.indentation = left.indentation :=
  congrArg UInt32.toNat twin.visual

theorem skip (twin : left.Twin right) (count : Nat) :
    (left.skip count).Twin (right.skip (crlf (left.ahead.take count)).length) where
  ahead := by rw [ahead_skip, ahead_skip, twin.ahead, drop_crlf]
  position := by
    rw [position_skip, position_skip, twin.ahead, take_crlf, Position.afterAll_crlf, twin.position]
  visual := by
    rw [visual_skip, visual_skip, twin.ahead, take_crlf, visual_crlf, twin.visual]

theorem skip_within (twin : left.Twin right) {count : Nat}
    (within : count ≤ (firstLine left.ahead).length) :
    (left.skip count).Twin (right.skip count) := by
  have skipped := twin.skip count
  rwa [crlf_take_of_within within, length_take_of_within within] at skipped

theorem skipWhile (twin : left.Twin right) {accepts : Char → Bool}
    (stays : StaysInLine accepts) : (left.skipWhile accepts).Twin (right.skipWhile accepts) := by
  unfold Cursor.skipWhile
  rw [twin.ahead, takeWhile_crlf stays]
  exact twin.skip_within (length_takeWhile_le_firstLine stays _)

theorem skipWhile_breaks (twin : left.Twin right) {accepts : Char → Bool}
    (lineFeed : accepts '\n' = true) (carriageReturn : accepts '\r' = true) :
    (left.skipWhile accepts).Twin (right.skipWhile accepts) := by
  have taken : left.ahead.take (left.ahead.takeWhile accepts).length =
      left.ahead.takeWhile accepts :=
    (List.prefix_iff_eq_take.1 (List.takeWhile_prefix accepts)).symm
  unfold Cursor.skipWhile
  rw [twin.ahead, takeWhile_crlf_of_breaks lineFeed carriageReturn]
  have skipped := twin.skip (left.ahead.takeWhile accepts).length
  rwa [taken] at skipped

/-- A run in which a carriage return may be, but no line feed, ends at a twin or, in front of a line
feed, one character beyond it. -/
theorem skipWhile_return (twin : left.Twin right) {accepts : Char → Bool}
    (lineFeed : accepts '\n' = false) (carriageReturn : accepts '\r' = true) :
    ∃ base, (left.skipWhile accepts).Twin base ∧
      right.skipWhile accepts =
        if (left.skipWhile accepts).startsWith '\n' then base.advance else base := by
  have taken : left.ahead.take (left.ahead.takeWhile accepts).length =
      left.ahead.takeWhile accepts :=
    (List.prefix_iff_eq_take.1 (List.takeWhile_prefix _)).symm
  have inLine : '\n' ∉ left.ahead.takeWhile accepts := fun member => by
    rw [List.all_eq_true.1 List.all_takeWhile '\n' member] at lineFeed
    cases lineFeed
  have reached := twin.skip (left.ahead.takeWhile accepts).length
  rw [taken, crlf_of_inLine inLine] at reached
  refine ⟨_, reached, ?_⟩
  unfold Cursor.skipWhile Cursor.startsWith
  rw [twin.ahead, takeWhile_crlf_of_return lineFeed carriageReturn, ahead_skip]
  split
  · rw [List.length_append, List.length_singleton, skip_add]
    rfl
  · rw [List.append_nil]

theorem ahead_of_feed (twin : left.Twin right) {rest : List Char}
    (feed : left.ahead = '\n' :: rest) :
    right.ahead = '\r' :: '\n' :: crlf rest := by
  rw [twin.ahead, feed, crlf_lineFeed]

theorem advance_feed (twin : left.Twin right) {rest : List Char}
    (feed : left.ahead = '\n' :: rest) :
    left.advance.Twin right.advance.advance := by
  have further := twin.skip 1
  rwa [feed] at further

theorem startsWith (twin : left.Twin right) {character : Char}
    (inLine : isInLine character = true) :
    right.startsWith character = left.startsWith character := by
  simp only [isInLine, Bool.and_eq_true, bne_iff_ne, ne_eq] at inLine
  unfold Cursor.startsWith
  rw [twin.ahead]
  cases left.ahead with
  | nil => rfl
  | cons first rest =>
    by_cases lineFeed : first = '\n'
    · have noReturn := beq_false_of_ne (Ne.symm inLine.2)
      have noFeed := beq_false_of_ne (Ne.symm inLine.1)
      simp [lineFeed, noReturn, noFeed]
    · rw [crlf_cons lineFeed]
      rfl

theorem isEmpty_ahead (twin : left.Twin right) : right.ahead.isEmpty = left.ahead.isEmpty := by
  rw [twin.ahead, Bool.eq_iff_iff, List.isEmpty_iff, List.isEmpty_iff, crlf_eq_nil_iff]

end Twin

end Cursor

end Offside

/-!
Parts of a token that are read within a line. Such a part has the same width in the first line of a
text alone, and so has one part read behind another. A scan that reads a token so finds the same token
whatever the line ends are.
-/

namespace Offside.Lexical

set_option autoImplicit false

open Text

/-- A width that depends on the first line of a text alone and does not reach beyond it. -/
structure WithinLine (width : List Char → Nat) : Prop where
  same : ∀ text, width (firstLine text) = width text
  within : ∀ text, width text ≤ (firstLine text).length

namespace WithinLine

variable {first second width : List Char → Nat} {accepts : Char → Bool}

theorem drop (reads : WithinLine width) (text : List Char) :
    (firstLine text).drop (width text) = firstLine (text.drop (width text)) :=
  drop_firstLine (reads.within text)

theorem run (stays : StaysInLine accepts) :
    WithinLine fun text => (text.takeWhile accepts).length where
  same := fun text => congrArg List.length (takeWhile_firstLine stays text)
  within := length_takeWhile_le_firstLine stays

theorem mark (stays : StaysInLine accepts) :
    WithinLine fun text => if leads accepts text then 1 else 0 where
  same := fun text => by rw [leads_firstLine stays]
  within := fun text => by
    cases led : leads accepts text with
    | false => exact Nat.zero_le _
    | true => exact length_firstLine_pos stays led

theorem followed (one : WithinLine first) (other : WithinLine second) :
    WithinLine fun text => first text + second (text.drop (first text)) where
  same := fun text => by
    rw [one.same, one.drop, other.same]
  within := fun text => by
    have behind := other.within (text.drop (first text))
    have before := one.within text
    rw [← one.drop, List.length_drop] at behind
    omega

/-- A part that is there only under a condition on the first line. -/
theorem guarded (reads : WithinLine width) {condition : List Char → Bool}
    (decided : ∀ text, condition (firstLine text) = condition text) :
    WithinLine fun text => if condition text then width text else 0 where
  same := fun text => by
    rw [decided, reads.same]
  within := fun text => by
    split
    · exact reads.within text
    · exact Nat.zero_le _

end WithinLine

theorem WithinLine.marked_run {marks accepts : Char → Bool} (staysMark : StaysInLine marks)
    (stays : StaysInLine accepts) :
    WithinLine fun text =>
      if leads marks text then 1 + ((text.drop 1).takeWhile accepts).length else 0 := by
  have reads := ((mark staysMark).followed (run stays)).guarded (leads_firstLine staysMark)
  refine cast (congrArg WithinLine (funext fun text => ?_)) reads
  cases led : leads marks text with
  | false => rfl
  | true => rfl

def exponentMark (text : List Char) : Nat :=
  let letter := if leads isExponentMark text then 1 else 0
  letter + if leads isSign (text.drop letter) then 1 else 0

theorem exponentMark_within : WithinLine exponentMark :=
  (WithinLine.mark (by decide)).followed (WithinLine.mark (by decide))

def startsExponent (text : List Char) : Bool :=
  leads isExponentMark text && leads Char.isDigit (text.drop (exponentMark text))

theorem startsExponent_firstLine (text : List Char) :
    startsExponent (firstLine text) = startsExponent text := by
  rw [startsExponent, exponentMark_within.same, exponentMark_within.drop,
    leads_firstLine (by decide), leads_firstLine (by decide)]
  rfl

theorem exponentWidth_within {continues : Char → Bool} (stays : StaysInLine continues) :
    WithinLine (exponentWidth continues) := by
  have reads := (exponentMark_within.followed (WithinLine.run stays)).guarded
    startsExponent_firstLine
  refine cast (congrArg WithinLine (funext fun text => ?_)) reads
  unfold exponentWidth startsExponent exponentMark
  cases marked : leads isExponentMark text with
  | false => rfl
  | true => rfl

theorem radixOf?_firstLine (text : List Char) : radixOf? (firstLine text) = radixOf? text := by
  obtain _ | ⟨first, rest⟩ := text
  · rfl
  by_cases zero : first = '0'
  · rw [zero, firstLine_cons (by decide)]
    obtain _ | ⟨second, rest⟩ := rest
    · rfl
    cases kept : isInLine second with
    | true =>
      rw [firstLine_cons kept]
      rfl
    | false =>
      have unannounced : Text.Radix.ofLetter? second = none := by
        simp only [isInLine, Bool.and_eq_false_iff, bne_eq_false_iff_eq] at kept
        rcases kept with rfl | rfl <;> rfl
      rw [firstLine_of_break kept]
      exact unannounced.symm
  · cases inLine : isInLine first with
    | true => simp [firstLine_cons inLine, radixOf?, zero]
    | false => simp [firstLine_of_break inLine, radixOf?, zero]

theorem two_le_firstLine {text : List Char} {radix : Text.Radix}
    (announced : radixOf? text = some radix) : 2 ≤ (firstLine text).length := by
  rw [← radixOf?_firstLine] at announced
  unfold radixOf? at announced
  split at announced
  · rename_i found
    rw [found]
    exact Nat.le_add_left _ _
  · cases announced

theorem lineBreakWidth_crlf {text : List Char} (feeds : '\r' ∉ text) :
    lineBreakWidth (crlf text) = (crlf (text.take (lineBreakWidth text))).length := by
  cases text with
  | nil => rfl
  | cons character rest =>
    simp only [List.mem_cons, not_or] at feeds
    by_cases lineFeed : character = '\n'
    · rw [lineFeed]
      rfl
    · have none : ∀ rest, lineBreakWidth (character :: rest) = 0 := by
        intro rest
        simp [lineBreakWidth, lineFeed, Ne.symm feeds.1]
      rw [crlf_cons lineFeed, none, none]
      rfl

theorem length_crlf_take_pos_iff {text : List Char} {count : Nat} (within : count ≤ text.length) :
    0 < (crlf (text.take count)).length ↔ 0 < count := by
  rw [List.length_pos_iff, ne_eq, crlf_eq_nil_iff, ← ne_eq, ← List.length_pos_iff,
    List.length_take, Nat.min_eq_left within]

theorem lineBreakWidth_crlf_pos_iff {text : List Char} (feeds : '\r' ∉ text) :
    0 < lineBreakWidth (crlf text) ↔ 0 < lineBreakWidth text := by
  rw [lineBreakWidth_crlf feeds]
  exact length_crlf_take_pos_iff (lineBreakWidth_le_length text)

/-- What line ends must not change about a token handed out: its kind and the problems reported. -/
def Lexed.kind (item : Lexed) : Token × List Problem :=
  (item.token, item.reports.map Diagnostic.problem)

theorem problems_reportsOf (items : List Lexed) :
    (reportsOf items).map Diagnostic.problem = (items.map Lexed.kind).flatMap Prod.snd := by
  simp only [reportsOf, List.map_flatMap, List.flatMap_map]
  rfl

theorem Lexed.isFinal_of_kind {item other : Lexed} (same : item.kind = other.kind) :
    item.isFinal = other.isFinal :=
  congrArg (fun token : Token => decide (token = .endOfInput)) (congrArg Prod.fst same)

namespace Scan

structure Alike (left right : Scan) : Prop where
  token : right.token = left.token
  problem : right.defect.map Defect.problem = left.defect.map Defect.problem

theorem Alike.refl (scan : Scan) : Alike scan scan := ⟨rfl, rfl⟩

theorem Alike.kind {left right : Scan} (alike : Alike left right) (file : FileId)
    (cursor other : Cursor) (text otherText : List Char) :
    (right.lexed file other otherText).kind = (left.lexed file cursor text).kind := by
  have problem := alike.problem
  simp only [Lexed.kind, lexed, alike.token, List.map_map]
  cases one : left.defect <;> cases more : right.defect <;> simp_all

/-- Scans of a text and of the text with the other line ends that find the same token and leave the
same text behind it. -/
structure Twin (text : List Char) (left right : Scan) : Prop extends Alike left right where
  reach : right.width + right.absorbed =
    (crlf (text.take (left.width + left.absorbed))).length
  absorbs : 0 < right.absorbed ↔ 0 < left.absorbed

end Scan

/-- A token read within the first line of a text, and the same in the first line alone. -/
structure ReadsLine (scan : List Char → Scan) (text : List Char) : Prop where
  same : scan (firstLine text) = scan text
  within : (scan text).width + (scan text).absorbed ≤ (firstLine text).length

namespace ReadsLine

variable {scan scanner : List Char → Scan} {text : List Char}

theorem crlf (reads : ReadsLine scan text) (other : ReadsLine scan (crlf text)) :
    scan (Text.crlf text) = scan text := by
  rw [← other.same, firstLine_crlf, reads.same]

/-- A scan that turns to another one at the text and at its first line alike. -/
theorem turns (reads : ReadsLine scanner text)
    (onLine : scan (firstLine text) = scanner (firstLine text))
    (whole : scan text = scanner text) : ReadsLine scan text where
  same := by rw [onLine, whole, reads.same]
  within := by
    rw [whole]
    exact reads.within

/-- The scan of a number turns to that of its radix, or to that of decimal numbers. -/
theorem number {byRadix : Text.Radix → List Char → Scan} {decimal : List Char → Scan}
    (onRadix : ∀ text radix, radixOf? text = some radix → scan text = byRadix radix text)
    (onDecimal : ∀ text, radixOf? text = none → scan text = decimal text)
    (radixReads : ∀ radix, radixOf? text = some radix → ReadsLine (byRadix radix) text)
    (decimalReads : ReadsLine decimal text) : ReadsLine scan text := by
  have same := radixOf?_firstLine text
  cases announced : radixOf? text with
  | none =>
    rw [announced] at same
    exact decimalReads.turns (onDecimal _ same) (onDecimal _ announced)
  | some radix =>
    rw [announced] at same
    exact (radixReads radix announced).turns (onRadix _ _ same) (onRadix _ _ announced)

end ReadsLine

end Offside.Lexical
