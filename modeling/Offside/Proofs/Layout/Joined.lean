import Offside.Proofs.Layout.Ahead

/-!
One text after another. If the first text is read without a report, its tokens are read as before when
a line feed and a second text follow it, and then the tokens of the second text come, on lines further
down. The lexer remembers of the first text where its last token starts and ends, which is above every
line of the second.
-/

namespace Offside

set_option autoImplicit false

open Offside.Lexical

namespace Haskell

def Written.down (lines : Nat) (written : Written) : Written :=
  { written with span := written.span.down lines }

/-- What a dot qualifies it qualifies whatever follows. -/
theorem qualifies_append {text : List Char} (qualifying : qualifies text = true)
    (further : List Char) : qualifies (text ++ further) = true := by
  match text with
  | [] => cases qualifying
  | [first] =>
    by_cases dot : first = '.'
    · subst dot
      cases qualifying
    · have other : ∀ more, leads (· == '.') (first :: more) = false := by simp [leads, dot]
      rw [qualifies, other] at qualifying
      rw [List.singleton_append, qualifies, other]
      exact qualifying
  | first :: second :: rest => exact qualifying

namespace Lexer

/-- The lexer before each token of the text ahead, the end of input included. -/
def visits (lexer : Lexer) : List Lexer :=
  if ended : lexer.nextScan.token = .endOfInput then [lexer]
  else
    have := pastNext_shorter ended
    lexer :: lexer.pastNext.visits
termination_by lexer.cursor.ahead.length

theorem visits_of_ended {lexer : Lexer} (ended : lexer.nextScan.token = .endOfInput) :
    lexer.visits = [lexer] := by
  rw [visits, dif_pos ended]

theorem visits_of_inner {lexer : Lexer} (inner : lexer.nextScan.token ≠ .endOfInput) :
    lexer.visits = lexer :: lexer.pastNext.visits := by
  rw [visits, dif_neg inner]

theorem scanned_eq_visits (file : FileId) (lexer : Lexer) :
    lexer.scanned file = lexer.visits.map (nextWritten file) := by
  fun_induction Lexer.visits lexer with
  | case1 lexer ended => rw [scanned, dif_pos ended, List.map_singleton]
  | case2 lexer inner shorter induction =>
    rw [scanned, dif_neg inner, List.map_cons, induction]

theorem readings_eq_visits (file : FileId) (lexer : Lexer) :
    lexer.readings file = lexer.visits.map (nextItem file) := by
  fun_induction Lexer.visits lexer with
  | case1 lexer ended => rw [readings, dif_pos ended, List.map_singleton]
  | case2 lexer inner shorter induction =>
    rw [readings, dif_neg inner, List.map_cons, induction]

def onTo (further : List Char) (lexer : Lexer) : Lexer :=
  { lexer with cursor := lexer.cursor.onTo further }

section OnTo

variable {lexer : Lexer} {further : List Char}

theorem place_remains (inner : lexer.nextScan.token ≠ .endOfInput) : lexer.place.ahead ≠ [] := by
  intro ended
  rw [nextScan_ended ended] at inner
  exact inner rfl

theorem place_onTo (inner : lexer.nextScan.token ≠ .endOfInput) :
    (lexer.onTo further).place = lexer.place.onTo further := by
  have shorter : (lexer.cursor.ahead.takeWhile Text.isBlank).length < lexer.cursor.ahead.length := by
    have whole := congrArg List.length lexer.gap_append
    have remains := List.length_pos_iff.2 (place_remains inner)
    rw [List.length_append, Lexer.gap] at whole
    omega
  have within : ((lexer.cursor.ahead ++ []).takeWhile Text.isBlank).length <
      lexer.cursor.ahead.length := by
    rw [List.append_nil]
    exact shorter
  have gap := takeWhile_of_lt further within
  rw [List.append_nil] at gap
  rw [place, place, Cursor.skipWhile, Cursor.skipWhile]
  change (lexer.cursor.onTo further).skip
    ((lexer.cursor.ahead ++ further).takeWhile Text.isBlank).length = _
  rw [gap, Cursor.onTo_skip (Nat.le_of_lt shorter)]

theorem nextScan_onTo (inner : lexer.nextScan.token ≠ .endOfInput)
    (sound : lexer.nextScan.defect = none) (later : List Char) :
    (lexer.onTo ('\n' :: later)).nextScan = lexer.nextScan := by
  obtain ⟨first, text, found⟩ := exists_nextText inner
  have split := lexer.nextText_append
  have width := lexer.length_nextText
  rw [found, List.cons_append] at split
  rw [found, List.length_cons] at width
  have cuts : Cuts lexer.pastNext.cursor.ahead (lexer.pastNext.cursor.ahead ++ '\n' :: later) := by
    have cut := (Cuts.cut [] later).append lexer.pastNext.cursor.ahead
    rwa [List.append_nil] at cut
  have same : lexer.nextScan = scan (lexer.properEnd == some lexer.place.position)
      (first :: (text ++ lexer.pastNext.cursor.ahead)) := by rw [split, nextScan]
  have again := scan_cut cuts (lexer.properEnd == some lexer.place.position)
    (by rw [← same, ← width]) (by rw [← same, sound])
    fun _ _ qualifying => qualifies_append qualifying _
  rw [← same] at again
  rw [← again, nextScan, place_onTo inner, ← List.append_assoc, ← List.cons_append, split]
  rfl

theorem nextItem_onTo (inner : lexer.nextScan.token ≠ .endOfInput)
    (sound : lexer.nextScan.defect = none) (file : FileId) (later : List Char) :
    (lexer.onTo ('\n' :: later)).nextItem file = lexer.nextItem file := by
  have within : lexer.nextScan.width ≤ lexer.place.ahead.length := scan_width_le _ _
  have moved : (lexer.place.onTo ('\n' :: later)).skip lexer.nextScan.width =
      (lexer.place.skip lexer.nextScan.width).onTo ('\n' :: later) := Cursor.onTo_skip within _
  have text : (lexer.place.onTo ('\n' :: later)).ahead.take lexer.nextScan.width =
      lexer.place.ahead.take lexer.nextScan.width := List.take_append_of_le_length within
  rw [nextItem, nextItem, nextScan_onTo inner sound, place_onTo inner, text]
  unfold Scan.lexed spanAhead
  rw [sound, moved]
  rfl

theorem nextWritten_onTo (inner : lexer.nextScan.token ≠ .endOfInput)
    (sound : lexer.nextScan.defect = none) (file : FileId) (later : List Char) :
    (lexer.onTo ('\n' :: later)).nextWritten file = lexer.nextWritten file := by
  have within : lexer.nextScan.width ≤ lexer.place.ahead.length := scan_width_le _ _
  have moved : (lexer.place.onTo ('\n' :: later)).skip lexer.nextScan.width =
      (lexer.place.skip lexer.nextScan.width).onTo ('\n' :: later) := Cursor.onTo_skip within _
  rw [nextWritten, nextWritten, nextScan_onTo inner sound, place_onTo inner]
  unfold spanAhead
  rw [moved]
  rfl

theorem pastNext_onTo (inner : lexer.nextScan.token ≠ .endOfInput)
    (sound : lexer.nextScan.defect = none) (later : List Char) :
    (lexer.onTo ('\n' :: later)).pastNext = lexer.pastNext.onTo ('\n' :: later) := by
  have within : lexer.nextScan.width ≤ lexer.place.ahead.length := scan_width_le _ _
  have moved : (lexer.place.onTo ('\n' :: later)).skip lexer.nextScan.width =
      (lexer.place.skip lexer.nextScan.width).onTo ('\n' :: later) := Cursor.onTo_skip within _
  unfold pastNext
  rw [nextScan_onTo inner sound, place_onTo inner, moved]
  split
  · rfl
  · rfl

/-- All tokens of a text that is read without a defect are read again, and then what follows is read
from where the text ends. -/
theorem visits_onTo (later : List Char) (lexer : Lexer)
    (sound : ∀ visit ∈ lexer.visits, visit.nextScan.defect = none) :
    ∃ inner final, lexer.visits = inner ++ [final] ∧ final.nextScan.token = .endOfInput ∧
      (∀ visit ∈ inner, visit.nextScan.token ≠ .endOfInput) ∧
      (lexer.onTo ('\n' :: later)).visits =
        inner.map (onTo ('\n' :: later)) ++ (final.onTo ('\n' :: later)).visits := by
  fun_induction Lexer.visits lexer with
  | case1 lexer ended => exact ⟨[], lexer, rfl, ended, by simp, rfl⟩
  | case2 lexer inner shorter induction =>
    rw [List.forall_mem_cons] at sound
    obtain ⟨before, final, split, ended, others, visits⟩ := induction sound.2
    have goesOn : (lexer.onTo ('\n' :: later)).nextScan.token ≠ .endOfInput := by
      rw [nextScan_onTo inner sound.1]
      exact inner
    refine ⟨lexer :: before, final, by rw [split, List.cons_append], ended,
      List.forall_mem_cons.2 ⟨inner, others⟩, ?_⟩
    rw [visits_of_inner goesOn, pastNext_onTo inner sound.1, visits, List.map_cons,
      List.cons_append]

end OnTo

/-- Two lexers at the same place of the same text, the second of them in a text that stands further
down. What they remember differs at most in lines above the text. -/
structure Below (lines : Nat) (upper lower : Lexer) : Prop where
  place : Cursor.Below lines upper.place lower.place
  line : ∀ line, lower.lastLine = some (line + lines) ↔ upper.lastLine = some line
  proper : ∀ place : Position,
    lower.properEnd = some (place.down lines) ↔ upper.properEnd = some place

namespace Below

variable {lines : Nat} {upper lower : Lexer}

theorem nextScan (below : Below lines upper lower) : lower.nextScan = upper.nextScan := by
  have touches : (lower.properEnd == some lower.place.position) =
      (upper.properEnd == some upper.place.position) := by
    rw [below.place.position, Bool.eq_iff_iff, beq_iff_eq, beq_iff_eq, below.proper]
  rw [Lexer.nextScan, Lexer.nextScan, touches, below.place.ahead]

theorem nextWritten (below : Below lines upper lower) (file : FileId) :
    lower.nextWritten file = (upper.nextWritten file).down lines := by
  have line : lower.place.position.line = upper.place.position.line + lines := by
    rw [below.place.position]
    rfl
  have first : (lower.lastLine != some lower.place.position.line) =
      (upper.lastLine != some upper.place.position.line) := by
    rw [line, Bool.eq_iff_iff, bne_iff_ne, bne_iff_ne, Ne, Ne, below.line]
  unfold Lexer.nextWritten
  rw [below.nextScan, first, below.place.indentation, spanAhead_below below.place]
  rfl

theorem nextItem (below : Below lines upper lower) (file : FileId) :
    lower.nextItem file = (upper.nextItem file).down lines := by
  have spans := spanAhead_below below.place file
  unfold Lexer.nextItem Scan.lexed Lexed.down
  simp only [below.nextScan, below.place.position, below.place.ahead, spans, List.map_map,
    List.map_cons, List.map_nil, Function.comp_def]

theorem pastNext (below : Below lines upper lower) :
    Below lines upper.pastNext lower.pastNext := by
  have after := below.place.skip upper.nextScan.width
  have line : lower.place.position.line = upper.place.position.line + lines := by
    rw [below.place.position]
    rfl
  have place : Cursor.Below lines upper.pastNext.place lower.pastNext.place := by
    rw [Lexer.place, Lexer.place, cursor_pastNext, cursor_pastNext, below.nextScan]
    exact after.skipWhile _
  refine ⟨place, ?_, ?_⟩
  · intro other
    unfold Lexer.pastNext
    rw [below.nextScan]
    split
    · exact below.line other
    · simp only [line, Option.some.injEq]
      omega
  · intro other
    unfold Lexer.pastNext
    rw [below.nextScan]
    split
    · exact below.proper other
    · simp only
      split
      · rw [after.position, Option.some.injEq, Option.some.injEq, Position.down_inj]
      · simp

theorem visits (below : Below lines upper lower) :
    List.Forall₂ (Below lines) upper.visits lower.visits := by
  fun_induction Lexer.visits upper generalizing lower with
  | case1 upper ended =>
    have endedLower : lower.nextScan.token = .endOfInput := by rw [below.nextScan, ended]
    rw [visits_of_ended endedLower]
    exact .cons below .nil
  | case2 upper inner shorter induction =>
    have innerLower : lower.nextScan.token ≠ .endOfInput := by
      rw [below.nextScan]
      exact inner
    rw [visits_of_inner innerLower]
    exact .cons below (induction below.pastNext)

end Below

/-- The last token read lies in front of what is ahead. -/
structure Passed (source : List Char) (lexer : Lexer) : Prop where
  stands : lexer.cursor.Stands source
  line : ∀ line ∈ lexer.lastLine, line ≤ lexer.cursor.position.line
  behind : lexer.EndsBehind

theorem Passed.pastNext {source : List Char} {lexer : Lexer} (passed : lexer.Passed source) :
    lexer.pastNext.Passed source where
  stands := by
    rw [cursor_pastNext]
    exact (passed.stands.skipWhile _).skip _
  line := by
    have further := Position.line_le_of_le lexer.position_le_pastNext
    have passedPlace : lexer.place.position.line ≤ lexer.pastNext.cursor.position.line := by
      rw [cursor_pastNext]
      exact Position.line_le_of_le (Cursor.position_le_skip _ _)
    intro line last
    unfold Lexer.pastNext at last
    split at last
    · exact Nat.le_trans (passed.line line last) further
    · cases last
      exact passedPlace
  behind := behind_pastNext passed.behind

theorem passed_start (source : List Char) : (start source).Passed source where
  stands := Cursor.stands_ofText source
  line := fun _ last => nomatch last
  behind := fun _ ends => nomatch ends

/-- What holds of a lexer and is kept as it moves on holds before every token. -/
theorem mem_visits {keeps : Lexer → Prop} (step : ∀ lexer, keeps lexer → keeps lexer.pastNext)
    (lexer : Lexer) (kept : keeps lexer) : ∀ visit ∈ lexer.visits, keeps visit := by
  fun_induction Lexer.visits lexer with
  | case1 lexer ended => simpa using kept
  | case2 lexer inner shorter induction =>
    exact List.forall_mem_cons.2 ⟨kept, induction (step lexer kept)⟩

/-- Past the line feed behind a text a cursor stands where the next text starts. -/
theorem below_lineFeed {first second : List Char} {cursor : Cursor} (stands : cursor.Stands first) :
    Cursor.Below (first.count '\n' + 1) (.ofText second)
      ((cursor.onTo ('\n' :: second)).skip (cursor.ahead.length + 1)) := by
  have text : cursor.behind.reverse ++ cursor.ahead = first := stands.text
  have moved := Cursor.onTo_skip (Nat.le_refl cursor.ahead.length) ('\n' :: second)
  have ended : (cursor.skip cursor.ahead.length).ahead = [] := by
    rw [Cursor.ahead_skip, List.drop_length]
  have line : (cursor.skip cursor.ahead.length).position.line = first.count '\n' := by
    rw [Cursor.position_skip, List.take_length, stands.position, ← Position.afterAll_append, text,
      Position.line_afterAll_eq]
    exact Nat.zero_add _
  rw [Cursor.skip_add, moved]
  generalize cursor.skip cursor.ahead.length = last at ended line
  change Cursor.Below _ _ (last.onTo ('\n' :: second)).advance
  have ahead : (last.onTo ('\n' :: second)).ahead = '\n' :: second := by
    simp [Cursor.onTo, ended]
  rw [Cursor.advance, ahead]
  exact
    { ahead := rfl
      position := by
        simp [Position.after, Position.down, Position.origin, Cursor.ofText, Cursor.onTo, line]
      visual := rfl }

/-- Where a text ends and another follows on the next line, the second is read as if it stood alone,
only further down. -/
theorem below_of_ended {first second : List Char} {final : Lexer} (passed : final.Passed first)
    (ended : final.nextScan.token = .endOfInput) :
    Below (first.count '\n' + 1) (start second) (final.onTo ('\n' :: second)) := by
  have nothing : final.place.ahead = [] := by
    apply Classical.byContradiction
    intro remains
    exact nextScan_inner remains ended
  have blank := final.gap_blank
  have gap := final.gap_append
  rw [nothing, List.append_nil] at gap
  rw [gap] at blank
  have ahead : (final.onTo ('\n' :: second)).cursor.ahead =
      (final.cursor.ahead ++ ['\n']) ++ second := by simp [onTo, Cursor.onTo]
  have place : (final.onTo ('\n' :: second)).place =
      ((final.cursor.onTo ('\n' :: second)).skip (final.cursor.ahead.length + 1)).skipWhile
        Text.isBlank := by
    have skipped : (final.onTo ('\n' :: second)).place = _ :=
      Cursor.skipWhile_append ahead (List.forall_mem_append.2
        ⟨blank, List.forall_mem_singleton.2 rfl⟩)
    rw [List.length_append, List.length_singleton] at skipped
    exact skipped
  have above : final.cursor.position.line ≤ first.count '\n' := by
    have text : final.cursor.behind.reverse ++ final.cursor.ahead = first := passed.stands.text
    rw [passed.stands.position, Position.line_afterAll_eq, ← text, List.count_append]
    change 0 + _ ≤ _
    omega
  refine ⟨?_, ?_, ?_⟩
  · rw [place]
    exact (below_lineFeed passed.stands).skipWhile _
  · intro line
    refine iff_of_false (fun last => ?_) (fun last => nomatch last)
    have upper := passed.line _ last
    omega
  · intro other
    refine iff_of_false (fun ends => ?_) (fun ends => nomatch ends)
    have upper := Position.line_le_of_le (passed.behind _ ends)
    change other.line + (first.count '\n' + 1) ≤ _ at upper
    omega

/-- What is seen of a text that stands further down, if each token is seen further down. -/
theorem map_below {α : Type} {lines : Nat} {uppers lowers : List Lexer} {view : Lexer → α}
    {change : α → α} (below : List.Forall₂ (Below lines) uppers lowers)
    (each : ∀ {upper lower}, Below lines upper lower → view lower = change (view upper)) :
    lowers.map view = (uppers.map view).map change := by
  induction below with
  | nil => rfl
  | cons one _ induction => rw [List.map_cons, List.map_cons, List.map_cons, induction, each one]

/-- The tokens of two texts, the second on the lines behind the first. -/
theorem visits_joined {first : List Char}
    (sound : ∀ visit ∈ (start first).visits, visit.nextScan.defect = none) (second : List Char) :
    ∃ inner final lowered, (start first).visits = inner ++ [final] ∧
      final.nextScan.token = .endOfInput ∧
      (∀ visit ∈ inner, visit.nextScan.token ≠ .endOfInput) ∧
      List.Forall₂ (Below (first.count '\n' + 1)) (start second).visits lowered ∧
      (start (first ++ '\n' :: second)).visits =
        inner.map (onTo ('\n' :: second)) ++ lowered := by
  obtain ⟨inner, final, split, ended, others, visits⟩ := visits_onTo second (start first) sound
  have step : ∀ lexer, Passed first lexer → Passed first lexer.pastNext :=
    fun _ => Passed.pastNext
  have passed := mem_visits step (start first) (passed_start first) final (by simp [split])
  exact ⟨inner, final, _, split, ended, others, (below_of_ended passed ended).visits, visits⟩

end Lexer

/-- A text that is read without a report has no defect in any token. -/
theorem sound_of_silent {file : FileId} {source : List Char}
    (silent : reportsOf (sourceReadings file source) = []) :
    ∀ visit ∈ (Lexer.start source).visits, visit.nextScan.defect = none := by
  intro visit member
  rw [sourceReadings, Lexer.readings_eq_visits, reportsOf, List.flatMap_eq_nil_iff] at silent
  have own := silent _ (List.mem_map_of_mem member)
  cases found : visit.nextScan.defect with
  | none => rfl
  | some defect => simp [Lexer.nextItem, Scan.lexed, found] at own

/-- What is read of two texts, the second on the lines behind the first: the first up to its end, and
the second further down. -/
theorem read_joined {file : FileId} {first : List Char}
    (silent : reportsOf (sourceReadings file first) = []) (second : List Char) :
    (∃ inner final, scannedTokens file first = inner ++ [final] ∧ final.token = .endOfInput ∧
      (∀ written ∈ inner, written.token ≠ .endOfInput) ∧
      scannedTokens file (first ++ '\n' :: second) =
        inner ++ (scannedTokens file second).map (Written.down (first.count '\n' + 1))) ∧
      ∃ inner final, sourceReadings file first = inner ++ [final] ∧ final.token = .endOfInput ∧
        sourceReadings file (first ++ '\n' :: second) =
          inner ++ (sourceReadings file second).map (Lexed.down (first.count '\n' + 1)) := by
  have sound := sound_of_silent silent
  obtain ⟨inner, final, lowered, split, ended, others, below, visits⟩ :=
    Lexer.visits_joined sound second
  have soundInner : ∀ visit ∈ inner, visit.nextScan.defect = none := fun visit member =>
    sound visit (by simp [split, member])
  constructor
  · refine ⟨inner.map (Lexer.nextWritten file), final.nextWritten file, ?_, ended, ?_, ?_⟩
    · rw [scannedTokens, Lexer.scanned_eq_visits, split, List.map_append, List.map_singleton]
    · intro written member
      obtain ⟨visit, among, rfl⟩ := List.mem_map.1 member
      exact others visit among
    · rw [scannedTokens, scannedTokens, Lexer.scanned_eq_visits, Lexer.scanned_eq_visits, visits,
        List.map_append, List.map_map, Lexer.map_below below fun one => one.nextWritten file]
      congr 1
      exact List.map_congr_left fun visit member =>
        Lexer.nextWritten_onTo (others visit member) (soundInner visit member) file second
  · refine ⟨inner.map (Lexer.nextItem file), final.nextItem file, ?_, ended, ?_⟩
    · rw [sourceReadings, Lexer.readings_eq_visits, split, List.map_append, List.map_singleton]
    · rw [sourceReadings, sourceReadings, Lexer.readings_eq_visits, Lexer.readings_eq_visits,
        visits, List.map_append, List.map_map, Lexer.map_below below fun one => one.nextItem file]
      congr 1
      exact List.map_congr_left fun visit member =>
        Lexer.nextItem_onTo (others visit member) (soundInner visit member) file second

end Haskell

end Offside
