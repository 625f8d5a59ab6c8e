import Offside.Proofs.Parser.Conduct
import Offside.Proofs.Parser.Lookahead
import Offside.Proofs.Parser.Texts

/-!
The log of a parse: what was added to the diagnostics, step by step. A report of the stream comes in
with the token that brings it, perhaps early; a report of the parser is about one token, which the log
knows by its number in the stream. Two tokens may stand at one place, as those of layout do, so the
number says more than the span.

Reports of the parser never go back to an earlier token: they are about the lookahead, or about a token
that is passed in the same step. The parser remembers for which lookahead it reported last, so no
token is reported as unexpected twice.
-/

namespace Offside

set_option autoImplicit false

open Offside.Lexical

namespace Parser

inductive LogEntry where
  /-- A report that was read with a token. -/
  | read (report : Diagnostic)
  /-- A report of the parser about the token with a number. -/
  | made (problem : Problem) (index : Nat)

namespace LogEntry

def diagnostic (tokens : Stream' (Token × Span)) : LogEntry → Diagnostic
  | read report => report
  | made problem index => ⟨problem, (tokens.get index).2⟩

def readings (log : List LogEntry) : List Diagnostic :=
  log.filterMap fun entry => match entry with
    | read report => some report
    | made _ _ => none

def indices (log : List LogEntry) : List Nat :=
  log.filterMap fun entry => match entry with
    | read _ => none
    | made _ index => some index

/-- The numbers of the tokens that the parser reported as unexpected. -/
def unexpected (log : List LogEntry) : List Nat :=
  log.filterMap fun entry => match entry with
    | made .unexpectedToken index => some index
    | _ => none

section

variable (first second : List LogEntry) (reports : List Diagnostic) (problem : Problem)
  (index : Nat) (tokens : Stream' (Token × Span))

@[simp] theorem readings_nil : readings [] = [] := rfl

@[simp] theorem indices_nil : indices [] = [] := rfl

@[simp] theorem unexpected_nil : unexpected [] = [] := rfl

@[simp] theorem readings_append : readings (first ++ second) = readings first ++ readings second :=
  List.filterMap_append

@[simp] theorem indices_append : indices (first ++ second) = indices first ++ indices second :=
  List.filterMap_append

@[simp] theorem unexpected_append :
    unexpected (first ++ second) = unexpected first ++ unexpected second :=
  List.filterMap_append

@[simp] theorem map_diagnostic_read : (reports.map read).map (diagnostic tokens) = reports := by
  rw [List.map_map]
  exact List.map_id reports

@[simp] theorem readings_read : readings (reports.map read) = reports := by
  rw [readings, List.filterMap_map]
  exact List.filterMap_some

@[simp] theorem indices_read : indices (reports.map read) = [] := by
  rw [indices, List.filterMap_map, List.filterMap_eq_nil_iff]
  exact fun _ _ => rfl

@[simp] theorem unexpected_read : unexpected (reports.map read) = [] := by
  rw [unexpected, List.filterMap_map, List.filterMap_eq_nil_iff]
  exact fun _ _ => rfl

@[simp] theorem readings_made : readings [made problem index] = [] := rfl

@[simp] theorem indices_made : indices [made problem index] = [index] := rfl

@[simp] theorem unexpected_unexpectedToken :
    unexpected [made .unexpectedToken index] = [index] :=
  rfl

@[simp] theorem unexpected_nestingTooDeep : unexpected [made .nestingTooDeep index] = [] := rfl

end

end LogEntry

def pulledReports (stream : TokenStream) : List Diagnostic :=
  reportsOf stream.comments ++ stream.afterComments.next.1.reports

/-- Reports that come in when the lookahead is consumed: none if the token after it was put by. -/
def consumedReports (parser : Parser) : List Diagnostic :=
  if parser.buffered.isEmpty then pulledReports parser.input else []

/-- What is done between two states, with what it adds to the diagnostics. The lookahead is reported
as unexpected only where it was not before. -/
inductive Logged : Parser → List LogEntry → Parser → Prop
  | refl (parser : Parser) : Logged parser [] parser
  | trans {first second third : Parser} {log later : List LogEntry} :
      Logged first log second → Logged second later third → Logged first (log ++ later) third
  | consume (parser : Parser) :
      Logged parser (parser.consumedReports.map .read) parser.consume
  | putBy (parser : Parser) : Logged parser ((pulledReports parser.input).map .read) (parser.fill 1)
  | aside (parser : Parser) (depth : Nat) (fault : Option Fault) :
      Logged parser [] { parser with depth, fault }
  | report {parser : Parser} : parser.reportedAt ≠ some parser.consumed →
      Logged parser [.made .unexpectedToken parser.consumed]
        { parser with
          reportedAt := some parser.consumed
          context := parser.context.report .unexpectedToken parser.aheadSpan }
  /-- A token is consumed, and reported although it was passed. -/
  | reportPassed {parser : Parser} : parser.reportedAt ≠ some parser.consumed →
      Logged parser
        (parser.consumedReports.map .read ++ [.made .unexpectedToken parser.consumed])
        { parser.consume with
          context := parser.consume.context.report .unexpectedToken parser.aheadSpan }
  | refuse (parser : Parser) :
      Logged parser [.made .nestingTooDeep parser.consumed]
        { parser with context := parser.context.report .nestingTooDeep parser.aheadSpan }

def Settled (parser : Parser) : Prop :=
  ∀ index, parser.reportedAt = some index → index ≤ parser.consumed

theorem settled_start (stream : TokenStream) (context : Context) :
    (start stream context).Settled :=
  fun _ reported => nomatch reported

theorem reportsOf_pullFrom (stream : TokenStream) (context : Context) :
    reportsOf stream.items =
      pulledReports stream ++ reportsOf (pullFrom stream context).2.1.items := by
  have split := List.takeWhile_append_dropWhile (p := Lexed.isComment) (l := stream.items)
  rw [← stream.items_afterComments] at split
  unfold pulledReports pullFrom TokenStream.next
  conv_lhs => rw [← split]
  cases found : stream.afterComments.items with
  | nil => simp [reportsOf, TokenStream.comments, Lexed.silent, found]
  | cons item later => simp [reportsOf, TokenStream.comments, TokenStream.drop, found]

namespace Logged

variable {before after : Parser} {log : List LogEntry} (logged : Logged before log after)

include logged

theorem consumed_le : before.consumed ≤ after.consumed := by
  induction logged with
  | refl parser => exact Nat.le_refl _
  | trans _ _ first second => exact Nat.le_trans first second
  | consume parser => exact Nat.le_of_lt ((consume_keeps parser).1 ▸ Nat.lt_succ_self _)
  | putBy parser => exact Nat.le_refl _
  | aside parser depth fault => exact Nat.le_refl _
  | report fresh => exact Nat.le_refl _
  | reportPassed fresh => exact Nat.le_of_lt ((consume_keeps _).1 ▸ Nat.lt_succ_self _)
  | refuse parser => exact Nat.le_refl _

theorem settled (settled : before.Settled) : after.Settled := by
  induction logged with
  | refl parser => exact settled
  | trans _ _ first second => exact second (first settled)
  | consume parser =>
    intro index reported
    rw [(consume_keeps parser).2.2.2] at reported
    rw [(consume_keeps parser).1]
    exact Nat.le_succ_of_le (settled index reported)
  | putBy parser => exact settled
  | aside parser depth fault => exact settled
  | report fresh =>
    intro index reported
    cases reported
    exact Nat.le_refl _
  | @reportPassed parser fresh =>
    intro index reported
    have kept : parser.reportedAt = some index := (consume_keeps parser).2.2.2 ▸ reported
    exact (consume_keeps parser).1 ▸ Nat.le_succ_of_le (settled index kept)
  | refuse parser => exact settled

/-- What is ahead after a number of tokens is the stream without so many tokens. -/
theorem upcoming {tokens : Stream' (Token × Span)}
    (stands : before.upcoming = tokens.drop before.consumed) :
    after.upcoming = tokens.drop after.consumed := by
  have passed : ∀ parser : Parser, parser.upcoming = tokens.drop parser.consumed →
      parser.consume.upcoming = tokens.drop parser.consume.consumed := by
    intro parser found
    rw [(consume_keeps parser).1, ← Stream'.tail_drop', ← found, upcoming_consume parser]
    rfl
  induction logged with
  | refl parser => exact stands
  | trans _ _ first second => exact second (first stands)
  | consume parser => exact passed parser stands
  | putBy parser => exact (upcoming_fill parser).trans stands
  | aside parser depth fault => exact stands
  | report fresh => exact stands
  | reportPassed fresh => exact passed _ stands
  | refuse parser => exact stands

omit logged in
theorem aheadSpan_of_upcoming {tokens : Stream' (Token × Span)} {parser : Parser}
    (stands : parser.upcoming = tokens.drop parser.consumed) :
    (tokens.get parser.consumed).2 = parser.aheadSpan := by
  rw [← Stream'.head_drop, ← stands]
  rfl

omit logged in
theorem diagnostics_consume (parser : Parser) :
    parser.consume.context.diagnostics.toList =
      parser.context.diagnostics.toList ++ parser.consumedReports := by
  unfold Parser.consume consumedReports
  cases parser.buffered with
  | nil => simp [pull, diagnostics_pullFrom, pulledReports]
  | cons next later => simp

omit logged in
theorem input_consume (parser : Parser) :
    reportsOf parser.input.items = parser.consumedReports ++ reportsOf parser.consume.input.items := by
  unfold Parser.consume consumedReports
  cases parser.buffered with
  | nil => exact reportsOf_pullFrom parser.input parser.context
  | cons next later => simp

theorem diagnostics {tokens : Stream' (Token × Span)}
    (stands : before.upcoming = tokens.drop before.consumed) :
    after.context.diagnostics.toList =
      before.context.diagnostics.toList ++ log.map (LogEntry.diagnostic tokens) := by
  induction logged with
  | refl parser => simp
  | trans logged _ first second =>
    rw [second (logged.upcoming stands), first stands, List.map_append, List.append_assoc]
  | consume parser => rw [LogEntry.map_diagnostic_read, diagnostics_consume]
  | putBy parser =>
    rw [LogEntry.map_diagnostic_read]
    simp [fill, pull, diagnostics_pullFrom, pulledReports]
  | aside parser depth fault => simp
  | report fresh =>
    simp [Context.report, LogEntry.diagnostic, aheadSpan_of_upcoming stands]
  | reportPassed fresh =>
    rw [List.map_append, LogEntry.map_diagnostic_read]
    simp [Context.report, LogEntry.diagnostic, aheadSpan_of_upcoming stands, diagnostics_consume]
  | refuse parser =>
    simp [Context.report, LogEntry.diagnostic, aheadSpan_of_upcoming stands]

theorem reports :
    reportsOf before.input.items = LogEntry.readings log ++ reportsOf after.input.items := by
  induction logged with
  | refl parser => simp
  | trans _ _ first second => rw [first, second, LogEntry.readings_append, List.append_assoc]
  | consume parser => rw [LogEntry.readings_read, input_consume]
  | putBy parser =>
    rw [LogEntry.readings_read]
    exact reportsOf_pullFrom parser.input parser.context
  | aside parser depth fault => simp
  | report fresh => simp
  | reportPassed fresh =>
    rw [LogEntry.readings_append, LogEntry.readings_read, LogEntry.readings_made, List.append_nil]
    exact input_consume _
  | refuse parser => simp

/-- Reports are about tokens from the first lookahead to the last one. -/
theorem index_bounds :
    ∀ index ∈ LogEntry.indices log, before.consumed ≤ index ∧ index ≤ after.consumed := by
  induction logged with
  | refl parser => simp
  | trans earlier later first second =>
    have start := earlier.consumed_le
    have final := later.consumed_le
    intro index member
    rw [LogEntry.indices_append, List.mem_append] at member
    rcases member with member | member
    · exact ⟨(first index member).1, Nat.le_trans (first index member).2 final⟩
    · exact ⟨Nat.le_trans start (second index member).1, (second index member).2⟩
  | consume parser => simp
  | putBy parser => simp
  | aside parser depth fault => simp
  | report fresh => simp
  | @reportPassed parser fresh =>
    have passed := (consume_keeps parser).1
    simp [passed]
  | refuse parser => simp

/-- Reports never go back to an earlier token. -/
theorem ordered : (LogEntry.indices log).Pairwise (· ≤ ·) := by
  induction logged with
  | refl parser => simp
  | trans earlier later first second =>
    rw [LogEntry.indices_append, List.pairwise_append]
    refine ⟨first, second, fun index member other memberOther => ?_⟩
    exact Nat.le_trans (earlier.index_bounds index member).2
      (later.index_bounds other memberOther).1
  | consume parser => simp
  | putBy parser => simp
  | aside parser depth fault => simp
  | report fresh => simp
  | reportPassed fresh => simp
  | refuse parser => simp

/-- A lookahead that counts as reported does so until it is consumed. -/
theorem remembers (reported : before.reportedAt = some before.consumed)
    (stays : after.consumed = before.consumed) : after.reportedAt = some after.consumed := by
  induction logged with
  | refl parser => exact reported
  | trans earlier later first second =>
    have start := earlier.consumed_le
    have final := later.consumed_le
    exact second (first reported (by omega)) (by omega)
  | consume parser =>
    rw [(consume_keeps parser).1] at stays
    omega
  | putBy parser => exact reported
  | aside parser depth fault => exact reported
  | report fresh => exact absurd reported fresh
  | reportPassed fresh => exact absurd reported fresh
  | refuse parser => exact reported

/-- A token that is reported as unexpected did not count as reported before, and does so after it if
it is still the lookahead. -/
theorem unexpected_bounds (settled : before.Settled) :
    ∀ index ∈ LogEntry.unexpected log,
      before.consumed ≤ index ∧ index ≤ after.consumed ∧ before.reportedAt ≠ some index ∧
        (index = after.consumed → after.reportedAt = some index) := by
  induction logged with
  | refl parser => simp
  | trans earlier later first second =>
    have start := earlier.consumed_le
    have final := later.consumed_le
    intro index member
    rw [LogEntry.unexpected_append, List.mem_append] at member
    rcases member with member | member
    · obtain ⟨above, below, fresh, known⟩ := first settled index member
      refine ⟨above, Nat.le_trans below final, fresh, fun last => ?_⟩
      have middle : index = _ := Nat.le_antisymm below (last ▸ final)
      have stays := later.remembers (middle ▸ known middle) (last ▸ middle)
      rw [stays, last]
    · obtain ⟨above, below, fresh, known⟩ := second (earlier.settled settled) index member
      refine ⟨Nat.le_trans start above, below, fun reported => fresh ?_, known⟩
      have first : index = _ := Nat.le_antisymm (settled index reported) (Nat.le_trans start above)
      have stays := earlier.remembers (first ▸ reported) (by omega)
      rw [stays]
      congr 1
      omega
  | consume parser => simp
  | putBy parser => simp
  | aside parser depth fault => simp
  | report fresh => simpa using fresh
  | @reportPassed parser fresh =>
    have passed := (consume_keeps parser).1
    simpa [passed] using fresh
  | refuse parser => simp

theorem nodup (settled : before.Settled) : (LogEntry.unexpected log).Nodup := by
  induction logged with
  | refl parser => simp
  | trans earlier later first second =>
    rw [LogEntry.unexpected_append, List.nodup_append]
    refine ⟨first settled, second (earlier.settled settled), ?_⟩
    rintro index member _ memberOther rfl
    -- a token of both would be the lookahead between them, which counts as reported by then
    obtain ⟨-, below, -, known⟩ := earlier.unexpected_bounds settled index member
    obtain ⟨above, -, fresh, -⟩ :=
      later.unexpected_bounds (earlier.settled settled) index memberOther
    exact fresh (known (Nat.le_antisymm below above))
  | consume parser => simp
  | putBy parser => simp
  | aside parser depth fault => simp
  | report fresh => simp
  | reportPassed fresh => simp
  | refuse parser => simp

end Logged

/-- One state comes from another by moves of the log. -/
def Logs (before after : Parser) : Prop := ∃ log, Logged before log after

namespace Logs

variable {first second third : Parser}

theorem refl (parser : Parser) : parser.Logs parser := ⟨[], .refl parser⟩

theorem trans (before : first.Logs second) (after : second.Logs third) : first.Logs third := by
  obtain ⟨log, earlier⟩ := before
  obtain ⟨later, final⟩ := after
  exact ⟨log ++ later, earlier.trans final⟩

theorem consume (parser : Parser) : parser.Logs parser.consume := ⟨_, .consume parser⟩

theorem raise (parser : Parser) (fault : Fault) : parser.Logs (parser.raise fault) :=
  ⟨_, .aside parser parser.depth (parser.fault <|> some fault)⟩

theorem reportUnexpected (parser : Parser) : parser.Logs parser.reportUnexpected := by
  unfold Parser.reportUnexpected
  split
  · exact refl parser
  · rename_i fresh
    exact ⟨_, .report (not_or.mp fresh).1⟩

theorem consumeInner (parser : Parser) : parser.Logs parser.consumeInner := by
  unfold Parser.consumeInner
  split
  · exact refl parser
  · exact consume parser

theorem refuseNesting (parser : Parser) : parser.Logs parser.refuseNesting.2 :=
  trans ⟨_, .refuse parser⟩ (consumeInner _)

theorem enterNesting (parser : Parser) : parser.Logs parser.enterNesting.2 := by
  unfold Parser.enterNesting
  split
  · exact ⟨_, .aside parser (parser.depth + 1) parser.fault⟩
  · exact refuseNesting parser

theorem leaveNesting (parser : Parser) : parser.Logs parser.leaveNesting := by
  unfold Parser.leaveNesting
  split
  · exact ⟨_, .aside parser (parser.depth - 1) parser.fault⟩
  · exact raise parser .leaveWithoutEnter

end Logs

def Unreported (parser : Parser) : Prop := parser.reportedAt ≠ some parser.consumed

theorem Settled.unreported_consume {parser : Parser} (settled : parser.Settled) :
    parser.consume.Unreported := by
  intro reported
  rw [(consume_keeps parser).2.2.2, (consume_keeps parser).1] at reported
  exact absurd (settled _ reported) (Nat.not_succ_le_self _)

end Parser

/-- A grammar goes on by moves of the log. A token that was passed is reported only if it was not
reported before. -/
def Conduct.logging : Conduct where
  starts := Parser.Settled
  leads := Parser.Logs
  fresh := Parser.Unreported
  onward := fun ⟨_, logged⟩ => logged.settled
  refl := .refl
  trans := .trans
  consume := .consume
  putBy parser := ⟨_, .putBy parser⟩
  reportUnexpected := .reportUnexpected
  raise := .raise
  fresh_consume settled := settled.unreported_consume
  reportPassed unreported := ⟨_, .reportPassed unreported⟩

namespace Parse

variable {α : Type} {production : Parse α}

abbrev Logs (production : Parse α) : Prop := Stays .logging production

namespace Logs

theorem onward (logs : Logs production) {parser : Parser} (settled : parser.Settled) :
    parser.Logs (production parser).2 :=
  (logs parser settled).2

theorem refuse (refused : Span → α) : Logs (Parse.refuse refused) := stays_of_leads .refuseNesting

theorem nested {refused : Span → α} (made : Logs production) :
    Logs (Parse.nested refused production) := by
  unfold Parse.nested
  refine Agrees.bind (stays_of_leads .enterNesting) fun entered => ?_
  cases entered with
  | some span => exact .pure (refused span)
  | none =>
    have leaves : Logs leaveNesting := stays_of_leads .leaveNesting
    exact made.bind fun value => leaves.bind fun _ => .pure value

end Logs

end Parse

end Offside
