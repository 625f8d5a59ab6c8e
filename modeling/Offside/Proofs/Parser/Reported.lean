import Offside.Proofs.Parser.Reading

/-!
How many diagnostics there are. A run only adds to them, and once the lookahead was reported there are
more than at the start: what was reported is remembered, so it is not reported again, but it was
reported since the start.
-/

namespace Offside

set_option autoImplicit false

open Offside.Lexical

namespace Context

def reports (context : Context) : Nat := context.diagnostics.size

theorem reports_report (context : Context) (problem : Problem) (span : Span) :
    (context.report problem span).reports = context.reports + 1 :=
  Array.size_push _

theorem reports_le_absorb (context : Context) (item : Lexed) :
    context.reports ≤ (context.absorb item).reports := by
  have kept := foldl_recordEntry_keeps item.entries
    { context with diagnostics := context.diagnostics ++ item.reports }
  unfold reports Context.absorb
  rw [kept.1, ← Array.length_toList, ← Array.length_toList, Array.toList_appendList,
    List.length_append]
  exact Nat.le_add_right _ _

theorem reports_le_absorbAll (items : List Lexed) (context : Context) :
    context.reports ≤ (context.absorbAll items).reports := by
  induction items generalizing context with
  | nil => exact Nat.le_refl _
  | cons item later induction =>
    exact Nat.le_trans (reports_le_absorb context item) (induction (context.absorb item))

end Context

namespace Parser

theorem reports_le_pullFrom (stream : TokenStream) (context : Context) :
    context.reports ≤ (pullFrom stream context).2.2.reports :=
  Nat.le_trans (context.reports_le_absorbAll stream.comments) (Context.reports_le_absorb _ _)

theorem reports_le_consume (parser : Parser) :
    parser.context.reports ≤ parser.consume.context.reports := by
  unfold Parser.consume
  cases parser.buffered with
  | nil => exact reports_le_pullFrom parser.input parser.context
  | cons next later => exact Nat.le_refl _

/-- Since there were so many diagnostics, what is remembered as reported was added to them. -/
structure Counts (before : Nat) (parser : Parser) : Prop where
  atLeast : before ≤ parser.context.reports
  remembered : parser.reportedAt ≠ none → before < parser.context.reports

variable {files : FileId → Prop} {before : Nat} {first last : Parser}
  {passed : List (Token × Span)}

theorem counts_start (stream : TokenStream) (context : Context) :
    (start stream context).Counts context.reports where
  atLeast := reports_le_pullFrom stream context
  remembered := fun reported => absurd rfl reported

theorem Run.reports_le (run : Run files first passed last) :
    first.context.reports ≤ last.context.reports := by
  induction run with
  | refl parser => exact Nat.le_refl _
  | trans _ _ first second => exact Nat.le_trans first second
  | consume _ => exact reports_le_consume _
  | fill _ => exact reports_le_pullFrom _ _
  | report parser =>
    rcases reportUnexpected_cases parser with same | reported
    · rw [same]
    · rw [reported, Context.reports_report]
      exact Nat.le_succ _
  | consumeReporting _ =>
    rw [Context.reports_report]
    exact Nat.le_succ_of_le (reports_le_consume _)
  | refuse _ =>
    rw [Context.reports_report]
    exact Nat.le_succ _
  | nested _ _ inside =>
    rw [(leaveNesting_keeps _).2.1]
    exact inside
  | raise _ _ _ => exact Nat.le_refl _

theorem Counts.report {parser : Parser} (counts : parser.Counts before) :
    parser.reportUnexpected.Counts before := by
  rcases reportUnexpected_cases parser with same | reported
  · rwa [same]
  · rw [reported]
    have more : before < (parser.context.report .unexpectedToken parser.aheadSpan).reports := by
      rw [Context.reports_report]
      exact Nat.lt_succ_of_le counts.atLeast
    exact ⟨Nat.le_of_lt more, fun _ => more⟩

/-- The diagnostics only grow where the memory of reports stays as it is. -/
theorem Counts.grow {parser other : Parser} (counts : parser.Counts before)
    (same : other.reportedAt = parser.reportedAt)
    (grown : parser.context.reports ≤ other.context.reports) : other.Counts before where
  atLeast := Nat.le_trans counts.atLeast grown
  remembered := fun reported => Nat.lt_of_lt_of_le (counts.remembered (same ▸ reported)) grown

theorem Run.counts (run : Run files first passed last) (counts : first.Counts before) :
    last.Counts before := by
  induction run with
  | refl parser => exact counts
  | trans _ _ first second => exact second (first counts)
  | consume _ => exact counts.grow (consume_keeps _).2.2.2 (reports_le_consume _)
  | fill _ => exact counts.grow rfl (reports_le_pullFrom _ _)
  | report parser => exact counts.report
  | consumeReporting _ =>
    refine counts.grow (consume_keeps _).2.2.2 ?_
    rw [Context.reports_report]
    exact Nat.le_succ_of_le (reports_le_consume _)
  | refuse _ =>
    refine counts.grow rfl ?_
    rw [Context.reports_report]
    exact Nat.le_succ _
  | @nested parser final passed _ _ inside =>
    have entered : final.Counts before := inside ⟨counts.atLeast, counts.remembered⟩
    refine entered.grow (leaveNesting_keeps final).2.2 ?_
    rw [(leaveNesting_keeps final).2.1]
  | raise _ _ _ => exact ⟨counts.atLeast, counts.remembered⟩

theorem Leads.counts (leads : Leads files first last) (counts : first.Counts before) :
    last.Counts before := by
  obtain ⟨passed, run⟩ := leads
  exact run.counts counts

theorem Leads.reports_le (leads : Leads files first last) :
    first.context.reports ≤ last.context.reports := by
  obtain ⟨passed, run⟩ := leads
  exact run.reports_le

/-- A token in front of the end of input that is unexpected is reported now or was reported since. -/
theorem Counts.lt_reportUnexpected {parser : Parser} (counts : parser.Counts before)
    (inner : parser.isAtEnd = false) :
    before < parser.reportUnexpected.context.reports := by
  unfold Parser.reportUnexpected
  split
  · rename_i silent
    rcases silent with same | ended
    · exact counts.remembered (by simp [same])
    · simp [endAlreadyReported, inner] at ended
  · rw [Context.reports_report]
    exact Nat.lt_succ_of_le counts.atLeast

end Parser

end Offside
