import Offside.Proofs.Conduct.Programs
import Offside.Proofs.Parser.Log

/-!
Reports of a whole parse. Every level of the tower keeps the log, by induction on its height, and so
does a program over it. An entry of an import list may report a token that it has passed; it starts
right behind a parenthesis or a comma, where the lookahead was not reported yet. So the reports of a
parse follow the order of the tokens, and no token is reported as unexpected twice.
-/

namespace Offside

set_option autoImplicit false

open Offside.Lexical

namespace Haskell.Grammar

open Offside.Parse

theorem refusal_logs : Level.refusal.Agrees .logging Level.refusal where
  expression := Logs.refuse _
  pattern := Logs.refuse _
  type := Logs.refuse _
  expressionAtom := Logs.refuse _
  patternAtom := Logs.refuse _
  parentheses := Logs.refuse _
  brackets := Logs.refuse _
  declBlock := Logs.refuse _
  alternativeBlock := Logs.refuse _
  statementBlock := Logs.refuse _

/-- By induction on the levels that may still be entered. -/
theorem level_logs (further : Nat) : (level further).Agrees .logging (level further) := by
  induction further with
  | zero => exact refusal_logs
  | succ further logs =>
    exact
      { expression := Logs.nested (expressionProduction_agrees logs)
        pattern := Logs.nested (patternProduction_agrees logs)
        type := Logs.nested (typeProduction_agrees logs)
        expressionAtom := Logs.nested (atom_agrees logs)
        patternAtom := Logs.nested (patternAtom_agrees logs)
        parentheses := Logs.nested (parentheses_agrees logs)
        brackets := Logs.nested (brackets_agrees logs)
        declBlock := Logs.nested (block_agrees (decl_agrees logs))
        alternativeBlock := Logs.nested (block_agrees (alternative_agrees logs))
        statementBlock := Logs.nested (block_agrees (statement_agrees logs)) }

theorem topDecl_logs : Logs topDecl := topDeclOver_agrees (level_logs _)

theorem moduleBody?_logs : Logs moduleBody? := moduleBodyOver?_agrees (level_logs _)

theorem program_logs : Logs program := programOver_agrees (level_logs _)

end Haskell.Grammar

namespace Haskell

open Offside.Parser

theorem parseTokens_logs (stream : TokenStream) (context : Context) :
    (start stream context).Logs (parseTokens stream context).2 := by
  unfold parseTokens
  dsimp only
  split
  · exact .refl _
  · exact Grammar.program_logs.onward (settled_start stream context)

/-- Whatever stream is parsed, what a parse adds to the diagnostics are the reports of the stream, each
when its token is pulled, and reports of the parser about tokens of the stream. Those of the parser
stand in the order of the tokens, comments left out, and no token is reported as unexpected twice. -/
theorem reports_follow_tokens (stream : TokenStream) (context : Context) :
    ∃ log, Logged (start stream context) log (parseTokens stream context).2 ∧
      (parseTokens stream context).2.context.diagnostics.toList =
        context.diagnostics.toList ++ pulledReports stream ++
          log.map (LogEntry.diagnostic stream.shows) ∧
      pulledReports stream ++ LogEntry.readings log ++
        reportsOf (parseTokens stream context).2.input.items = reportsOf stream.items ∧
      (LogEntry.indices log).Pairwise (· ≤ ·) ∧
      (LogEntry.unexpected log).Nodup := by
  obtain ⟨log, logged⟩ := parseTokens_logs stream context
  have settled := settled_start stream context
  have stands : (start stream context).upcoming = stream.shows.drop (start stream context).consumed :=
    upcoming_start stream context
  have started : (start stream context).context.diagnostics.toList =
      context.diagnostics.toList ++ pulledReports stream := by
    simp [start, diagnostics_pullFrom, pulledReports]
  refine ⟨log, logged, ?_, ?_, logged.ordered, logged.nodup settled⟩
  · rw [logged.diagnostics stands, started]
  · rw [List.append_assoc, ← logged.reports]
    exact (reportsOf_pullFrom stream context).symm

end Haskell

end Offside
