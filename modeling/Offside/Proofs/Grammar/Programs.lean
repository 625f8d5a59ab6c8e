import Offside.Haskell.Parse
import Offside.Proofs.Grammar.Modules
import Offside.Proofs.Lexical.OneFile

/-!
Parsing from a whole stream. Whatever the tokens are, a parse of one file ends at the end of input
without a fault and has passed each token in front of it once, and the error nodes of the tree it
leaves behind are all among the diagnostics.
-/

namespace Offside

set_option autoImplicit false

open Offside.Lexical

def Span.slot (index : Nat) : Span := ⟨.single, ⟨0, 2 * index⟩, ⟨0, 2 * index + 1⟩⟩

/-- Tokens on one line, with a blank between each two. -/
def Lexical.TokenStream.spaced (tokens : List Token) : TokenStream :=
  .ofItems (tokens.mapIdx fun index token => .silent token (.slot index))

/-- The tokens that a parser has to pass: those in front of the first end of input, comments left
out. -/
def Lexical.TokenStream.inner (stream : TokenStream) : List (Token × Span) :=
  stream.visible.takeWhile fun found => Parser.isInner found.1

theorem Lexical.TokenStream.spaced_within {tokens : List Token} (nonempty : tokens ≠ []) :
    (TokenStream.spaced tokens).Within (· = .single) := by
  apply Reader.within_ofItems
  · simpa using nonempty
  · intro item member
    obtain ⟨index, _, rfl⟩ := List.mem_mapIdx.1 member
    rfl

namespace Parser

variable {files : FileId → Prop} {stream : TokenStream} {context : Context}

theorem rest_start (stream : TokenStream) (context : Context) :
    (start stream context).rest = stream.inner := by
  rw [TokenStream.inner, takeWhile_pullFrom stream context]
  rfl

theorem start_ready (within : stream.Within files) (context : Context) :
    (start stream context).Ready files nestingLimit := by
  have pulled := pullFrom_within within context
  exact
    { ahead := pulled.1
      buffered := by simp [start]
      input := pulled.2
      reported_le := by simp [start]
      reported := by simp [start]
      room := Nat.zero_add nestingLimit }

theorem context_start (stream : TokenStream) (context : Context) :
    context.Continues (start stream context).context :=
  pullFrom_continues stream context

end Parser

namespace Haskell

open Offside.Parser

variable {files : FileId → Prop} {file : FileId} {stream : TokenStream} {context : Context}

theorem parseTokens_of_ended (ended : (Parser.start stream context).isAtEnd = true) :
    parseTokens stream context = (none, Parser.start stream context) := by
  simp [parseTokens, ended]

section Inner

variable (inside : (Parser.start stream context).isAtEnd = false)

include inside

-- Each part of the result has an equation of its own: asked whether the pair is the parser behind the
-- program, Lean would run the grammar.
theorem parseTokens_program :
    (parseTokens stream context).1 = some (Grammar.program (Parser.start stream context)).1 := by
  simp only [parseTokens, inside, Bool.false_eq_true, if_false]
  generalize Grammar.program (Parser.start stream context) = parsed
  rfl

theorem parseTokens_final :
    (parseTokens stream context).2 = (Grammar.program (Parser.start stream context)).2 := by
  simp only [parseTokens, inside, Bool.false_eq_true, if_false]
  generalize Grammar.program (Parser.start stream context) = parsed
  rfl

end Inner

theorem parse_of_none (unharmed : (parseTokens stream context).2.fault = none)
    (absent : (parseTokens stream context).1 = none) :
    parse stream context = .ok (false, (parseTokens stream context).2.context) := by
  simp only [parse, unharmed, absent]

theorem parse_of_some {program : Program} (unharmed : (parseTokens stream context).2.fault = none)
    (found : (parseTokens stream context).1 = some program) :
    parse stream context =
      .ok (true, { (parseTokens stream context).2.context with program := some program }) := by
  simp only [parse, unharmed, found]

theorem parse_eq_ok_true {after : Context} (parsed : parse stream context = .ok (true, after)) :
    ∃ program, (parseTokens stream context).1 = some program ∧
      (parseTokens stream context).2.fault = none ∧
      after = { (parseTokens stream context).2.context with program := some program } := by
  simp only [parse] at parsed
  split at parsed
  · cases parsed
  · cases parsed
  · rename_i program unharmed found
    cases parsed
    exact ⟨program, found, unharmed, rfl⟩

/-- A parse runs to the end of input, with the tree accounted for if there is one. -/
theorem parseTokens_ends (within : stream.Within files) (context : Context) :
    Leads files (Parser.start stream context) (parseTokens stream context).2 ∧
      (parseTokens stream context).2.isAtEnd = true ∧
      ∀ program ∈ (parseTokens stream context).1,
        (parseTokens stream context).2.Accounts program.errors := by
  cases ended : (Parser.start stream context).isAtEnd with
  | true =>
    rw [parseTokens_of_ended ended]
    exact ⟨Leads.refl _, ended, by simp⟩
  | false =>
    obtain ⟨leads, accounted, final⟩ :=
      Grammar.program_ends (Parser.start stream context) (start_ready within context)
    rw [parseTokens_program ended, parseTokens_final ended]
    refine ⟨leads, final, ?_⟩
    intro program member
    rw [← Option.some.inj member]
    exact accounted

theorem parseTokens_run (within : stream.Within files) (context : Context) :
    Run files (Parser.start stream context) stream.inner (parseTokens stream context).2 := by
  obtain ⟨⟨passed, run⟩, ended, _⟩ := parseTokens_ends within context
  have nothing : (parseTokens stream context).2.rest = [] := (rest_eq_nil_iff _).2 ended
  have everything : stream.inner = passed := by
    rw [← rest_start stream context, run.effect.rest, nothing, List.append_nil]
  rw [everything]
  exact run

theorem parse_reads_every_token (within : stream.Within (· = file)) (context : Context) :
    let final := (parseTokens stream context).2
    Run (· = file) (Parser.start stream context) stream.inner final ∧
      final.isAtEnd = true ∧ final.fault = none ∧ final.consumed = stream.inner.length ∧
      if stream.afterComments.next.1.token = .endOfInput then
        parse stream context = .ok (false, final.context) ∧
          final.context.program = context.program
      else
        ∃ program, parse stream context =
          .ok (true, { final.context with program := some program }) := by
  intro final
  have run := parseTokens_run within context
  have unharmed : final.fault = none := run.fault_of_single
  have counted : final.consumed = stream.inner.length := by
    rw [run.effect.consumed]
    exact Nat.zero_add _
  refine ⟨run, (parseTokens_ends within context).2.1, unharmed, counted, ?_⟩
  split
  · rename_i ended
    have atEnd : (Parser.start stream context).isAtEnd = true := decide_eq_true ended
    have absent : (parseTokens stream context).1 = none := by
      rw [parseTokens_of_ended atEnd]
    have continued := (context_start stream context).trans run.effect.context
    exact ⟨parse_of_none unharmed absent, continued.program⟩
  · rename_i inner
    have inside : (Parser.start stream context).isAtEnd = false := decide_eq_false inner
    exact ⟨_, parse_of_some unharmed (parseTokens_program inside)⟩

/-- A text that ends inside a parenthesis, with a comment before it. -/
theorem parse_reads_unclosed_text :
    let stream := reader.stream .single "-- open\nx = (".toList
    stream.Within (· = .single) ∧ stream.afterComments.next.1.token ≠ .endOfInput ∧
      (parseTokens stream {}).2.isAtEnd = true ∧
      (parseTokens stream {}).2.consumed = stream.inner.length ∧
      ∃ program, parse stream {} =
        .ok (true, { (parseTokens stream {}).2.context with program := some program }) := by
  intro stream
  have within : stream.Within (· = .single) := stream_within .single _
  have inner : stream.afterComments.next.1.token ≠ .endOfInput := by decide +kernel
  obtain ⟨_, ended, _, counted, result⟩ := parse_reads_every_token within {}
  rw [if_neg inner] at result
  exact ⟨within, inner, ended, counted, result⟩

theorem parse_reports_every_error {after : Context}
    (parsed : parse stream context = .ok (true, after)) :
    ∃ program, after.program = some program ∧
      (∀ span ∈ program.errors, after.Reports span) ∧
      (after.diagnostics = #[] → program.errors = []) := by
  have within : stream.Within fun _ => True := ⟨fun _ _ => trivial, trivial⟩
  obtain ⟨program, found, unharmed, rfl⟩ := parse_eq_ok_true parsed
  have accounted := (parseTokens_ends within context).2.2 program found unharmed
  refine ⟨program, rfl, accounted, ?_⟩
  intro silent
  rw [List.eq_nil_iff_forall_not_mem]
  intro span member
  rcases accounted span member with unexpected | nested
  · rw [silent] at unexpected
    simp at unexpected
  · rw [silent] at nested
    simp at nested

/-- The operand after an equals sign is missing, and a brace stands in its place. -/
theorem parse_reports_missing_operand :
    let stream := TokenStream.spaced [.openBrace, .identifier, .equals, .closeBrace]
    ∃ after program, parse stream {} = .ok (true, after) ∧ after.program = some program ∧
      program.errors = [.slot 3] ∧
      ∀ span ∈ program.errors, after.Reports span := by
  intro stream
  have unharmed : (parseTokens stream {}).2.fault = none := by decide +kernel
  have errors : (parseTokens stream {}).1.map Program.errors =
      some [.slot 3] := by decide +kernel
  obtain ⟨program, found, known⟩ := Option.map_eq_some_iff.1 errors
  have parsed := parse_of_some unharmed found
  obtain ⟨other, stored, reported, _⟩ := parse_reports_every_error parsed
  cases stored
  exact ⟨_, program, parsed, rfl, known, reported⟩

end Haskell

end Offside
