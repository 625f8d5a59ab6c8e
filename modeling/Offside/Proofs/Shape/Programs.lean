import Offside.Proofs.Naming.Programs
import Offside.Proofs.Parser.Reported

/-!
The shape of whole programs. Whatever tokens a program is read from, each of its nodes is shaped, and
where nothing is reported no import stands behind other declarations.
-/

namespace Offside

set_option autoImplicit false

open Offside.Lexical

namespace Haskell.Grammar

open Offside.Parser Offside.Parse

section Imports

variable {files : FileId → Prop} {parser : Parser} {before : Nat}

theorem sees_anything (parser : Parser) : parser.Sees fun _ => True := fun _ => trivial

theorem furtherDecls_ends (counts : parser.Counts before) :
    Ends files nestingLimit furtherDecls parser fun made after =>
      ∀ found ∈ made, found.isImport = true → before < after.context.reports := by
  refine items_ends_along (fun _ _ _ leads late imports => ?_) fun start reached => ?_
  · exact Nat.lt_of_lt_of_le (late imports) leads.reports_le
  have counted := reached.counts counts
  by_cases found : start.ahead = .kwImport
  · have inner := isAtEnd_of_ahead (by decide) found
    have reports : topDecl start = importDecl start.reportUnexpected := by
      unfold topDecl
      rw [ahead_bind_apply, found]
      rfl
    intro ready
    rw [reports]
    obtain ⟨leads, -⟩ := importDecl_ends ((isAtEnd_reportUnexpected start).trans inner)
      (Leads.ready ⟨_, Run.report start⟩ ready)
    refine ⟨Leads.trans ⟨_, Run.report start⟩ leads, fun _ => ?_⟩
    exact Nat.lt_of_lt_of_le (counted.lt_reportUnexpected inner) leads.reports_le
  · intro ready
    refine ⟨(topDecl_ends start ready).1, fun imports => ?_⟩
    rw [(topDecl_import found (sees_anything start)).1] at imports
    cases imports

theorem leadingImports_ends (parser : Parser) :
    Ends files nestingLimit leadingImports parser fun made _ =>
      ∀ found ∈ made, found.isImport = true := by
  intro ready
  refine ⟨?_, fun found early =>
    ((leadingImports_formed parser (sees_anything parser)).1 found early).1⟩
  refine (many_ends (stable_accounts fun _ => []) (fun start => ?_) parser ready).1
  intro _
  refine ⟨Leads.refl start, fun found => ?_⟩
  have isImport : start.ahead = .kwImport := of_decide_eq_true found
  have inner := isAtEnd_of_ahead (by decide) isImport
  refine (itemThenEnd_ends (stable_accounts fun _ => [])
    ((importDecl_ends inner).mono fun _ _ _ _ => accounts_nil _)).mono fun _ _ _ ended => ?_
  exact ⟨ended.2 inner (by rw [isImport]; decide), accounts_nil _⟩

theorem importsLead_append {imports further : List Decl}
    (lead : ∀ found ∈ imports, found.isImport = true)
    (none : ∀ found ∈ further, found.isImport = false) : ImportsLead (imports ++ further) := by
  refine List.pairwise_append.2 ⟨?_, ?_, ?_⟩
  · exact List.Pairwise.imp_of_mem (fun early _ _ _ => Or.inl (lead _ early))
      (List.pairwise_of_forall fun _ _ => trivial)
  · refine List.Pairwise.imp_of_mem (fun _ late _ isImport => ?_)
      (List.pairwise_of_forall fun _ _ => trivial)
    rw [none _ late] at isImport
    cases isImport
  · exact fun found early _ _ _ => Or.inl (lead found early)

theorem moduleBody?_importsLead (counts : parser.Counts before) :
    Ends files nestingLimit moduleBody? parser fun made after =>
      after.context.reports ≤ before → ImportsLead made := by
  unfold moduleBody?
  simp only [ends_isAt]
  split
  · rename_i found
    refine Ends.consume (isAtEnd_of_ahead (by decide) (of_decide_eq_true found)) fun leadsBrace => ?_
    refine Ends.bind (leadingImports_ends parser.consume) fun imports middle leadsImports early => ?_
    have counted := (leadsBrace.trans leadsImports).counts counts
    refine Ends.bind (furtherDecls_ends counted) fun further past _ late => ?_
    refine Ends.expectOrSkipTo (by decide) fun _ final leads => Ends.pure fun silent => ?_
    refine importsLead_append early fun found behind => ?_
    refine Bool.eq_false_iff.2 fun isImport => ?_
    exact absurd (Nat.lt_of_lt_of_le (late found behind isImport) leads.reports_le)
      (Nat.not_lt.2 silent)
  · exact Ends.pure fun _ => List.Pairwise.nil

theorem leads_settle (parser : Parser) : Leads files parser (settle parser) := by
  unfold settle
  split
  · exact Leads.refl parser
  · exact Leads.trans ⟨_, Run.report parser⟩ (Leads.skipTo .endOfInput _)

/-- Where nothing was reported the imports of a program stand in front. -/
theorem program_importsLead (counts : parser.Counts before)
    (ready : parser.Ready files nestingLimit)
    (silent : (program parser).2.context.reports ≤ before) :
    ImportsLead (program parser).1.decls := by
  obtain ⟨leadsHeader, -⟩ := moduleHeader?_ends parser ready
  obtain ⟨-, lead⟩ := moduleBody?_importsLead (leadsHeader.counts counts) (leadsHeader.ready ready)
  rw [program_eq] at silent ⊢
  have settles : Leads files (moduleBody? (moduleHeader? parser).2).2 _ := leads_settle _
  have led := lead (Nat.le_trans settles.reports_le silent)
  rcases (moduleHeader?_formed parser (sees_anything parser)).1 with none | ⟨header, some, isModule, -⟩
  · simpa only [none, List.nil_append] using led
  · simp only [some, List.singleton_append]
    exact List.pairwise_cons.2 ⟨fun _ _ _ => Or.inr isModule, led⟩

end Imports

end Haskell.Grammar

namespace Haskell

open Offside.Parser

/-- A program that is stored is shaped in each of its nodes, however malformed the tokens were, and its
imports stand in front unless something was reported. -/
theorem parsed_programs_are_shaped {stream : TokenStream} {context after : Context}
    (parsed : parse stream context = .ok (true, after)) :
    ∃ program, after.program = some program ∧
      (∀ node : Node, node.Inside (.program program) → node.Shaped) ∧
      (after.diagnostics = context.diagnostics → ImportsLead program.decls) := by
  have within : stream.Within fun _ => True := ⟨fun _ _ => trivial, trivial⟩
  obtain ⟨program, found, -, rfl⟩ := parse_eq_ok_true parsed
  refine ⟨program, rfl, ?_⟩
  cases ended : (Parser.start stream context).isAtEnd with
  | true =>
    rw [parseTokens_of_ended ended] at found
    cases found
  | false =>
    rw [parseTokens_program ended] at found
    rw [parseTokens_final ended]
    cases found
    refine ⟨fun node inside => ?_, fun silent => ?_⟩
    · exact ((Grammar.program_formed (Grammar.sees_anything _)).of_inside inside).shaped
    · refine Grammar.program_importsLead (counts_start stream context)
        (start_ready within context) ?_
      exact Nat.le_of_eq (congrArg Array.size silent)

/-- A tuple, a `where` with a separator too many and two imports, of which one comes late. -/
theorem parsed_programs_are_shaped_late_import :
    let stream := reader.stream .single
      "module M where { import A; x = (y, z) where { ;; w = 1 }; import B }".toList
    ∃ after program, parse stream {} = .ok (true, after) ∧ after.program = some program ∧
      program.decls.map Decl.isImport = [false, true, false, true] ∧
      (∀ node : Node, node.Inside (.program program) → node.Shaped) ∧
      after.diagnostics ≠ #[] := by
  intro stream
  have unharmed : (parseTokens stream {}).2.fault = none := by decide +kernel
  have decls : (parseTokens stream {}).1.map (fun program => program.decls.map Decl.isImport) =
      some [false, true, false, true] := by decide +kernel
  have reported : (parseTokens stream {}).2.context.diagnostics.size = 1 := by decide +kernel
  obtain ⟨program, found, known⟩ := Option.map_eq_some_iff.1 decls
  have parsed := parse_of_some unharmed found
  obtain ⟨other, stored, shaped, -⟩ := parsed_programs_are_shaped parsed
  cases stored
  refine ⟨_, program, parsed, rfl, known, shaped, fun none => ?_⟩
  rw [show (parseTokens stream {}).2.context.diagnostics = #[] from none] at reported
  cases reported

end Haskell

end Offside
