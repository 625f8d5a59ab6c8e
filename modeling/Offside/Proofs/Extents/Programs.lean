import Offside.Proofs.Extents.Expressions
import Offside.Proofs.Spans.Programs

/-!
Headers, imports and the lists in them take tokens, and only names stand below them. Nothing there has a
place made from those of its parts.
-/

namespace Offside

set_option autoImplicit false

variable {text : Tokens}

theorem Selection.every_exact (selection : Selection) :
    (Node.selection selection).Every (Node.Exact text) := by
  cases selection with
  | wholeModule name span => exact .intro trivial (List.forall_mem_singleton.2 name.every_exact)
  | item name members span =>
    refine .intro trivial (List.forall_mem_cons.2 ⟨name.every_exact, ?_⟩)
    cases members with
    | absent => exact nofun
    | all span => exact List.forall_mem_singleton.2 (.intro trivial nofun)
    | listed names span =>
      refine List.forall_mem_singleton.2 (.intro trivial fun child member => ?_)
      obtain ⟨found, -, rfl⟩ := List.mem_map.1 member
      exact found.every_exact

theorem SelectionList.every_exact (list : SelectionList) :
    (Node.selections list).Every (Node.Exact text) := by
  refine .intro trivial fun child member => ?_
  obtain ⟨selection, -, rfl⟩ := List.mem_map.1 member
  exact selection.every_exact

theorem ModuleHeader.every_exact (header : ModuleHeader) :
    (Node.decl (.moduleHeader header)).Every (Node.Exact text) := by
  refine .intro trivial (List.forall_mem_cons.2 ⟨header.name.every_exact, fun child member => ?_⟩)
  obtain ⟨list, -, rfl⟩ := List.mem_map.1 member
  exact list.every_exact

theorem ImportDecl.every_exact (imported : ImportDecl) :
    (Node.decl (.importDecl imported)).Every (Node.Exact text) := by
  refine .intro trivial (List.forall_mem_cons.2 ⟨imported.moduleName.every_exact, ?_⟩)
  refine List.forall_mem_append.2 ⟨fun child member => ?_, fun child member => ?_⟩
  · obtain ⟨name, -, rfl⟩ := List.mem_map.1 member
    exact name.every_exact
  · obtain ⟨list, -, rfl⟩ := List.mem_map.1 member
    exact list.every_exact

namespace Haskell.Grammar

open Offside.Parser Offside.Parse

variable {α : Type} {parser origin : Parser} {begun : Bool} {owed : List Node}

/-- Whatever is in a header stands where it should. -/
theorem header_done {taken : Tokens → Prop} {header : ModuleHeader} :
    TakesFrom text origin taken (Pure.pure (Decl.moduleHeader header))
      (fun made _ => Held text [.decl made]) parser :=
  .pure fun _ _ => ⟨List.forall_mem_singleton.2 header.every_exact⟩

theorem moduleHeader_gathers (found : parser.ahead = .kwModule) :
    Gathers text moduleHeader (fun made => [.decl made]) parser := by
  unfold moduleHeader
  simp only [takes_aheadSpan]
  refine .begin (by rw [found]; rfl)
    (.pass (quiet_of_ends moduleName_stays (moduleName_ends _)) fun name afterName => ?_)
  refine .pass (quiet_of_ends (selectionList?_stays true) (selectionList?_ends true afterName))
    fun exports after => ?_
  exact .due (by decide) fun _ _ => takes_spanFrom.2 header_done

theorem acceptWord_quiet (word : String) (parser : Parser) :
    Quiet text (acceptWord word) parser := by
  have ends : ∀ {further}, Ends (fun _ => True) further (acceptWord word >>= Pure.pure) parser
      fun _ _ => True := acceptWord_ends fun _ _ _ => .pure trivial
  exact quiet_of_ends (.acceptWord word) ends

theorem import_done {taken : Tokens → Prop} {imported : ImportDecl} :
    TakesFrom text origin taken (Pure.pure (Decl.importDecl imported))
      (fun made _ => Held text [.decl made]) parser :=
  .pure fun _ _ => ⟨List.forall_mem_singleton.2 imported.every_exact⟩

theorem importDecl_gathers (found : parser.ahead = .kwImport) :
    Gathers text importDecl (fun made => [.decl made]) parser := by
  unfold importDecl
  simp only [takes_aheadSpan]
  refine .begin (by rw [found]; rfl) (.pass (acceptWord_quiet "qualified" _) fun isQualified _ => ?_)
  refine .pass (quiet_of_ends moduleName_stays (moduleName_ends _)) fun name afterName => ?_
  refine .pass (quiet_of_ends renaming?_stays (renaming?_ends afterName)) fun renamedTo middle => ?_
  refine .pass (quiet_of_ends importList_stays (importList_ends middle)) fun list after => ?_
  exact takes_spanFrom.2 import_done

end Haskell.Grammar

/-!
The nodes of a program are in place. Every level of the grammar lays its operands, by induction on the
height of the tower, and so a text for which nothing was reported divides into the tokens of what it
holds. What was made from the spans of its operands reaches from its first token to its last one unless
an operand at one of its ends is in parentheses that the operand's span leaves out.
-/

open Offside.Lexical

variable {text : Tokens}

namespace Node

/-- The node at a path, which says at each node which child to go to. -/
def below (node : Node) : List Nat → Option Node
  | [] => some node
  | index :: path => node.children[index]?.bind fun child => child.below path

theorem inside_of_below {node inner : Node} {path : List Nat}
    (found : node.below path = some inner) : inner.Inside node := by
  induction path generalizing node with
  | nil =>
    cases found
    exact .refl _
  | cons index path induction =>
    obtain ⟨child, among, below⟩ := Option.bind_eq_some_iff.1 found
    exact .under (List.mem_of_getElem? among) (induction below)

def composed? : Node → Option Expr
  | expr found => if found.isComposed then some found else none
  | _ => none

theorem composed?_eq_some {node : Node} {found : Expr} (known : node.composed? = some found) :
    node = .expr found ∧ found.isComposed = true := by
  cases node with
  | expr own =>
    obtain ⟨isComposed, same⟩ := Option.ite_none_right_eq_some.1 known
    cases same
    exact ⟨rfl, isComposed⟩
  | _ => cases known

end Node

namespace Haskell.Grammar

open Offside.Parser Offside.Parse

variable {α : Type} {parser origin : Parser} {begun : Bool} {owed : List Node} {item : Parse α}
  {tag : α → Node}

/-- A production that takes tokens whatever state it is in. -/
theorem quiet_of_leads {production : Parse α}
    (leads : Leads (fun _ => True) parser (production parser).2) : Quiet text production parser := by
  obtain ⟨passed, run⟩ := leads
  exact ⟨run.clean, fun _ _ _ _ _ => ⟨passed, run, trivial⟩⟩

section Blocks

theorem itemThenEnd_gathers (items : Gathers text item (fun made => [tag made]) parser) :
    Gathers text (itemThenEnd item) (fun made => [tag made]) parser := by
  unfold itemThenEnd
  refine .start (.gather items fun value after => ?_)
  exact .pass (quiet_of_leads (leads_endOfItem after)) fun _ _ => .give (List.Subset.refl _)

theorem items_gather (items : ∀ start, Gathers text item (fun made => [tag made]) start)
    (parser : Parser) :
    Gathers text (many itemFollows (itemThenEnd item)) (List.map tag) parser := by
  refine many_gathers (fun start => quiet_of_still ?_) (fun start => itemThenEnd_gathers (items start))
    parser
  rw [itemFollows_ahead]

theorem block_gathers (items : ∀ start, Gathers text item (fun made => [tag made]) start)
    (parser : Parser) : Gathers text (block item) (List.map tag) parser := by
  unfold block
  refine .start (.due (by decide) fun found after => ?_)
  cases found with
  | false => exact .give (List.nil_subset _)
  | true =>
    refine .gather (items_gather items after) fun values _ => ?_
    exact .closing (by decide) fun _ _ => .give (List.Subset.refl _)

end Blocks

section Tower

theorem refusal_lays : Level.Lays text .refusal where
  expression := refuse_takes
  pattern := refuse_takes
  type := refuse_takes
  expressionAtom := refuse_takes
  patternAtom := refuse_takes
  parentheses := fun parser _ => refuse_takes parser
  brackets := fun parser _ => refuse_takes parser
  declBlock := refuse_takes
  alternativeBlock := refuse_takes
  statementBlock := refuse_takes

theorem level_lays (further : Nat) : (level further).Lays text := by
  induction further with
  | zero => exact refusal_lays
  | succ further induction =>
    exact
      { expression := fun _ => nested_takes (expressionProduction_gathers induction _)
        pattern := fun _ => nested_takes (patternProduction_takes induction _)
        type := fun _ => nested_takes (typeProduction_takes induction _)
        expressionAtom := fun _ => nested_takes ((atom_takes induction _).mono
          fun _ _ laid => laid.held)
        patternAtom := fun _ => nested_takes ((patternAtom_takes induction _).mono
          fun _ _ laid => laid.held)
        parentheses := fun _ found => nested_takes (parentheses_takes induction found)
        brackets := fun _ found => nested_takes (brackets_takes induction found)
        declBlock := fun _ => nested_takes (block_gathers (decl_gathers induction) _)
        alternativeBlock := fun _ => nested_takes (block_gathers (alternative_gathers induction) _)
        statementBlock := fun _ => nested_takes (block_gathers (statement_gathers induction) _) }

end Tower

theorem unsupportedDecl_gathers (firm : isFirm parser.ahead = true) :
    Gathers text unsupportedDecl (fun made => [.decl made]) parser := by
  unfold unsupportedDecl
  simp only [takes_aheadSpan, takes_ahead]
  refine .begin firm (.pass (quiet_of_leads (Leads.skipToAny _ _ _)) fun _ _ => ?_)
  exact takes_spanFrom.2 (.node trivial (List.nil_subset _))

theorem topDecl_gathers (parser : Parser) :
    Gathers text topDecl (fun made => [.decl made]) parser := by
  unfold topDecl
  simp only [takes_ahead]
  split
  iterate 8
    · rename_i found
      exact unsupportedDecl_gathers (by rw [found]; rfl)
  · rename_i found
    have imports : Gathers text importDecl (fun made => [.decl made]) parser.reportUnexpected :=
      importDecl_gathers ((ahead_reportUnexpected parser).trans found)
    exact .reportUnexpected imports.1
  · exact decl_gathers (level_lays nestingLimit) parser

theorem moduleBody_gathers (found : parser.ahead = .openBrace) :
    Gathers text moduleBody (List.map .decl) parser := by
  unfold moduleBody
  refine .start (.drop (isAtEnd_of_ahead (by decide) found) ?_)
  refine .gather (many_isAt_gathers (fun start isImport =>
    itemThenEnd_gathers (importDecl_gathers isImport)) _) fun imports afterImports => ?_
  refine .gather (items_gather topDecl_gathers afterImports) fun decls _ => ?_
  exact .closing (by decide) fun _ _ => .give (by simp)

theorem moduleHeader?_gathers (parser : Parser) :
    Gathers text moduleHeader? (List.map .decl) parser := by
  unfold moduleHeader?
  simp only [takes_isAt]
  split
  · rename_i found
    exact takes_map.2 (moduleHeader_gathers (by simpa using found))
  · exact .pure fun _ _ => .nil

theorem moduleBody?_gathers (parser : Parser) :
    Gathers text moduleBody? (List.map .decl) parser := by
  unfold moduleBody?
  simp only [takes_isAt]
  split
  · rename_i found
    exact moduleBody_gathers (by simpa using found)
  · exact .pure fun _ _ => .nil

theorem program_gathers (parser : Parser) :
    Gathers text program (fun made => [.program made]) parser := by
  unfold program
  simp only [takes_aheadSpan]
  refine .start (.gather (moduleHeader?_gathers parser) fun header afterHeader => ?_)
  refine .gather (moduleBody?_gathers afterHeader) fun body afterBody => ?_
  refine .pass (quiet_of_ends skipToEnd_stays (skipToEnd_ends afterBody)) fun _ _ => ?_
  exact returnNode (fun _ => trivial) fun _ => by simp

end Haskell.Grammar

namespace Haskell

open Offside.Parser

variable {context : Context} {program : Program}

/-- If nothing was reported for a text then every application, operator chain, negation and function
type in its program is in place. -/
theorem composed_nodes_placed {source : List Char}
    (parsed : (parseText source context).1 = some program)
    (silent : (parseText source context).2.diagnostics = #[]) :
    (∀ expr : Expr, (Node.expr expr).Inside (.program program) → expr.isComposed = true →
      expr.Placed (reader.stream context.file source).inner) ∧
    ∀ type : TypeTerm, (Node.type type).Inside (.program program) → type.isFunction = true →
      type.Placed (reader.stream context.file source).inner := by
  obtain ⟨found, same⟩ := parseText_eq_some parsed
  rw [same] at silent
  have clean := parseTokens_clean (stream_within context.file source) silent
  cases inside : (Parser.start (reader.stream context.file source) context).isAtEnd with
  | true =>
    rw [parseTokens_of_ended inside] at found
    cases found
  | false =>
    rw [parseTokens_program inside] at found
    rw [parseTokens_final inside] at clean
    cases found
    have stands : (Parser.start (reader.stream context.file source) context).Stands
        (reader.stream context.file source).inner :=
      ⟨⟨_, tidy_start source context⟩, by rw [rest_start], _,
        start_ready ⟨fun _ _ => trivial, trivial⟩ context⟩
    obtain ⟨passed, -, held⟩ := (Grammar.program_gathers _).2 [] rfl stands (.refl _) clean
    have every := held.nodes _ (List.mem_singleton_self _)
    exact ⟨fun expr among => every.of_inside among, fun type among => every.of_inside among⟩

def enclosedText : List Char := "f :: (a -> b) -> (c) -> d\nf x = - g (x + 1) * h x (+)".toList

theorem composed_nodes_placed_enclosed :
    ∃ program, (parseText enclosedText {}).1 = some program ∧
      (parseText enclosedText {}).2.diagnostics = #[] ∧
      [[0, 1], [1, 2, 0], [1, 2, 0, 0], [1, 2, 0, 2]].map (fun path =>
        ((Node.program program).below path).map fun node => node.span.fields) =
        [some [0, 0, 6, 0, 25], some [0, 1, 6, 1, 26], some [0, 1, 6, 1, 17],
          some [0, 1, 20, 1, 26]] ∧
      (∀ expr : Expr, (Node.expr expr).Inside (.program program) → expr.isComposed = true →
        expr.Placed (reader.stream ⟨0⟩ enclosedText).inner) ∧
      ∀ type : TypeTerm, (Node.type type).Inside (.program program) → type.isFunction = true →
        type.Placed (reader.stream ⟨0⟩ enclosedText).inner := by
  have silent : (parseText enclosedText {}).2.diagnostics.size = 0 := by decide +kernel
  have places : (parseText enclosedText {}).1.map (fun program =>
      [[0, 1], [1, 2, 0], [1, 2, 0, 0], [1, 2, 0, 2]].map fun path =>
        ((Node.program program).below path).map fun node => node.span.fields) =
      some [some [0, 0, 6, 0, 25], some [0, 1, 6, 1, 26], some [0, 1, 6, 1, 17],
        some [0, 1, 20, 1, 26]] := by
    decide +kernel
  have silent : (parseText enclosedText {}).2.diagnostics = #[] :=
    Array.eq_empty_of_size_eq_zero silent
  obtain ⟨program, parsed, known⟩ := Option.map_eq_some_iff.1 places
  exact ⟨program, parsed, silent, known, composed_nodes_placed parsed silent⟩

/-- The tokens of a text inside a span. -/
def tokensWithin (source : List Char) (span : Span) : List Token :=
  ((reader.stream ⟨0⟩ source).inner.filter fun found => span.contains found.2).map Prod.fst

/-- A constructor operator in parentheses is the argument of a pattern and of an expression. The span of
the pattern has the closing parenthesis in it, and that of the expression leaves it out. -/
theorem application_without_closing_parenthesis :
    let source := "f (C (:+)) = C (:+)".toList
    ∃ program pattern expr, (parseText source {}).1 = some program ∧
      (parseText source {}).2.diagnostics = #[] ∧
      (Node.expr pattern).Inside (.program program) ∧ pattern.isComposed = true ∧
      (Node.expr expr).Inside (.program program) ∧ expr.isComposed = true ∧
      tokensWithin source pattern.span =
        [.properIdentifier, .openParen, .constructorSymbol, .closeParen] ∧
      tokensWithin source expr.span = [.properIdentifier, .openParen, .constructorSymbol] := by
  intro source
  have silent : (parseText source {}).2.diagnostics.size = 0 := by decide +kernel
  have places : (parseText source {}).1.map (fun program =>
      [[0, 1, 0], [0, 2, 0]].map fun path =>
        ((Node.program program).below path).bind fun node => node.composed?.map fun expr =>
          tokensWithin source expr.span) =
      some [some [.properIdentifier, .openParen, .constructorSymbol, .closeParen],
        some [.properIdentifier, .openParen, .constructorSymbol]] := by
    decide +kernel
  obtain ⟨program, parsed, known⟩ := Option.map_eq_some_iff.1 places
  rw [List.map_cons, List.map_singleton, List.cons.injEq, List.cons.injEq] at known
  obtain ⟨patternNode, patternBelow, patternKnown⟩ := Option.bind_eq_some_iff.1 known.1
  obtain ⟨exprNode, exprBelow, exprKnown⟩ := Option.bind_eq_some_iff.1 known.2.1
  obtain ⟨pattern, patternFound, patternTokens⟩ := Option.map_eq_some_iff.1 patternKnown
  obtain ⟨expr, exprFound, exprTokens⟩ := Option.map_eq_some_iff.1 exprKnown
  obtain ⟨rfl, patternComposed⟩ := Node.composed?_eq_some patternFound
  obtain ⟨rfl, exprComposed⟩ := Node.composed?_eq_some exprFound
  exact ⟨program, pattern, expr, parsed, Array.eq_empty_of_size_eq_zero silent,
    Node.inside_of_below patternBelow, patternComposed, Node.inside_of_below exprBelow, exprComposed,
    patternTokens, exprTokens⟩

end Haskell

end Offside
