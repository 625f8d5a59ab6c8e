import Offside.Haskell.Parse
import Offside.Proofs.Conduct.Expressions

/-!
Headers, imports and whole programs under a conduct. An entry of an import list may report a token that
it has passed; it starts right behind a parenthesis or a comma, in a fresh state.
-/

namespace Offside.Haskell.Grammar

set_option autoImplicit false

open Offside.Parse

variable {α : Type} {kind : Conduct} {inner other : Level}

theorem entryFollows_peeks : Peeks entryFollows := by
  refine .ahead fun token => ?_
  split
  · exact fun _ => rfl
  · exact fun _ => rfl
  · exact fun _ => rfl

theorem entryFollows_stays : Stays kind entryFollows := entryFollows_peeks.stays

theorem furtherEntryFollows_stays : Stays kind furtherEntryFollows :=
  (Agrees.accept _).bind fun _ => .ite entryFollows_stays (.pure _)

/-- A further entry is called for right behind a comma. -/
theorem fresh_of_furtherEntryFollows {parser : Parser} (starts : kind.starts parser)
    (goes : (furtherEntryFollows parser).1 = true) : kind.fresh (furtherEntryFollows parser).2 := by
  unfold furtherEntryFollows at goes ⊢
  rw [bind_apply, accept_apply (by decide)] at goes ⊢
  by_cases comma : parser.ahead = .comma
  · rw [if_pos comma]
    change kind.fresh (entryFollows parser.consume).2
    rw [entryFollows_peeks]
    exact kind.fresh_consume starts
  · rw [if_neg comma] at goes
    cases goes

theorem listed_fresh {item : Parse α} (made : StaysFresh kind item) :
    StaysFresh kind (listed item) := by
  have later : Stays kind (many furtherEntryFollows item) :=
    Agrees.many_from kind.fresh furtherEntryFollows_stays
      (fun _ starts => fresh_of_furtherEntryFollows starts) made
  intro parser starts fresh
  unfold AgreesAt listed
  rw [bind_apply, entryFollows_peeks]
  split
  · exact made.bind (fun _ => later.bind fun _ => .pure _) parser starts fresh
  · exact ⟨rfl, kind.refl parser⟩

theorem members_stays : Stays kind members :=
  .look fun _ => Agrees.consume_bind <| .look fun _ => .ite
    (.of_stays <| .look fun _ => Agrees.consume.bind fun _ => (Agrees.expectOrSkipTo _).bind fun _ =>
      .pure _)
    ((listed_fresh (.of_stays variableOrConstructor_stays)).bind fun _ =>
      (Agrees.expectOrSkipTo _).bind fun _ => .look fun _ => .pure _)

theorem members?_stays : Stays kind members? := .look fun _ => .ite members_stays (.pure _)

theorem selectedName_stays (start : Span) : Stays kind (selectedName start) :=
  qualifiedIdentifier_stays.bind fun _ => members?_stays.bind fun _ => .look fun _ => .pure _

/-- A module is no entry of an import list; its keyword is reported after it was passed. -/
theorem selection_fresh (isExport : Bool) : StaysFresh kind (selection isExport) := by
  have whole : ∀ start, Stays kind (do
      let name ← moduleName
      return Selection.wholeModule name (← spanFrom start)) :=
    fun start => moduleName_stays.bind fun _ => .look fun _ => .pure _
  refine fun parser starts fresh => AgreesAt.look (AgreesAt.look ?_)
  split
  · cases isExport with
    | true => exact (Agrees.consume.bind fun _ => whole _) parser starts
    | false => exact StaysFresh.reportPassed (whole _) parser starts fresh
  · exact ((parenthesizedSymbol_stays symbol_stays).bind fun _ => .look fun _ => .pure _) parser
      starts
  · exact selectedName_stays _ parser starts
  · exact selectedName_stays _ parser starts
  · exact (Agrees.fail.bind fun _ => .pure _) parser starts

theorem selectionList_stays (isExport : Bool) : Stays kind (selectionList isExport) :=
  .look fun _ => Agrees.consume_bind <| (listed_fresh (selection_fresh isExport)).bind fun _ =>
    (Agrees.expectOrSkipTo _).bind fun _ => .look fun _ => .pure _

theorem selectionList?_stays (isExport : Bool) : Stays kind (selectionList? isExport) :=
  .look fun _ => .ite ((selectionList_stays isExport).bind fun _ => .pure _) (.pure _)

theorem moduleHeader_stays : Stays kind moduleHeader :=
  .look fun _ => Agrees.consume.bind fun _ => moduleName_stays.bind fun _ =>
    (selectionList?_stays true).bind fun _ => (Agrees.expect _).bind fun _ =>
      .look fun _ => .pure _

theorem renaming?_stays : Stays kind renaming? :=
  (Agrees.acceptWord _).bind fun _ => .ite moduleName_stays.map (.pure none)

theorem importList_stays : Stays kind importList :=
  (Agrees.acceptWord _).bind fun _ => (selectionList?_stays false).bind fun _ =>
    .ite (Agrees.reportUnexpected.bind fun _ => .pure _) (.pure _)

theorem importDecl_stays : Stays kind importDecl :=
  .look fun _ => Agrees.consume.bind fun _ => (Agrees.acceptWord _).bind fun _ =>
    moduleName_stays.bind fun _ => renaming?_stays.bind fun _ => importList_stays.bind fun _ =>
      .look fun _ => .pure _

theorem unsupportedDecl_stays : Stays kind unsupportedDecl :=
  .look fun _ => .look fun _ => Agrees.consume.bind fun _ => (Agrees.skipToAny _).bind fun _ =>
    .look fun _ => .pure _

/-- A declaration at the top of a module whose declarations are read over a given level. -/
def topDeclOver (outer : Level) : Parse Decl := do
  match ← ahead with
  | .kwType | .kwData | .kwNewtype | .kwClass | .kwInstance | .kwDefault | .kwForeign
  | .kwDeriving => unsupportedDecl
  | .kwImport =>
    reportUnexpected
    importDecl
  | _ => decl outer

def moduleBodyOver (outer : Level) : Parse (List Decl) := do
  consume
  let imports ← many (isAt .kwImport) (itemThenEnd importDecl)
  let decls ← many itemFollows (itemThenEnd (topDeclOver outer))
  let _ ← expectOrSkipTo .closeBrace
  return imports ++ decls

def moduleBodyOver? (outer : Level) : Parse (List Decl) := do
  if ← isAt .openBrace then moduleBodyOver outer else return []

def programOver (outer : Level) : Parse Program := do
  let start ← aheadSpan
  let header ← moduleHeader?
  let body ← moduleBodyOver? outer
  skipToEnd
  return { decls := header ++ body, span := (← spanFrom start) }

theorem moduleHeader?_stays : Stays kind moduleHeader? :=
  .look fun _ => .ite moduleHeader_stays.map (.pure [])

theorem skipToEnd_stays : Stays kind skipToEnd :=
  .look fun _ => .ite (Agrees.reportUnexpected.bind fun _ => .skipTo _) (.pure ())

theorem topDeclOver_outermost : topDeclOver outermost = topDecl := rfl

theorem programOver_outermost : programOver outermost = program := rfl

section

variable (agrees : inner.Agrees kind other)

include agrees

theorem topDeclOver_agrees : Agrees kind (topDeclOver inner) (topDeclOver other) := by
  refine .look fun token => ?_
  split
  iterate 8
    · exact unsupportedDecl_stays
  · exact Agrees.reportUnexpected.bind fun _ => importDecl_stays
  · exact decl_agrees agrees

theorem moduleBodyOver_agrees : Agrees kind (moduleBodyOver inner) (moduleBodyOver other) :=
  Agrees.consume.bind fun _ =>
    (Agrees.many (.look fun _ => .pure _) (itemThenEnd_agrees importDecl_stays)).bind fun _ =>
      (Agrees.many itemFollows_stays (itemThenEnd_agrees (topDeclOver_agrees agrees))).bind
        fun _ => (Agrees.expectOrSkipTo _).bind fun _ => .pure _

theorem moduleBodyOver?_agrees : Agrees kind (moduleBodyOver? inner) (moduleBodyOver? other) :=
  .look fun _ => .ite (moduleBodyOver_agrees agrees) (.pure [])

theorem programOver_agrees : Agrees kind (programOver inner) (programOver other) :=
  .look fun _ => moduleHeader?_stays.bind fun _ => (moduleBodyOver?_agrees agrees).bind fun _ =>
    skipToEnd_stays.bind fun _ => .look fun _ => .pure _

end

end Offside.Haskell.Grammar
