import Offside.Haskell.Grammar.Expressions

/-!
Whole programs: the module header, imports and top-level declarations, over the tower of nesting
levels.
-/

namespace Offside.Haskell.Grammar

set_option autoImplicit false

open Offside.Parse

/-- The level from which the given number of further levels may be entered. -/
def level : Nat → Level
  | 0 => .refusal
  | further + 1 =>
      let inner := level further
      { expression := nested .error (expressionProduction inner)
        pattern := nested .error (patternProduction inner)
        type := nested .error (typeProduction inner)
        expressionAtom := nested .error (atom inner)
        patternAtom := nested .error (patternAtom inner)
        parentheses := nested .error (parentheses inner)
        brackets := nested .error (brackets inner)
        declBlock := nested (fun _ => []) (block (decl inner))
        alternativeBlock := nested (fun _ => []) (block (alternative inner))
        statementBlock := nested (fun _ => []) (block (statement inner)) }

def outermost : Level := level Parser.nestingLimit

def entryFollows : Parse Bool := do
  match ← ahead with
  | .closeParen | .endOfInput => return false
  | _ => return true

def furtherEntryFollows : Parse Bool := do
  if ← accept .comma then entryFollows else return false

/-- Entries of a list in parentheses: the list ends where no comma follows, and may end after one. -/
def listed {α : Type} (item : Parse α) : Parse (List α) := do
  if ← entryFollows then
    let first ← item
    let later ← many furtherEntryFollows item
    return first :: later
  else return []

def members : Parse Members := do
  let start ← aheadSpan
  consume
  if ← isAt .doubleDot then
    let span ← aheadSpan
    consume
    let _ ← expectOrSkipTo .closeParen
    return .all span
  else
    let names ← listed variableOrConstructor
    let _ ← expectOrSkipTo .closeParen
    return .listed names (← spanFrom start)

def members? : Parse Members := do
  if ← isAt .openParen then members else return .absent

def selectedName (start : Span) : Parse Selection := do
  let name ← qualifiedIdentifier
  let members ← members?
  return .item name members (← spanFrom start)

/-- A whole module may be exported and not imported. -/
def allowModule (isExport : Bool) (start : Span) : Parse Unit := do
  if !isExport then
    modify fun parser => { parser with context := parser.context.report .unexpectedToken start }

def selectedModule (isExport : Bool) (start : Span) : Parse Selection := do
  consume
  allowModule isExport start
  let name ← moduleName
  return .wholeModule name (← spanFrom start)

/-- An entry of an export or import list. -/
def selection (isExport : Bool) : Parse Selection := do
  let start ← aheadSpan
  match ← ahead with
  | .kwModule => selectedModule isExport start
  | .openParen =>
      let name ← parenthesizedSymbol symbol
      return .item name .absent (← spanFrom start)
  | .identifier | .properIdentifier => selectedName start
  | _ =>
      fail
      return .item (.error start) .absent start

def selectionList (isExport : Bool) : Parse SelectionList := do
  let start ← aheadSpan
  consume
  let selections ← listed (selection isExport)
  let _ ← expectOrSkipTo .closeParen
  return { selections, span := (← spanFrom start) }

def selectionList? (isExport : Bool) : Parse (Option SelectionList) := do
  if ← isAt .openParen then return some (← selectionList isExport) else return none

def moduleHeader : Parse Decl := do
  let start ← aheadSpan
  consume
  let name ← moduleName
  let exports ← selectionList? true
  let _ ← expect .kwWhere
  return .moduleHeader { name, exports, span := (← spanFrom start) }

def renaming? : Parse (Option Name) := do
  if ← acceptWord "as" then some <$> moduleName else return none

/-- The list of an import, with whether it lists what is hidden. To hide without a list is an error. -/
def importList : Parse (Bool × Option SelectionList) := do
  let isHiding ← acceptWord "hiding"
  let selections ← selectionList? false
  if selections.isNone && isHiding then reportUnexpected
  return (isHiding, selections)

/-- An import. The words after the keyword are special here alone. -/
def importDecl : Parse Decl := do
  let start ← aheadSpan
  consume
  let isQualified ← acceptWord "qualified"
  let name ← moduleName
  let renamedTo ← renaming?
  let (isHiding, selections) ← importList
  return .importDecl
    { isQualified, moduleName := name, renamedTo, isHiding, selections
      span := (← spanFrom start) }

def unsupportedDecl : Parse Decl := do
  let start ← aheadSpan
  let keyword ← ahead
  consume
  skipToAny [.semicolon, .closeBrace]
  return .unsupported keyword (← spanFrom start)

/-- A declaration at the top of a module. An import after other declarations is reported. -/
def topDecl : Parse Decl := do
  match ← ahead with
  | .kwType | .kwData | .kwNewtype | .kwClass | .kwInstance | .kwDefault | .kwForeign
  | .kwDeriving => unsupportedDecl
  | .kwImport =>
      reportUnexpected
      importDecl
  | _ => decl outermost

def moduleBody : Parse (List Decl) := do
  consume
  let imports ← many (isAt .kwImport) (itemThenEnd importDecl)
  let decls ← many itemFollows (itemThenEnd topDecl)
  let _ ← expectOrSkipTo .closeBrace
  return imports ++ decls

def moduleHeader? : Parse (List Decl) := do
  if ← isAt .kwModule then (fun decl => [decl]) <$> moduleHeader else return []

def moduleBody? : Parse (List Decl) := do
  if ← isAt .openBrace then moduleBody else return []

/-- What is left of the input is reported once and skipped. -/
def skipToEnd : Parse Unit := do
  if !(← isAtEnd) then
    reportUnexpected
    skipTo .endOfInput

def program : Parse Program := do
  let start ← aheadSpan
  let header ← moduleHeader?
  let body ← moduleBody?
  skipToEnd
  return { decls := header ++ body, span := (← spanFrom start) }

end Offside.Haskell.Grammar
