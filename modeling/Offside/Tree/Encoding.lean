import Offside.Json
import Offside.Tree.Program

/-!
Trees as machine-readable values. How a span is written is left to the caller.
-/

namespace Offside

set_option autoImplicit false

def Position.toJson (place : Position) : Json :=
  .object [("line", .ofNat place.line), ("col", .ofNat place.column)]

def Span.toJson (span : Span) : Json :=
  .object
    [("file", .ofNat span.file.number), ("start", span.start.toJson), ("end", span.stop.toJson)]

variable (encode : Span → Json)

mutual

def Name.toJson : Name → Json
  | .simple span => .tagged "Simple" (.object [("loc", encode span)])
  | .qualified segments span =>
      .tagged "Nested" (.object [("names", .array (Name.listToJson segments)), ("loc", encode span)])
  | .operator span => .tagged "Punc" (.object [("loc", encode span)])
  | .special span => .tagged "Special" (.object [("loc", encode span)])
  | .error span => .tagged "Error" (.object [("loc", encode span)])

def Name.listToJson : List Name → List Json
  | [] => []
  | name :: later => name.toJson :: Name.listToJson later

end

mutual

def TypeTerm.toJson : TypeTerm → Json
  | .constructor name => .tagged "Constructor" (name.toJson encode)
  | .typeVariable name => .tagged "Variable" (name.toJson encode)
  | .application head arguments span =>
      .tagged "Application" (.object
        [("head", head.toJson), ("arguments", .array (TypeTerm.listToJson arguments)),
         ("loc", encode span)])
  | .function parameter result span =>
      .tagged "Function" (.object
        [("parameter", parameter.toJson), ("result", result.toJson), ("loc", encode span)])
  | .list element span =>
      .tagged "List" (.object [("element", element.toJson), ("loc", encode span)])
  | .tuple elements span =>
      .tagged "Tuple" (.object
        [("elements", .array (TypeTerm.listToJson elements)), ("loc", encode span)])
  | .unit span => .tagged "Unit" (.object [("loc", encode span)])
  | .constrained context body span =>
      .tagged "Qualified" (.object
        [("context", context.toJson), ("body", body.toJson), ("loc", encode span)])
  | .error span => .tagged "Error" (.object [("loc", encode span)])

def TypeTerm.listToJson : List TypeTerm → List Json
  | [] => []
  | type :: later => type.toJson :: TypeTerm.listToJson later

end

def Members.toJson : Members → Json
  | .absent => .string "Absent"
  | .all span => .tagged "All" (.object [("loc", encode span)])
  | .listed names span =>
      .tagged "Listed" (.object [("names", .array (Name.listToJson encode names)),
        ("loc", encode span)])

def Selection.toJson : Selection → Json
  | .wholeModule name span =>
      .tagged "Module" (.object [("name", name.toJson encode), ("loc", encode span)])
  | .item name members span =>
      .tagged "Item" (.object
        [("name", name.toJson encode), ("members", members.toJson encode), ("loc", encode span)])

def SelectionList.toJson (list : SelectionList) : Json :=
  .object
    [("selections", .ofList (Selection.toJson encode) list.selections), ("loc", encode list.span)]

def LiteralKind.toJson : LiteralKind → Json
  | .integer => .string "Integer"
  | .float => .string "Float"
  | .character => .string "Character"
  | .string => .string "String"

def Associativity.toJson : Associativity → Json
  | .left => .string "Left"
  | .right => .string "Right"
  | .none => .string "None"

def ModuleHeader.toJson (header : ModuleHeader) : Json :=
  .object
    [("name", header.name.toJson encode),
     ("exports", .ofOption (SelectionList.toJson encode) header.exports),
     ("loc", encode header.span)]

def ImportDecl.toJson (decl : ImportDecl) : Json :=
  .object
    [("qualified", .bool decl.isQualified), ("module", decl.moduleName.toJson encode),
     ("alias", .ofOption (Name.toJson encode) decl.renamedTo), ("hiding", .bool decl.isHiding),
     ("selections", .ofOption (SelectionList.toJson encode) decl.selections),
     ("loc", encode decl.span)]

def TypeSignature.toJson (signature : TypeSignature) : Json :=
  .object
    [("names", .array (Name.listToJson encode signature.names)),
     ("ty", signature.type.toJson encode), ("loc", encode signature.span)]

def FixityDecl.toJson (decl : FixityDecl) : Json :=
  .object
    [("associativity", decl.associativity.toJson),
     ("precedence", .ofOption .ofNat decl.precedence),
     ("operators", .array (Name.listToJson encode decl.operators)), ("loc", encode decl.span)]

mutual

def Expr.toJson : Expr → Json
  | .literal kind span =>
      .tagged "Literal" (.object [("kind", kind.toJson), ("loc", encode span)])
  | .identifier name => .tagged "Identifier" (name.toJson encode)
  | .wildcard span => .tagged "Wildcard" (.object [("loc", encode span)])
  | .application function arguments span =>
      .tagged "Application" (.object
        [("function", function.toJson), ("arguments", .array (Expr.listToJson arguments)),
         ("loc", encode span)])
  | .binary left operator right span =>
      .tagged "Infix" (.object
        [("left", left.toJson), ("operator", operator.toJson encode), ("right", right.toJson),
         ("loc", encode span)])
  | .negation operand span =>
      .tagged "Negation" (.object [("operand", operand.toJson), ("loc", encode span)])
  | .tuple elements span =>
      .tagged "Tuple" (.object
        [("elements", .array (Expr.listToJson elements)), ("loc", encode span)])
  | .list elements span =>
      .tagged "List" (.object
        [("elements", .array (Expr.listToJson elements)), ("loc", encode span)])
  | .unit span => .tagged "Unit" (.object [("loc", encode span)])
  | .parenthesized inner span =>
      .tagged "Parenthesized" (.object [("inner", inner.toJson), ("loc", encode span)])
  | .leftSection operand operator span =>
      .tagged "LeftSection" (.object
        [("operand", operand.toJson), ("operator", operator.toJson encode), ("loc", encode span)])
  | .rightSection operator operand span =>
      .tagged "RightSection" (.object
        [("operator", operator.toJson encode), ("operand", operand.toJson), ("loc", encode span)])
  | .asPattern name pattern span =>
      .tagged "AsPattern" (.object
        [("name", name.toJson encode), ("pattern", pattern.toJson), ("loc", encode span)])
  | .lazyPattern pattern span =>
      .tagged "Lazy" (.object [("pattern", pattern.toJson), ("loc", encode span)])
  | .lambda parameters body span =>
      .tagged "Lambda" (.object
        [("params", .array (Expr.listToJson parameters)), ("body", body.toJson),
         ("loc", encode span)])
  | .conditional condition thenBranch elseBranch span =>
      .tagged "If" (.object
        [("condition", condition.toJson), ("then_branch", thenBranch.toJson),
         ("else_branch", elseBranch.toJson), ("loc", encode span)])
  | .letIn decls body span =>
      .tagged "Let" (.object
        [("decls", .array (Decl.listToJson decls)), ("body", body.toJson), ("loc", encode span)])
  | .caseOf scrutinee alternatives span =>
      .tagged "Case" (.object
        [("scrutinee", scrutinee.toJson),
         ("alternatives", .array (Alternative.listToJson alternatives)), ("loc", encode span)])
  | .doBlock statements span =>
      .tagged "Do" (.object
        [("statements", .array (Statement.listToJson statements)), ("loc", encode span)])
  | .sequence first second last span =>
      .tagged "Sequence" (.object
        [("from", first.toJson), ("then", Expr.optionToJson second),
         ("to", Expr.optionToJson last), ("loc", encode span)])
  | .comprehension element qualifiers span =>
      .tagged "Comprehension" (.object
        [("element", element.toJson), ("qualifiers", .array (Statement.listToJson qualifiers)),
         ("loc", encode span)])
  | .annotated expr type span =>
      .tagged "Annotated" (.object
        [("expr", expr.toJson), ("ty", type.toJson encode), ("loc", encode span)])
  | .error span => .tagged "Error" (.object [("loc", encode span)])

def Expr.listToJson : List Expr → List Json
  | [] => []
  | expr :: later => expr.toJson :: Expr.listToJson later

def Expr.optionToJson : Option Expr → Json
  | none => .null
  | some expr => expr.toJson

def Alternative.toJson : Alternative → Json
  | ⟨pattern, rightSide, span⟩ =>
      .object [("pattern", pattern.toJson), ("rhs", rightSide.toJson), ("loc", encode span)]

def Alternative.listToJson : List Alternative → List Json
  | [] => []
  | alternative :: later => alternative.toJson :: Alternative.listToJson later

def Statement.toJson : Statement → Json
  | .bind pattern expr span =>
      .tagged "Bind" (.object
        [("pattern", pattern.toJson), ("expr", expr.toJson), ("loc", encode span)])
  | .letDecls decls span =>
      .tagged "Let" (.object [("decls", .array (Decl.listToJson decls)), ("loc", encode span)])
  | .expression expr => .tagged "Expression" expr.toJson

def Statement.listToJson : List Statement → List Json
  | [] => []
  | statement :: later => statement.toJson :: Statement.listToJson later

def RightSide.toJson : RightSide → Json
  | ⟨body, whereDecls, span⟩ =>
      .object
        [("body", body.toJson), ("where_decls", .array (Decl.listToJson whereDecls)),
         ("loc", encode span)]

def Body.toJson : Body → Json
  | .plain expr => .tagged "Plain" expr.toJson
  | .guarded alternatives =>
      .tagged "Guarded" (.array (GuardedExpr.listToJson alternatives))

def GuardedExpr.toJson : GuardedExpr → Json
  | ⟨guard, body, span⟩ =>
      .object [("guard", guard.toJson), ("body", body.toJson), ("loc", encode span)]

def GuardedExpr.listToJson : List GuardedExpr → List Json
  | [] => []
  | alternative :: later => alternative.toJson :: GuardedExpr.listToJson later

def Decl.toJson : Decl → Json
  | .moduleHeader header => .tagged "Module" (header.toJson encode)
  | .importDecl decl => .tagged "Import" (decl.toJson encode)
  | .typeSignature signature => .tagged "TypeSig" (signature.toJson encode)
  | .fixity decl => .tagged "Fixity" (decl.toJson encode)
  | .function name parameters betweenOperands rightSide span =>
      .tagged "Function" (.object
        [("name", name.toJson encode), ("params", .array (Expr.listToJson parameters)),
         ("infix", .bool betweenOperands), ("rhs", rightSide.toJson), ("loc", encode span)])
  | .patternBinding pattern rightSide span =>
      .tagged "PatternBinding" (.object
        [("pattern", pattern.toJson), ("rhs", rightSide.toJson), ("loc", encode span)])
  | .unsupported keyword span =>
      .tagged "Unsupported" (.object [("keyword", .string keyword.tag), ("loc", encode span)])
  | .empty span => .tagged "Empty" (.object [("loc", encode span)])
  | .error span => .tagged "Error" (.object [("loc", encode span)])

def Decl.listToJson : List Decl → List Json
  | [] => []
  | decl :: later => decl.toJson :: Decl.listToJson later

end

def Program.toJson (program : Program) : Json :=
  .object
    [("decls", .array (Decl.listToJson encode program.decls)), ("loc", encode program.span)]

end Offside
