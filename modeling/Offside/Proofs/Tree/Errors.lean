import Offside.Tree.Program

/-!
The error nodes of a tree, given by their spans: every place at which something was missing, in
whatever part of the tree it is. Names, types, expressions and declarations have error nodes.
-/

namespace Offside

set_option autoImplicit false

mutual

def Name.errors : Name → List Span
  | .qualified segments _ => Name.listErrors segments
  | .error span => [span]
  | .simple _ | .operator _ | .special _ => []

def Name.listErrors : List Name → List Span
  | [] => []
  | name :: later => name.errors ++ Name.listErrors later

end

mutual

def TypeTerm.errors : TypeTerm → List Span
  | .constructor name | .typeVariable name => name.errors
  | .application head arguments _ => head.errors ++ TypeTerm.listErrors arguments
  | .function parameter result _ => parameter.errors ++ result.errors
  | .list element _ => element.errors
  | .tuple elements _ => TypeTerm.listErrors elements
  | .unit _ => []
  | .constrained context body _ => context.errors ++ body.errors
  | .error span => [span]

def TypeTerm.listErrors : List TypeTerm → List Span
  | [] => []
  | type :: later => type.errors ++ TypeTerm.listErrors later

end

def Members.errors : Members → List Span
  | .absent | .all _ => []
  | .listed names _ => Name.listErrors names

def Selection.errors : Selection → List Span
  | .wholeModule name _ => name.errors
  | .item name members _ => name.errors ++ members.errors

def SelectionList.errors (list : SelectionList) : List Span :=
  list.selections.flatMap Selection.errors

def ModuleHeader.errors (header : ModuleHeader) : List Span :=
  header.name.errors ++ header.exports.elim [] SelectionList.errors

def ImportDecl.errors (decl : ImportDecl) : List Span :=
  decl.moduleName.errors ++ decl.renamedTo.elim [] Name.errors ++
    decl.selections.elim [] SelectionList.errors

def TypeSignature.errors (signature : TypeSignature) : List Span :=
  Name.listErrors signature.names ++ signature.type.errors

def FixityDecl.errors (decl : FixityDecl) : List Span := Name.listErrors decl.operators

mutual

def Expr.errors : Expr → List Span
  | .literal _ _ | .wildcard _ | .unit _ => []
  | .identifier name => name.errors
  | .application function arguments _ => function.errors ++ Expr.listErrors arguments
  | .binary left operator right _ => left.errors ++ operator.errors ++ right.errors
  | .negation operand _ => operand.errors
  | .tuple elements _ | .list elements _ => Expr.listErrors elements
  | .parenthesized inner _ => inner.errors
  | .leftSection operand operator _ => operand.errors ++ operator.errors
  | .rightSection operator operand _ => operator.errors ++ operand.errors
  | .asPattern name pattern _ => name.errors ++ pattern.errors
  | .lazyPattern pattern _ => pattern.errors
  | .lambda parameters body _ => Expr.listErrors parameters ++ body.errors
  | .conditional condition thenBranch elseBranch _ =>
    condition.errors ++ thenBranch.errors ++ elseBranch.errors
  | .letIn decls body _ => Decl.listErrors decls ++ body.errors
  | .caseOf scrutinee alternatives _ => scrutinee.errors ++ Alternative.listErrors alternatives
  | .doBlock statements _ => Statement.listErrors statements
  | .sequence first second last _ =>
    first.errors ++ Expr.optionErrors second ++ Expr.optionErrors last
  | .comprehension element qualifiers _ => element.errors ++ Statement.listErrors qualifiers
  | .annotated expr type _ => expr.errors ++ type.errors
  | .error span => [span]

def Expr.listErrors : List Expr → List Span
  | [] => []
  | expr :: later => expr.errors ++ Expr.listErrors later

def Expr.optionErrors : Option Expr → List Span
  | none => []
  | some expr => expr.errors

def Alternative.errors : Alternative → List Span
  | ⟨pattern, rightSide, _⟩ => pattern.errors ++ rightSide.errors

def Alternative.listErrors : List Alternative → List Span
  | [] => []
  | alternative :: later => alternative.errors ++ Alternative.listErrors later

def Statement.errors : Statement → List Span
  | .bind pattern expr _ => pattern.errors ++ expr.errors
  | .letDecls decls _ => Decl.listErrors decls
  | .expression expr => expr.errors

def Statement.listErrors : List Statement → List Span
  | [] => []
  | statement :: later => statement.errors ++ Statement.listErrors later

def RightSide.errors : RightSide → List Span
  | ⟨body, whereDecls, _⟩ => body.errors ++ Decl.listErrors whereDecls

def Body.errors : Body → List Span
  | .plain expr => expr.errors
  | .guarded alternatives => GuardedExpr.listErrors alternatives

def GuardedExpr.errors : GuardedExpr → List Span
  | ⟨guard, body, _⟩ => guard.errors ++ body.errors

def GuardedExpr.listErrors : List GuardedExpr → List Span
  | [] => []
  | alternative :: later => alternative.errors ++ GuardedExpr.listErrors later

def Decl.errors : Decl → List Span
  | .moduleHeader header => header.errors
  | .importDecl decl => decl.errors
  | .typeSignature signature => signature.errors
  | .fixity decl => decl.errors
  | .function name parameters _ rightSide _ =>
    name.errors ++ Expr.listErrors parameters ++ rightSide.errors
  | .patternBinding pattern rightSide _ => pattern.errors ++ rightSide.errors
  | .unsupported _ _ | .empty _ => []
  | .error span => [span]

def Decl.listErrors : List Decl → List Span
  | [] => []
  | decl :: later => decl.errors ++ Decl.listErrors later

end

def Program.errors (program : Program) : List Span := Decl.listErrors program.decls

attribute [simp] Name.errors TypeTerm.errors Members.errors Selection.errors Expr.errors
  Alternative.errors Statement.errors RightSide.errors Body.errors GuardedExpr.errors Decl.errors

/-- A function that goes through a list as the ones above do collects what its elements have. -/
private theorem mem_collected {α : Type} {errors : α → List Span} {listErrors : List α → List Span}
    (nil : listErrors [] = []) (cons : ∀ first later,
      listErrors (first :: later) = errors first ++ listErrors later) (pieces : List α)
    (span : Span) : span ∈ listErrors pieces ↔ ∃ piece ∈ pieces, span ∈ errors piece := by
  induction pieces with
  | nil => simp [nil]
  | cons first later induction => simp [cons, induction]

theorem Name.mem_listErrors {names : List Name} {span : Span} :
    span ∈ Name.listErrors names ↔ ∃ name ∈ names, span ∈ name.errors :=
  mem_collected (by simp [Name.listErrors]) (by simp [Name.listErrors]) names span

theorem TypeTerm.mem_listErrors {types : List TypeTerm} {span : Span} :
    span ∈ TypeTerm.listErrors types ↔ ∃ type ∈ types, span ∈ type.errors :=
  mem_collected (by simp [TypeTerm.listErrors]) (by simp [TypeTerm.listErrors]) types span

theorem Expr.mem_listErrors {exprs : List Expr} {span : Span} :
    span ∈ Expr.listErrors exprs ↔ ∃ expr ∈ exprs, span ∈ expr.errors :=
  mem_collected (by simp [Expr.listErrors]) (by simp [Expr.listErrors]) exprs span

theorem Alternative.mem_listErrors {alternatives : List Alternative} {span : Span} :
    span ∈ Alternative.listErrors alternatives ↔
      ∃ alternative ∈ alternatives, span ∈ alternative.errors :=
  mem_collected (by simp [Alternative.listErrors]) (by simp [Alternative.listErrors])
    alternatives span

theorem Statement.mem_listErrors {statements : List Statement} {span : Span} :
    span ∈ Statement.listErrors statements ↔ ∃ statement ∈ statements, span ∈ statement.errors :=
  mem_collected (by simp [Statement.listErrors]) (by simp [Statement.listErrors]) statements span

theorem GuardedExpr.mem_listErrors {alternatives : List GuardedExpr} {span : Span} :
    span ∈ GuardedExpr.listErrors alternatives ↔
      ∃ alternative ∈ alternatives, span ∈ alternative.errors :=
  mem_collected (by simp [GuardedExpr.listErrors]) (by simp [GuardedExpr.listErrors])
    alternatives span

theorem Decl.mem_listErrors {decls : List Decl} {span : Span} :
    span ∈ Decl.listErrors decls ↔ ∃ decl ∈ decls, span ∈ decl.errors :=
  mem_collected (by simp [Decl.listErrors]) (by simp [Decl.listErrors]) decls span

end Offside
