import Offside.Tree.Program

/-!
Trees with other spans. A tree is moved by changing every span in it; whatever else it says stays. What
is read at another place of a text, or in another text, is told apart from the first by nothing else.
-/

namespace Offside

set_option autoImplicit false

mutual

def Name.moved (change : Span → Span) : Name → Name
  | .simple span => .simple (change span)
  | .qualified segments span => .qualified (Name.listMoved change segments) (change span)
  | .operator span => .operator (change span)
  | .special span => .special (change span)
  | .error span => .error (change span)

def Name.listMoved (change : Span → Span) : List Name → List Name
  | [] => []
  | name :: later => name.moved change :: Name.listMoved change later

end

mutual

def TypeTerm.moved (change : Span → Span) : TypeTerm → TypeTerm
  | .constructor name => .constructor (name.moved change)
  | .typeVariable name => .typeVariable (name.moved change)
  | .application head arguments span =>
    .application (head.moved change) (TypeTerm.listMoved change arguments) (change span)
  | .function parameter result span =>
    .function (parameter.moved change) (result.moved change) (change span)
  | .list element span => .list (element.moved change) (change span)
  | .tuple elements span => .tuple (TypeTerm.listMoved change elements) (change span)
  | .unit span => .unit (change span)
  | .constrained context body span =>
    .constrained (context.moved change) (body.moved change) (change span)
  | .error span => .error (change span)

def TypeTerm.listMoved (change : Span → Span) : List TypeTerm → List TypeTerm
  | [] => []
  | type :: later => type.moved change :: TypeTerm.listMoved change later

end

def Members.moved (change : Span → Span) : Members → Members
  | .absent => .absent
  | .all span => .all (change span)
  | .listed names span => .listed (names.map (Name.moved change)) (change span)

def Selection.moved (change : Span → Span) : Selection → Selection
  | .wholeModule name span => .wholeModule (name.moved change) (change span)
  | .item name members span => .item (name.moved change) (members.moved change) (change span)

def SelectionList.moved (change : Span → Span) (list : SelectionList) : SelectionList :=
  ⟨list.selections.map (Selection.moved change), change list.span⟩

def ModuleHeader.moved (change : Span → Span) (header : ModuleHeader) : ModuleHeader :=
  ⟨header.name.moved change, header.exports.map (SelectionList.moved change), change header.span⟩

def ImportDecl.moved (change : Span → Span) (decl : ImportDecl) : ImportDecl :=
  ⟨decl.isQualified, decl.moduleName.moved change, decl.renamedTo.map (Name.moved change),
    decl.isHiding, decl.selections.map (SelectionList.moved change), change decl.span⟩

def TypeSignature.moved (change : Span → Span) (signature : TypeSignature) : TypeSignature :=
  ⟨signature.names.map (Name.moved change), signature.type.moved change, change signature.span⟩

def FixityDecl.moved (change : Span → Span) (decl : FixityDecl) : FixityDecl :=
  ⟨decl.associativity, decl.precedence, decl.operators.map (Name.moved change), change decl.span⟩

mutual

def Expr.moved (change : Span → Span) : Expr → Expr
  | .literal kind span => .literal kind (change span)
  | .identifier name => .identifier (name.moved change)
  | .wildcard span => .wildcard (change span)
  | .application function arguments span =>
    .application (function.moved change) (Expr.listMoved change arguments) (change span)
  | .binary left operator right span =>
    .binary (left.moved change) (operator.moved change) (right.moved change) (change span)
  | .negation operand span => .negation (operand.moved change) (change span)
  | .tuple elements span => .tuple (Expr.listMoved change elements) (change span)
  | .list elements span => .list (Expr.listMoved change elements) (change span)
  | .unit span => .unit (change span)
  | .parenthesized inner span => .parenthesized (inner.moved change) (change span)
  | .leftSection operand operator span =>
    .leftSection (operand.moved change) (operator.moved change) (change span)
  | .rightSection operator operand span =>
    .rightSection (operator.moved change) (operand.moved change) (change span)
  | .asPattern name pattern span =>
    .asPattern (name.moved change) (pattern.moved change) (change span)
  | .lazyPattern pattern span => .lazyPattern (pattern.moved change) (change span)
  | .lambda parameters body span =>
    .lambda (Expr.listMoved change parameters) (body.moved change) (change span)
  | .conditional condition thenBranch elseBranch span =>
    .conditional (condition.moved change) (thenBranch.moved change) (elseBranch.moved change)
      (change span)
  | .letIn decls body span =>
    .letIn (Decl.listMoved change decls) (body.moved change) (change span)
  | .caseOf scrutinee alternatives span =>
    .caseOf (scrutinee.moved change) (Alternative.listMoved change alternatives) (change span)
  | .doBlock statements span => .doBlock (Statement.listMoved change statements) (change span)
  | .sequence first second last span =>
    .sequence (first.moved change) (Expr.optionMoved change second)
      (Expr.optionMoved change last) (change span)
  | .comprehension element qualifiers span =>
    .comprehension (element.moved change) (Statement.listMoved change qualifiers) (change span)
  | .annotated expr type span =>
    .annotated (expr.moved change) (type.moved change) (change span)
  | .error span => .error (change span)

def Expr.listMoved (change : Span → Span) : List Expr → List Expr
  | [] => []
  | expr :: later => expr.moved change :: Expr.listMoved change later

def Expr.optionMoved (change : Span → Span) : Option Expr → Option Expr
  | none => none
  | some expr => some (expr.moved change)

def Alternative.moved (change : Span → Span) : Alternative → Alternative
  | ⟨pattern, rightSide, span⟩ => ⟨pattern.moved change, rightSide.moved change, change span⟩

def Alternative.listMoved (change : Span → Span) : List Alternative → List Alternative
  | [] => []
  | alternative :: later => alternative.moved change :: Alternative.listMoved change later

def Statement.moved (change : Span → Span) : Statement → Statement
  | .bind pattern expr span => .bind (pattern.moved change) (expr.moved change) (change span)
  | .letDecls decls span => .letDecls (Decl.listMoved change decls) (change span)
  | .expression expr => .expression (expr.moved change)

def Statement.listMoved (change : Span → Span) : List Statement → List Statement
  | [] => []
  | statement :: later => statement.moved change :: Statement.listMoved change later

def RightSide.moved (change : Span → Span) : RightSide → RightSide
  | ⟨body, whereDecls, span⟩ =>
    ⟨body.moved change, Decl.listMoved change whereDecls, change span⟩

def Body.moved (change : Span → Span) : Body → Body
  | .plain expr => .plain (expr.moved change)
  | .guarded alternatives => .guarded (GuardedExpr.listMoved change alternatives)

def GuardedExpr.moved (change : Span → Span) : GuardedExpr → GuardedExpr
  | ⟨guard, body, span⟩ => ⟨guard.moved change, body.moved change, change span⟩

def GuardedExpr.listMoved (change : Span → Span) : List GuardedExpr → List GuardedExpr
  | [] => []
  | alternative :: later => alternative.moved change :: GuardedExpr.listMoved change later

def Decl.moved (change : Span → Span) : Decl → Decl
  | .moduleHeader header => .moduleHeader (header.moved change)
  | .importDecl decl => .importDecl (decl.moved change)
  | .typeSignature signature => .typeSignature (signature.moved change)
  | .fixity decl => .fixity (decl.moved change)
  | .function name parameters betweenOperands rightSide span =>
    .function (name.moved change) (Expr.listMoved change parameters) betweenOperands
      (rightSide.moved change) (change span)
  | .patternBinding pattern rightSide span =>
    .patternBinding (pattern.moved change) (rightSide.moved change) (change span)
  | .unsupported keyword span => .unsupported keyword (change span)
  | .empty span => .empty (change span)
  | .error span => .error (change span)

def Decl.listMoved (change : Span → Span) : List Decl → List Decl
  | [] => []
  | decl :: later => decl.moved change :: Decl.listMoved change later

end

def Program.moved (change : Span → Span) (program : Program) : Program :=
  ⟨program.decls.map (Decl.moved change), change program.span⟩

section Lists

variable {change : Span → Span}

/-- A function that goes through a list as the ones above do changes each of its elements. -/
private theorem moved_elements {α : Type} {moved : α → α} {listMoved : List α → List α}
    (nil : listMoved [] = []) (cons : ∀ first later,
      listMoved (first :: later) = moved first :: listMoved later) (pieces : List α) :
    listMoved pieces = pieces.map moved := by
  induction pieces with
  | nil => simp [nil]
  | cons first later induction => simp [cons, induction]

@[simp] theorem Name.listMoved_eq (names : List Name) :
    Name.listMoved change names = names.map (Name.moved change) :=
  moved_elements (by simp [Name.listMoved]) (by simp [Name.listMoved]) names

@[simp] theorem TypeTerm.listMoved_eq (types : List TypeTerm) :
    TypeTerm.listMoved change types = types.map (TypeTerm.moved change) :=
  moved_elements (by simp [TypeTerm.listMoved]) (by simp [TypeTerm.listMoved]) types

@[simp] theorem Expr.listMoved_eq (exprs : List Expr) :
    Expr.listMoved change exprs = exprs.map (Expr.moved change) :=
  moved_elements (by simp [Expr.listMoved]) (by simp [Expr.listMoved]) exprs

@[simp] theorem Expr.optionMoved_eq (expr : Option Expr) :
    Expr.optionMoved change expr = expr.map (Expr.moved change) := by
  cases expr with
  | none => simp [Expr.optionMoved]
  | some expr => simp [Expr.optionMoved]

@[simp] theorem Alternative.listMoved_eq (alternatives : List Alternative) :
    Alternative.listMoved change alternatives = alternatives.map (Alternative.moved change) :=
  moved_elements (by simp [Alternative.listMoved]) (by simp [Alternative.listMoved]) alternatives

@[simp] theorem Statement.listMoved_eq (statements : List Statement) :
    Statement.listMoved change statements = statements.map (Statement.moved change) :=
  moved_elements (by simp [Statement.listMoved]) (by simp [Statement.listMoved]) statements

@[simp] theorem GuardedExpr.listMoved_eq (alternatives : List GuardedExpr) :
    GuardedExpr.listMoved change alternatives = alternatives.map (GuardedExpr.moved change) :=
  moved_elements (by simp [GuardedExpr.listMoved]) (by simp [GuardedExpr.listMoved]) alternatives

@[simp] theorem Decl.listMoved_eq (decls : List Decl) :
    Decl.listMoved change decls = decls.map (Decl.moved change) :=
  moved_elements (by simp [Decl.listMoved]) (by simp [Decl.listMoved]) decls

attribute [simp] Name.moved TypeTerm.moved Members.moved Selection.moved SelectionList.moved
  ModuleHeader.moved ImportDecl.moved TypeSignature.moved FixityDecl.moved Expr.moved
  Alternative.moved Statement.moved RightSide.moved Body.moved GuardedExpr.moved Decl.moved

@[simp] theorem Name.span_moved (name : Name) : (name.moved change).span = change name.span := by
  cases name <;> simp [Name.span]

@[simp] theorem TypeTerm.span_moved (type : TypeTerm) :
    (type.moved change).span = change type.span := by
  cases type <;> simp [TypeTerm.span]

@[simp] theorem Expr.span_moved (expr : Expr) : (expr.moved change).span = change expr.span := by
  cases expr <;> simp [Expr.span]

end Lists

section Identity

/-! A tree whose spans stay is the same tree. -/

mutual

theorem Name.moved_id : (name : Name) → name.moved id = name
  | .qualified segments span => by
      rw [Name.moved, Name.listMoved_id segments]
      rfl
  | .simple _ | .operator _ | .special _ | .error _ => rfl

theorem Name.listMoved_id : (names : List Name) → Name.listMoved id names = names
  | [] => rfl
  | name :: later => by rw [Name.listMoved, name.moved_id, Name.listMoved_id later]

end

mutual

theorem TypeTerm.moved_id : (type : TypeTerm) → type.moved id = type
  | .constructor name | .typeVariable name => by rw [TypeTerm.moved, name.moved_id]
  | .application head arguments span => by
      rw [TypeTerm.moved, head.moved_id, TypeTerm.listMoved_id arguments]
      rfl
  | .function parameter result span => by
      rw [TypeTerm.moved, parameter.moved_id, result.moved_id]
      rfl
  | .list element span => by
      rw [TypeTerm.moved, element.moved_id]
      rfl
  | .tuple elements span => by
      rw [TypeTerm.moved, TypeTerm.listMoved_id elements]
      rfl
  | .constrained context body span => by
      rw [TypeTerm.moved, context.moved_id, body.moved_id]
      rfl
  | .unit _ | .error _ => rfl

theorem TypeTerm.listMoved_id : (types : List TypeTerm) → TypeTerm.listMoved id types = types
  | [] => rfl
  | type :: later => by rw [TypeTerm.listMoved, type.moved_id, TypeTerm.listMoved_id later]

end

private theorem map_same {α : Type} {moved : α → α} (same : ∀ value, moved value = value) :
    List.map moved = id ∧ Option.map moved = id := by
  rw [show moved = id from funext same]
  exact ⟨List.map_id_fun, Option.map_id_fun⟩

theorem Members.moved_id (members : Members) : members.moved id = members := by
  cases members <;> simp [Members.moved, map_same Name.moved_id]

theorem Selection.moved_id (selection : Selection) : selection.moved id = selection := by
  cases selection with
  | wholeModule name span =>
    rw [Selection.moved, name.moved_id]
    rfl
  | item name members span =>
    rw [Selection.moved, name.moved_id, members.moved_id]
    rfl

theorem SelectionList.moved_id (list : SelectionList) : list.moved id = list := by
  simp [SelectionList.moved, map_same Selection.moved_id]

theorem ModuleHeader.moved_id (header : ModuleHeader) : header.moved id = header := by
  simp [ModuleHeader.moved, Name.moved_id, map_same SelectionList.moved_id]

theorem ImportDecl.moved_id (decl : ImportDecl) : decl.moved id = decl := by
  simp [ImportDecl.moved, Name.moved_id, map_same Name.moved_id, map_same SelectionList.moved_id]

theorem TypeSignature.moved_id (signature : TypeSignature) : signature.moved id = signature := by
  simp [TypeSignature.moved, TypeTerm.moved_id, map_same Name.moved_id]

theorem FixityDecl.moved_id (decl : FixityDecl) : decl.moved id = decl := by
  simp [FixityDecl.moved, map_same Name.moved_id]

mutual

theorem Expr.moved_id : (expr : Expr) → expr.moved id = expr
  | .identifier name => by rw [Expr.moved, name.moved_id]
  | .application function arguments span => by
      rw [Expr.moved, function.moved_id, Expr.listMoved_id arguments]
      rfl
  | .binary left operator right span => by
      rw [Expr.moved, left.moved_id, operator.moved_id, right.moved_id]
      rfl
  | .negation operand span => by
      rw [Expr.moved, operand.moved_id]
      rfl
  | .tuple elements span | .list elements span => by
      rw [Expr.moved, Expr.listMoved_id elements]
      rfl
  | .parenthesized inner span => by
      rw [Expr.moved, inner.moved_id]
      rfl
  | .leftSection operand operator span | .rightSection operator operand span => by
      rw [Expr.moved, operand.moved_id, operator.moved_id]
      rfl
  | .asPattern name pattern span => by
      rw [Expr.moved, name.moved_id, pattern.moved_id]
      rfl
  | .lazyPattern pattern span => by
      rw [Expr.moved, pattern.moved_id]
      rfl
  | .lambda parameters body span => by
      rw [Expr.moved, Expr.listMoved_id parameters, body.moved_id]
      rfl
  | .conditional condition thenBranch elseBranch span => by
      rw [Expr.moved, condition.moved_id, thenBranch.moved_id, elseBranch.moved_id]
      rfl
  | .letIn decls body span => by
      rw [Expr.moved, Decl.listMoved_id decls, body.moved_id]
      rfl
  | .caseOf scrutinee alternatives span => by
      rw [Expr.moved, scrutinee.moved_id, Alternative.listMoved_id alternatives]
      rfl
  | .doBlock statements span => by
      rw [Expr.moved, Statement.listMoved_id statements]
      rfl
  | .sequence first second last span => by
      rw [Expr.moved, first.moved_id, Expr.optionMoved_id second, Expr.optionMoved_id last]
      rfl
  | .comprehension element qualifiers span => by
      rw [Expr.moved, element.moved_id, Statement.listMoved_id qualifiers]
      rfl
  | .annotated expr type span => by
      rw [Expr.moved, expr.moved_id, type.moved_id]
      rfl
  | .literal _ _ | .wildcard _ | .unit _ | .error _ => rfl

theorem Expr.listMoved_id : (exprs : List Expr) → Expr.listMoved id exprs = exprs
  | [] => rfl
  | expr :: later => by rw [Expr.listMoved, expr.moved_id, Expr.listMoved_id later]

theorem Expr.optionMoved_id : (expr : Option Expr) → Expr.optionMoved id expr = expr
  | none => rfl
  | some expr => by rw [Expr.optionMoved, expr.moved_id]

theorem Alternative.moved_id : (alternative : Alternative) → alternative.moved id = alternative
  | ⟨pattern, rightSide, span⟩ => by
      rw [Alternative.moved, pattern.moved_id, rightSide.moved_id]
      rfl

theorem Alternative.listMoved_id :
    (alternatives : List Alternative) → Alternative.listMoved id alternatives = alternatives
  | [] => rfl
  | alternative :: later => by
      rw [Alternative.listMoved, alternative.moved_id, Alternative.listMoved_id later]

theorem Statement.moved_id : (statement : Statement) → statement.moved id = statement
  | .bind pattern expr span => by
      rw [Statement.moved, pattern.moved_id, expr.moved_id]
      rfl
  | .letDecls decls span => by
      rw [Statement.moved, Decl.listMoved_id decls]
      rfl
  | .expression expr => by rw [Statement.moved, expr.moved_id]

theorem Statement.listMoved_id :
    (statements : List Statement) → Statement.listMoved id statements = statements
  | [] => rfl
  | statement :: later => by
      rw [Statement.listMoved, statement.moved_id, Statement.listMoved_id later]

theorem RightSide.moved_id : (rightSide : RightSide) → rightSide.moved id = rightSide
  | ⟨body, whereDecls, span⟩ => by
      rw [RightSide.moved, body.moved_id, Decl.listMoved_id whereDecls]
      rfl

theorem Body.moved_id : (body : Body) → body.moved id = body
  | .plain expr => by rw [Body.moved, expr.moved_id]
  | .guarded alternatives => by rw [Body.moved, GuardedExpr.listMoved_id alternatives]

theorem GuardedExpr.moved_id : (guarded : GuardedExpr) → guarded.moved id = guarded
  | ⟨guard, body, span⟩ => by
      rw [GuardedExpr.moved, guard.moved_id, body.moved_id]
      rfl

theorem GuardedExpr.listMoved_id :
    (alternatives : List GuardedExpr) → GuardedExpr.listMoved id alternatives = alternatives
  | [] => rfl
  | alternative :: later => by
      rw [GuardedExpr.listMoved, alternative.moved_id, GuardedExpr.listMoved_id later]

theorem Decl.moved_id : (decl : Decl) → decl.moved id = decl
  | .moduleHeader header => by rw [Decl.moved, header.moved_id]
  | .importDecl decl => by rw [Decl.moved, decl.moved_id]
  | .typeSignature signature => by rw [Decl.moved, signature.moved_id]
  | .fixity decl => by rw [Decl.moved, decl.moved_id]
  | .function name parameters betweenOperands rightSide span => by
      rw [Decl.moved, name.moved_id, Expr.listMoved_id parameters, rightSide.moved_id]
      rfl
  | .patternBinding pattern rightSide span => by
      rw [Decl.moved, pattern.moved_id, rightSide.moved_id]
      rfl
  | .unsupported _ _ | .empty _ | .error _ => rfl

theorem Decl.listMoved_id : (decls : List Decl) → Decl.listMoved id decls = decls
  | [] => rfl
  | decl :: later => by rw [Decl.listMoved, decl.moved_id, Decl.listMoved_id later]

end

theorem Program.moved_id (program : Program) : program.moved id = program := by
  simp [Program.moved, map_same Decl.moved_id]

end Identity

end Offside
