import Offside.Token
import Offside.Tree.Selection
import Offside.Tree.TypeTerm

/-!
Trees of Haskell programs. Expressions and patterns share one type, since which of the two is read is
often known only afterwards. Operator chains lean to the left, as fixities are not resolved here. A
place where nothing sensible stood is an error node at the token found there.
-/

namespace Offside

set_option autoImplicit false

inductive LiteralKind where
  | integer
  | float
  | character
  | string
deriving DecidableEq

inductive Associativity where
  | left
  | right
  | none
deriving DecidableEq

structure ModuleHeader where
  name : Name
  exports : Option SelectionList
  span : Span

structure ImportDecl where
  isQualified : Bool
  moduleName : Name
  renamedTo : Option Name
  /-- The list names what is left out. -/
  isHiding : Bool
  selections : Option SelectionList
  span : Span

structure TypeSignature where
  names : List Name
  type : TypeTerm
  span : Span

structure FixityDecl where
  associativity : Associativity
  precedence : Option Nat
  operators : List Name
  span : Span

mutual

inductive Expr where
  | literal (kind : LiteralKind) (span : Span)
  | identifier (name : Name)
  | wildcard (span : Span)
  | application (function : Expr) (arguments : List Expr) (span : Span)
  | binary (left : Expr) (operator : Name) (right : Expr) (span : Span)
  | negation (operand : Expr) (span : Span)
  | tuple (elements : List Expr) (span : Span)
  | list (elements : List Expr) (span : Span)
  | unit (span : Span)
  | parenthesized (inner : Expr) (span : Span)
  | leftSection (operand : Expr) (operator : Name) (span : Span)
  | rightSection (operator : Name) (operand : Expr) (span : Span)
  | asPattern (name : Name) (pattern : Expr) (span : Span)
  | lazyPattern (pattern : Expr) (span : Span)
  | lambda (parameters : List Expr) (body : Expr) (span : Span)
  | conditional (condition thenBranch elseBranch : Expr) (span : Span)
  | letIn (decls : List Decl) (body : Expr) (span : Span)
  | caseOf (scrutinee : Expr) (alternatives : List Alternative) (span : Span)
  | doBlock (statements : List Statement) (span : Span)
  | sequence (first : Expr) (second last : Option Expr) (span : Span)
  | comprehension (element : Expr) (qualifiers : List Statement) (span : Span)
  | annotated (expr : Expr) (type : TypeTerm) (span : Span)
  | error (span : Span)

structure Alternative where
  pattern : Expr
  rightSide : RightSide
  span : Span

inductive Statement where
  | bind (pattern expr : Expr) (span : Span)
  | letDecls (decls : List Decl) (span : Span)
  | expression (expr : Expr)

structure RightSide where
  body : Body
  whereDecls : List Decl
  span : Span

inductive Body where
  | plain (expr : Expr)
  | guarded (alternatives : List GuardedExpr)

structure GuardedExpr where
  guard : Expr
  body : Expr
  span : Span

inductive Decl where
  | moduleHeader (header : ModuleHeader)
  | importDecl (decl : ImportDecl)
  | typeSignature (signature : TypeSignature)
  | fixity (decl : FixityDecl)
  /-- A clause of a function or operator, or a variable binding when it has no parameters. -/
  | function (name : Name) (parameters : List Expr) (betweenOperands : Bool)
      (rightSide : RightSide) (span : Span)
  | patternBinding (pattern : Expr) (rightSide : RightSide) (span : Span)
  /-- A kind of declaration that is recognised by its keyword and skipped. -/
  | unsupported (keyword : Token) (span : Span)
  | empty (span : Span)
  | error (span : Span)

end

namespace Expr

instance : Inhabited Expr := ⟨.error .zero⟩

def span : Expr → Span
  | .identifier name => name.span
  | .literal _ span | .wildcard span | .application _ _ span | .binary _ _ _ span
  | .negation _ span | .tuple _ span | .list _ span | .unit span | .parenthesized _ span
  | .leftSection _ _ span | .rightSection _ _ span | .asPattern _ _ span | .lazyPattern _ span
  | .lambda _ _ span | .conditional _ _ _ span | .letIn _ _ span | .caseOf _ _ span
  | .doBlock _ span | .sequence _ _ _ span | .comprehension _ _ span | .annotated _ _ span
  | .error span => span

def isError : Expr → Bool
  | .error _ => true
  | _ => false

end Expr

def Statement.span : Statement → Span
  | .bind _ _ span | .letDecls _ span => span
  | .expression expr => expr.span

namespace Decl

instance : Inhabited Decl := ⟨.error .zero⟩

def span : Decl → Span
  | .moduleHeader header => header.span
  | .importDecl decl => decl.span
  | .typeSignature signature => signature.span
  | .fixity decl => decl.span
  | .function _ _ _ _ span | .patternBinding _ _ span | .unsupported _ span | .empty span
  | .error span => span

end Decl

structure Program where
  decls : List Decl
  span : Span

namespace Program

def header? (program : Program) : Option ModuleHeader :=
  program.decls.findSome? fun
    | .moduleHeader header => some header
    | _ => none

def imports (program : Program) : List ImportDecl :=
  program.decls.filterMap fun
    | .importDecl decl => some decl
    | _ => none

end Program

end Offside
