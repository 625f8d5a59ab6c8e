import Offside.Haskell.Grammar.Declarations

/-!
What a tree shows of the tokens it was read from, in the order of the text: its leaves, the words that
are special to imports and fixities and are kept by what they say, and the declarations that were
skipped. A leaf is a name that is no list of segments, a literal or a wildcard.
-/

namespace Offside

set_option autoImplicit false

inductive Leaf where
  | name (span : Span)
  | literal (kind : LiteralKind) (span : Span)
  | wildcard (span : Span)
deriving DecidableEq

namespace Leaf

def span : Leaf → Span
  | .name span | .literal _ span | .wildcard span => span

/-- The leaves that stand for tokens of a kind. -/
def ofKind? : Token → Option (Span → Leaf)
  | .identifier | .properIdentifier | .operatorSymbol | .constructorSymbol | .colon => some .name
  | .integer => some (.literal .integer)
  | .float => some (.literal .float)
  | .character => some (.literal .character)
  | .string => some (.literal .string)
  | .underscore => some .wildcard
  | _ => none

def ofToken? (found : Token × Span) : Option Leaf := (ofKind? found.1).map (· found.2)

theorem span_ofToken {found : Token × Span} {leaf : Leaf} (same : ofToken? found = some leaf) :
    leaf.span = found.2 := by
  obtain ⟨token, span⟩ := found
  unfold ofToken? ofKind? at same
  split at same <;> cases same <;> rfl

end Leaf

/-- A word of an import, or the precedence of a fixity. -/
inductive Word where
  | keyword (text : String)
  | precedence (value : Nat)
deriving DecidableEq

def Word.Spelled (texts : Position → Option Lexeme) (found : Token × Span) : Word → Prop
  | .keyword text => found.1 = .identifier ∧ texts found.2.start = some ⟨.identifier, text⟩
  | .precedence value => found.1 = .integer ∧ ∃ text,
      texts found.2.start = some ⟨.integer, text⟩ ∧
        Haskell.Grammar.precedenceOf? text = some value

inductive Mark where
  | leaf (leaf : Leaf)
  | word (word : Word)
  | skipped
deriving DecidableEq

namespace Mark

def leaf? : Mark → Option Leaf
  | .leaf found => some found
  | _ => none

def word? : Mark → Option Word
  | .word found => some found
  | _ => none

theorem eq_of_leaf? {mark : Mark} {found : Leaf} (known : mark.leaf? = some found) :
    mark = .leaf found := by
  cases mark with
  | leaf leaf => exact congrArg Mark.leaf (Option.some.inj known)
  | word word => cases known
  | skipped => cases known

theorem eq_of_word? {mark : Mark} {found : Word} (known : mark.word? = some found) :
    mark = .word found := by
  cases mark with
  | leaf leaf => cases known
  | word word => exact congrArg Mark.word (Option.some.inj known)
  | skipped => cases known

end Mark

mutual

def Name.marks : Name → List Mark
  | .simple span | .operator span | .special span | .error span => [.leaf (.name span)]
  | .qualified segments _ => Name.listMarks segments

def Name.listMarks : List Name → List Mark
  | [] => []
  | name :: later => name.marks ++ Name.listMarks later

end

mutual

def TypeTerm.marks : TypeTerm → List Mark
  | .constructor name | .typeVariable name => name.marks
  | .application head arguments _ => head.marks ++ TypeTerm.listMarks arguments
  | .function parameter result _ => parameter.marks ++ result.marks
  | .list element _ => element.marks
  | .tuple elements _ => TypeTerm.listMarks elements
  | .constrained context body _ => context.marks ++ body.marks
  | .unit _ | .error _ => []

def TypeTerm.listMarks : List TypeTerm → List Mark
  | [] => []
  | type :: later => type.marks ++ TypeTerm.listMarks later

end

def Members.marks : Members → List Mark
  | .absent | .all _ => []
  | .listed names _ => names.flatMap Name.marks

def Selection.marks : Selection → List Mark
  | .wholeModule name _ => name.marks
  | .item name members _ => name.marks ++ members.marks

def SelectionList.marks (list : SelectionList) : List Mark :=
  list.selections.flatMap Selection.marks

def ModuleHeader.marks (header : ModuleHeader) : List Mark :=
  header.name.marks ++ header.exports.elim [] SelectionList.marks

def keywordMarks (written : Bool) (text : String) : List Mark :=
  if written then [.word (.keyword text)] else []

def ImportDecl.marks (decl : ImportDecl) : List Mark :=
  keywordMarks decl.isQualified "qualified" ++ decl.moduleName.marks ++
    decl.renamedTo.elim [] (fun name => .word (.keyword "as") :: name.marks) ++
    keywordMarks decl.isHiding "hiding" ++ decl.selections.elim [] SelectionList.marks

def TypeSignature.marks (signature : TypeSignature) : List Mark :=
  signature.names.flatMap Name.marks ++ signature.type.marks

def FixityDecl.marks (decl : FixityDecl) : List Mark :=
  decl.precedence.elim [] (fun value => [.word (.precedence value)]) ++
    decl.operators.flatMap Name.marks

mutual

def Expr.marks : Expr → List Mark
  | .literal kind span => [.leaf (.literal kind span)]
  | .wildcard span => [.leaf (.wildcard span)]
  | .identifier name => name.marks
  | .application function arguments _ => function.marks ++ Expr.listMarks arguments
  | .binary left operator right _ => left.marks ++ operator.marks ++ right.marks
  | .negation operand _ => operand.marks
  | .tuple elements _ | .list elements _ => Expr.listMarks elements
  | .parenthesized inner _ => inner.marks
  | .leftSection operand operator _ => operand.marks ++ operator.marks
  | .rightSection operator operand _ => operator.marks ++ operand.marks
  | .asPattern name pattern _ => name.marks ++ pattern.marks
  | .lazyPattern pattern _ => pattern.marks
  | .lambda parameters body _ => Expr.listMarks parameters ++ body.marks
  | .conditional condition thenBranch elseBranch _ =>
    condition.marks ++ thenBranch.marks ++ elseBranch.marks
  | .letIn decls body _ => Decl.listMarks decls ++ body.marks
  | .caseOf scrutinee alternatives _ => scrutinee.marks ++ Alternative.listMarks alternatives
  | .doBlock statements _ => Statement.listMarks statements
  | .sequence first second last _ =>
    first.marks ++ Expr.optionMarks second ++ Expr.optionMarks last
  | .comprehension element qualifiers _ => element.marks ++ Statement.listMarks qualifiers
  | .annotated expr type _ => expr.marks ++ type.marks
  | .unit _ | .error _ => []

def Expr.listMarks : List Expr → List Mark
  | [] => []
  | expr :: later => expr.marks ++ Expr.listMarks later

def Expr.optionMarks : Option Expr → List Mark
  | none => []
  | some expr => expr.marks

def Alternative.marks : Alternative → List Mark
  | ⟨pattern, rightSide, _⟩ => pattern.marks ++ rightSide.marks

def Alternative.listMarks : List Alternative → List Mark
  | [] => []
  | alternative :: later => alternative.marks ++ Alternative.listMarks later

def Statement.marks : Statement → List Mark
  | .bind pattern expr _ => pattern.marks ++ expr.marks
  | .letDecls decls _ => Decl.listMarks decls
  | .expression expr => expr.marks

def Statement.listMarks : List Statement → List Mark
  | [] => []
  | statement :: later => statement.marks ++ Statement.listMarks later

def RightSide.marks : RightSide → List Mark
  | ⟨body, whereDecls, _⟩ => body.marks ++ Decl.listMarks whereDecls

def Body.marks : Body → List Mark
  | .plain expr => expr.marks
  | .guarded alternatives => GuardedExpr.listMarks alternatives

def GuardedExpr.marks : GuardedExpr → List Mark
  | ⟨guard, body, _⟩ => guard.marks ++ body.marks

def GuardedExpr.listMarks : List GuardedExpr → List Mark
  | [] => []
  | alternative :: later => alternative.marks ++ GuardedExpr.listMarks later

/-- The name of a clause and its parameters. An operator stands after the first of its operands. -/
def Expr.clauseMarks (name : List Mark) (betweenOperands : Bool) : List Expr → List Mark
  | [] => name
  | left :: later =>
    (if betweenOperands then left.marks ++ name else name ++ left.marks) ++ Expr.listMarks later

def Decl.marks : Decl → List Mark
  | .moduleHeader header => header.marks
  | .importDecl decl => decl.marks
  | .typeSignature signature => signature.marks
  | .fixity decl => decl.marks
  | .function name parameters betweenOperands rightSide _ =>
    Expr.clauseMarks name.marks betweenOperands parameters ++ rightSide.marks
  | .patternBinding pattern rightSide _ => pattern.marks ++ rightSide.marks
  | .unsupported _ _ => [.skipped]
  | .empty _ | .error _ => []

def Decl.listMarks : List Decl → List Mark
  | [] => []
  | decl :: later => decl.marks ++ Decl.listMarks later

end

namespace Program

def marks (program : Program) : List Mark := program.decls.flatMap Decl.marks

def leaves (program : Program) : List Leaf := program.marks.filterMap Mark.leaf?

def words (program : Program) : List Word := program.marks.filterMap Mark.word?

end Program

/-- A function that goes through a list as the ones above do collects what its elements have. -/
private theorem marks_collected {α : Type} {marks : α → List Mark} {listMarks : List α → List Mark}
    (nil : listMarks [] = []) (cons : ∀ first later,
      listMarks (first :: later) = marks first ++ listMarks later) (pieces : List α) :
    listMarks pieces = pieces.flatMap marks := by
  induction pieces with
  | nil => simp [nil]
  | cons first later induction => simp [cons, induction]

@[simp] theorem Name.listMarks_eq (names : List Name) :
    Name.listMarks names = names.flatMap Name.marks :=
  marks_collected (by simp [Name.listMarks]) (by simp [Name.listMarks]) names

@[simp] theorem TypeTerm.listMarks_eq (types : List TypeTerm) :
    TypeTerm.listMarks types = types.flatMap TypeTerm.marks :=
  marks_collected (by simp [TypeTerm.listMarks]) (by simp [TypeTerm.listMarks]) types

@[simp] theorem Expr.listMarks_eq (exprs : List Expr) :
    Expr.listMarks exprs = exprs.flatMap Expr.marks :=
  marks_collected (by simp [Expr.listMarks]) (by simp [Expr.listMarks]) exprs

@[simp] theorem Alternative.listMarks_eq (alternatives : List Alternative) :
    Alternative.listMarks alternatives = alternatives.flatMap Alternative.marks :=
  marks_collected (by simp [Alternative.listMarks]) (by simp [Alternative.listMarks]) alternatives

@[simp] theorem Statement.listMarks_eq (statements : List Statement) :
    Statement.listMarks statements = statements.flatMap Statement.marks :=
  marks_collected (by simp [Statement.listMarks]) (by simp [Statement.listMarks]) statements

@[simp] theorem GuardedExpr.listMarks_eq (alternatives : List GuardedExpr) :
    GuardedExpr.listMarks alternatives = alternatives.flatMap GuardedExpr.marks :=
  marks_collected (by simp [GuardedExpr.listMarks]) (by simp [GuardedExpr.listMarks]) alternatives

@[simp] theorem Decl.listMarks_eq (decls : List Decl) :
    Decl.listMarks decls = decls.flatMap Decl.marks :=
  marks_collected (by simp [Decl.listMarks]) (by simp [Decl.listMarks]) decls

attribute [simp] Name.marks TypeTerm.marks Members.marks Selection.marks SelectionList.marks
  ModuleHeader.marks ImportDecl.marks TypeSignature.marks FixityDecl.marks Expr.marks
  Expr.optionMarks Expr.clauseMarks Alternative.marks Statement.marks RightSide.marks Body.marks
  GuardedExpr.marks Decl.marks

@[simp] theorem Expr.clauseMarks_plain (name : List Mark) (parameters : List Expr) :
    Expr.clauseMarks name false parameters = name ++ parameters.flatMap Expr.marks := by
  cases parameters with
  | nil => simp
  | cons left later => simp

end Offside
