import Offside.Proofs.Tree.Moved
import Offside.Proofs.Tree.Nodes

/-!
Trees up to the places of their nodes and up to the depth of one qualifier. A sketch of a tree keeps
its shape, the file that it is from and what is made of its names. Sketched with its names as they are,
a tree is told apart by nothing but its spans; sketched with one segment written several times, it is
what another text is compared with whose qualifier is so much deeper.
-/

namespace Offside

set_option autoImplicit false

def Span.blank (span : Span) : Span := .point .origin span.file

theorem Span.blank_eq_iff {span other : Span} : span.blank = other.blank ↔ span.file = other.file := by
  simp [blank, point]

@[simp] theorem Span.blank_through (first last : Span) : (first.through last).blank = first.blank := rfl

namespace Name

/-- A name without the places of its segments. -/
abbrev bare : Name → Name := Name.moved Span.blank

/-- What stands for a segment of a name: the one at the given place is written as often as is asked
for. -/
def deepenedSegment (place : Span) (depth : Nat) : Name → List Name
  | .simple span =>
    if span = place then List.replicate depth (.simple span.blank) else [.simple span.blank]
  | name => [name.bare]

/-- A name without places, in which the segment at one place is written several times. -/
def deepened (place : Span) (depth : Nat) : Name → Name
  | .simple span =>
    if span = place then .qualified (List.replicate depth (.simple span.blank)) span.blank
    else .simple span.blank
  | .qualified segments span =>
    .qualified (segments.flatMap (deepenedSegment place depth)) span.blank
  | name => name.bare

@[simp] theorem span_deepened (place : Span) (depth : Nat) (name : Name) :
    (name.deepened place depth).span = name.span.blank := by
  cases name with
  | simple span =>
    rw [deepened]
    split <;> rfl
  | _ => rfl

def isLedBy (place : Span) : Name → Bool
  | .qualified (.simple span :: _) _ => span = place
  | _ => false

end Name

section Sketches

variable (names : Name → Name)

mutual

def TypeTerm.sketch : TypeTerm → TypeTerm
  | .constructor name => .constructor (names name)
  | .typeVariable name => .typeVariable (names name)
  | .application head arguments span =>
    .application head.sketch (TypeTerm.listSketch arguments) span.blank
  | .function parameter result span => .function parameter.sketch result.sketch span.blank
  | .list element span => .list element.sketch span.blank
  | .tuple elements span => .tuple (TypeTerm.listSketch elements) span.blank
  | .unit span => .unit span.blank
  | .constrained context body span => .constrained context.sketch body.sketch span.blank
  | .error span => .error span.blank

def TypeTerm.listSketch : List TypeTerm → List TypeTerm
  | [] => []
  | type :: later => type.sketch :: TypeTerm.listSketch later

end

def Members.sketch : Members → Members
  | .absent => .absent
  | .all span => .all span.blank
  | .listed found span => .listed (found.map names) span.blank

def Selection.sketch : Selection → Selection
  | .wholeModule name span => .wholeModule (names name) span.blank
  | .item name members span => .item (names name) (members.sketch names) span.blank

def SelectionList.sketch (list : SelectionList) : SelectionList :=
  ⟨list.selections.map (Selection.sketch names), list.span.blank⟩

def ModuleHeader.sketch (header : ModuleHeader) : ModuleHeader :=
  ⟨names header.name, header.exports.map (SelectionList.sketch names), header.span.blank⟩

def ImportDecl.sketch (decl : ImportDecl) : ImportDecl :=
  ⟨decl.isQualified, names decl.moduleName, decl.renamedTo.map names, decl.isHiding,
    decl.selections.map (SelectionList.sketch names), decl.span.blank⟩

def TypeSignature.sketch (signature : TypeSignature) : TypeSignature :=
  ⟨signature.names.map names, signature.type.sketch names, signature.span.blank⟩

def FixityDecl.sketch (decl : FixityDecl) : FixityDecl :=
  ⟨decl.associativity, decl.precedence, decl.operators.map names, decl.span.blank⟩

mutual

def Expr.sketch : Expr → Expr
  | .literal kind span => .literal kind span.blank
  | .identifier name => .identifier (names name)
  | .wildcard span => .wildcard span.blank
  | .application function arguments span =>
    .application function.sketch (Expr.listSketch arguments) span.blank
  | .binary left operator right span =>
    .binary left.sketch (names operator) right.sketch span.blank
  | .negation operand span => .negation operand.sketch span.blank
  | .tuple elements span => .tuple (Expr.listSketch elements) span.blank
  | .list elements span => .list (Expr.listSketch elements) span.blank
  | .unit span => .unit span.blank
  | .parenthesized inner span => .parenthesized inner.sketch span.blank
  | .leftSection operand operator span => .leftSection operand.sketch (names operator) span.blank
  | .rightSection operator operand span => .rightSection (names operator) operand.sketch span.blank
  | .asPattern name pattern span => .asPattern (names name) pattern.sketch span.blank
  | .lazyPattern pattern span => .lazyPattern pattern.sketch span.blank
  | .lambda parameters body span => .lambda (Expr.listSketch parameters) body.sketch span.blank
  | .conditional condition thenBranch elseBranch span =>
    .conditional condition.sketch thenBranch.sketch elseBranch.sketch span.blank
  | .letIn decls body span => .letIn (Decl.listSketch decls) body.sketch span.blank
  | .caseOf scrutinee alternatives span =>
    .caseOf scrutinee.sketch (Alternative.listSketch alternatives) span.blank
  | .doBlock statements span => .doBlock (Statement.listSketch statements) span.blank
  | .sequence first second last span =>
    .sequence first.sketch (Expr.optionSketch second) (Expr.optionSketch last) span.blank
  | .comprehension element qualifiers span =>
    .comprehension element.sketch (Statement.listSketch qualifiers) span.blank
  | .annotated expr type span => .annotated expr.sketch (type.sketch names) span.blank
  | .error span => .error span.blank

def Expr.listSketch : List Expr → List Expr
  | [] => []
  | expr :: later => expr.sketch :: Expr.listSketch later

def Expr.optionSketch : Option Expr → Option Expr
  | none => none
  | some expr => some expr.sketch

def Alternative.sketch : Alternative → Alternative
  | ⟨pattern, rightSide, span⟩ => ⟨pattern.sketch, rightSide.sketch, span.blank⟩

def Alternative.listSketch : List Alternative → List Alternative
  | [] => []
  | alternative :: later => alternative.sketch :: Alternative.listSketch later

def Statement.sketch : Statement → Statement
  | .bind pattern expr span => .bind pattern.sketch expr.sketch span.blank
  | .letDecls decls span => .letDecls (Decl.listSketch decls) span.blank
  | .expression expr => .expression expr.sketch

def Statement.listSketch : List Statement → List Statement
  | [] => []
  | statement :: later => statement.sketch :: Statement.listSketch later

def RightSide.sketch : RightSide → RightSide
  | ⟨body, whereDecls, span⟩ => ⟨body.sketch, Decl.listSketch whereDecls, span.blank⟩

def Body.sketch : Body → Body
  | .plain expr => .plain expr.sketch
  | .guarded alternatives => .guarded (GuardedExpr.listSketch alternatives)

def GuardedExpr.sketch : GuardedExpr → GuardedExpr
  | ⟨guard, body, span⟩ => ⟨guard.sketch, body.sketch, span.blank⟩

def GuardedExpr.listSketch : List GuardedExpr → List GuardedExpr
  | [] => []
  | alternative :: later => alternative.sketch :: GuardedExpr.listSketch later

def Decl.sketch : Decl → Decl
  | .moduleHeader header => .moduleHeader (header.sketch names)
  | .importDecl decl => .importDecl (decl.sketch names)
  | .typeSignature signature => .typeSignature (signature.sketch names)
  | .fixity decl => .fixity (decl.sketch names)
  | .function name parameters betweenOperands rightSide span =>
    .function (names name) (Expr.listSketch parameters) betweenOperands rightSide.sketch span.blank
  | .patternBinding pattern rightSide span =>
    .patternBinding pattern.sketch rightSide.sketch span.blank
  | .unsupported keyword span => .unsupported keyword span.blank
  | .empty span => .empty span.blank
  | .error span => .error span.blank

def Decl.listSketch : List Decl → List Decl
  | [] => []
  | decl :: later => decl.sketch :: Decl.listSketch later

end

def Program.sketch (program : Program) : Program :=
  ⟨program.decls.map (Decl.sketch names), program.span.blank⟩

variable {names}

/-- A function that goes through a list as the ones above do sketches each of its elements. -/
private theorem sketched_elements {α : Type} {sketch : α → α} {listSketch : List α → List α}
    (nil : listSketch [] = []) (cons : ∀ first later,
      listSketch (first :: later) = sketch first :: listSketch later) (pieces : List α) :
    listSketch pieces = pieces.map sketch := by
  induction pieces with
  | nil => simp [nil]
  | cons first later induction => simp [cons, induction]

@[simp] theorem TypeTerm.listSketch_eq (types : List TypeTerm) :
    TypeTerm.listSketch names types = types.map (TypeTerm.sketch names) :=
  sketched_elements (by simp [TypeTerm.listSketch]) (by simp [TypeTerm.listSketch]) types

@[simp] theorem Expr.listSketch_eq (exprs : List Expr) :
    Expr.listSketch names exprs = exprs.map (Expr.sketch names) :=
  sketched_elements (by simp [Expr.listSketch]) (by simp [Expr.listSketch]) exprs

@[simp] theorem Expr.optionSketch_eq (expr : Option Expr) :
    Expr.optionSketch names expr = expr.map (Expr.sketch names) := by
  cases expr with
  | none => simp [Expr.optionSketch]
  | some expr => simp [Expr.optionSketch]

@[simp] theorem Alternative.listSketch_eq (alternatives : List Alternative) :
    Alternative.listSketch names alternatives = alternatives.map (Alternative.sketch names) :=
  sketched_elements (by simp [Alternative.listSketch]) (by simp [Alternative.listSketch]) alternatives

@[simp] theorem Statement.listSketch_eq (statements : List Statement) :
    Statement.listSketch names statements = statements.map (Statement.sketch names) :=
  sketched_elements (by simp [Statement.listSketch]) (by simp [Statement.listSketch]) statements

@[simp] theorem GuardedExpr.listSketch_eq (alternatives : List GuardedExpr) :
    GuardedExpr.listSketch names alternatives = alternatives.map (GuardedExpr.sketch names) :=
  sketched_elements (by simp [GuardedExpr.listSketch]) (by simp [GuardedExpr.listSketch]) alternatives

@[simp] theorem Decl.listSketch_eq (decls : List Decl) :
    Decl.listSketch names decls = decls.map (Decl.sketch names) :=
  sketched_elements (by simp [Decl.listSketch]) (by simp [Decl.listSketch]) decls

attribute [simp] TypeTerm.sketch Members.sketch Selection.sketch SelectionList.sketch
  ModuleHeader.sketch ImportDecl.sketch TypeSignature.sketch FixityDecl.sketch Expr.sketch
  Alternative.sketch Statement.sketch RightSide.sketch Body.sketch GuardedExpr.sketch Decl.sketch

/-- What is made of names may change everything but the file that they are from. -/
def KeepsPlaces (names : Name → Name) : Prop := ∀ name, (names name).span = name.span.blank

theorem keepsPlaces_bare : KeepsPlaces Name.bare := Name.span_moved

theorem keepsPlaces_deepened (place : Span) (depth : Nat) : KeepsPlaces (Name.deepened place depth) :=
  Name.span_deepened place depth

theorem TypeTerm.span_sketch (keeps : KeepsPlaces names) (type : TypeTerm) :
    (type.sketch names).span = type.span.blank := by
  cases type <;> simp [TypeTerm.span, keeps _]

theorem Expr.span_sketch (keeps : KeepsPlaces names) (expr : Expr) :
    (expr.sketch names).span = expr.span.blank := by
  cases expr <;> simp [Expr.span, keeps _]

end Sketches

/-! Where the grammar looks only two tokens ahead for a qualified operator: in patterns, in the
declaration of a fixity, and right behind an operand that ends in a block. -/

def Expr.endsInBlock : Expr → Bool
  | .doBlock _ _ | .caseOf _ _ _ => true
  | .lambda _ body _ | .letIn _ body _ => body.endsInBlock
  | .conditional _ _ elseBranch _ => elseBranch.endsInBlock
  | .negation operand _ => operand.endsInBlock
  | .binary _ _ right _ => right.endsInBlock
  | _ => false

namespace Node

def isJoinedAt (place : Span) : Node → Bool
  | expr (.binary _ operator _ _) => operator.isLedBy place
  | _ => false

end Node

/-- The operator qualified at the given place joins nothing inside a pattern. -/
def Expr.SparesPattern (place : Span) (pattern : Expr) : Prop :=
  (Node.expr pattern).Every fun node => node.isJoinedAt place = false

namespace Node

def SparesAt (place : Span) : Node → Prop
  | expr (.binary left operator _ _) => operator.isLedBy place = true → left.endsInBlock = false
  | expr (.leftSection operand operator _) =>
    operator.isLedBy place = true → operand.endsInBlock = false
  | expr (.lambda parameters _ _) => ∀ pattern ∈ parameters, pattern.SparesPattern place
  | alternative found => found.pattern.SparesPattern place
  | decl (.function _ parameters _ _ _) => ∀ pattern ∈ parameters, pattern.SparesPattern place
  | decl (.patternBinding pattern _ _) => pattern.SparesPattern place
  | decl (.fixity found) => ∀ operator ∈ found.operators, operator.isLedBy place = false
  | _ => True

/-- Nowhere in a tree is the operator qualified at the given place looked for by two tokens alone. -/
def Spares (place : Span) (node : Node) : Prop := node.Every (SparesAt place)

/-! Trees that are not too deep can be tested for this. -/

/-- A test holds of a node and of every node below it, and none is deeper down than a number says. -/
def everyTo (holds : Node → Bool) : Nat → Node → Bool
  | 0, _ => false
  | depth + 1, node => holds node && node.children.all (everyTo holds depth)

theorem every_of_everyTo {holds : Node → Bool} {kept : Node → Prop}
    (sound : ∀ node, holds node = true → kept node) {depth : Nat} {node : Node}
    (tested : node.everyTo holds depth = true) : node.Every kept := by
  induction depth generalizing node with
  | zero => cases tested
  | succ depth induction =>
    rw [everyTo, Bool.and_eq_true, List.all_eq_true] at tested
    exact .intro (sound node tested.1) fun child member => induction (tested.2 child member)

def sparesPattern (place : Span) (depth : Nat) (pattern : Expr) : Bool :=
  (expr pattern).everyTo (fun node => !node.isJoinedAt place) depth

theorem sparesPattern_sound {place : Span} {depth : Nat} {pattern : Expr}
    (tested : sparesPattern place depth pattern = true) : pattern.SparesPattern place :=
  every_of_everyTo (fun node other => by simpa using other) tested

def sparesTo (place : Span) (depth : Nat) : Node → Bool
  | expr (.binary left operator _ _) | expr (.leftSection left operator _) =>
    !operator.isLedBy place || !left.endsInBlock
  | expr (.lambda parameters _ _) | decl (.function _ parameters _ _ _) =>
    parameters.all (sparesPattern place depth)
  | alternative found => sparesPattern place depth found.pattern
  | decl (.patternBinding pattern _ _) => sparesPattern place depth pattern
  | decl (.fixity found) => found.operators.all fun operator => !operator.isLedBy place
  | _ => true

theorem sparesTo_sound {place : Span} {depth : Nat} (node : Node)
    (tested : node.sparesTo place depth = true) : node.SparesAt place := by
  have each : ∀ {patterns : List Expr}, patterns.all (sparesPattern place depth) = true →
      ∀ pattern ∈ patterns, pattern.SparesPattern place := fun all pattern member =>
    sparesPattern_sound (List.all_eq_true.1 all pattern member)
  unfold sparesTo at tested
  split at tested
  · exact fun led => by simpa [led] using tested
  · exact fun led => by simpa [led] using tested
  · exact each tested
  · exact each tested
  · exact sparesPattern_sound tested
  · exact sparesPattern_sound tested
  · exact fun operator member => by simpa using List.all_eq_true.1 tested operator member
  · unfold SparesAt
    split <;> first | trivial | (exfalso; solve_by_elim)

theorem spares_of_test {place : Span} {depth : Nat} {node : Node}
    (tested : node.everyTo (sparesTo place depth) depth = true) : node.Spares place :=
  every_of_everyTo sparesTo_sound tested

end Node

end Offside
