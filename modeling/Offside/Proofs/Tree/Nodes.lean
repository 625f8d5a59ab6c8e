import Offside.Tree.Program

/-!
The nodes of a tree. A tree is made of nodes of many kinds, each with a type of its own. Here they are
seen alike: a node has a span and children, and what holds of every node inside another is said once
for all kinds.
-/

namespace Offside

set_option autoImplicit false

inductive Node where
  | name (name : Name)
  | type (type : TypeTerm)
  | expr (expr : Expr)
  | alternative (alternative : Alternative)
  | statement (statement : Statement)
  | rightSide (rightSide : RightSide)
  | guarded (alternative : GuardedExpr)
  | decl (decl : Decl)
  /-- The members of a type or class, of which none is named where all are taken. -/
  | members (names : List Name) (span : Span)
  | selection (selection : Selection)
  | selections (list : SelectionList)
  | program (program : Program)

def Body.nodes : Body → List Node
  | .plain expr => [.expr expr]
  | .guarded alternatives => alternatives.map .guarded

def Members.nodes : Members → List Node
  | .absent => []
  | .all span => [.members [] span]
  | .listed names span => [.members names span]

namespace Node

def span : Node → Span
  | name found => found.span
  | type found => found.span
  | expr found => found.span
  | alternative found => found.span
  | statement found => found.span
  | rightSide found => found.span
  | guarded found => found.span
  | decl found => found.span
  | members _ span => span
  | selection (.wholeModule _ span) | selection (.item _ _ span) => span
  | selections list => list.span
  | program found => found.span

@[simp] def children : Node → List Node
  | name (.qualified segments _) => segments.map name
  | name _ => []
  | type (.constructor found) | type (.typeVariable found) => [name found]
  | type (.application head arguments _) => type head :: arguments.map type
  | type (.function parameter result _) => [type parameter, type result]
  | type (.list element _) => [type element]
  | type (.tuple elements _) => elements.map type
  | type (.constrained context body _) => [type context, type body]
  | type (.unit _) | type (.error _) => []
  | expr (.identifier found) => [name found]
  | expr (.application function arguments _) => expr function :: arguments.map expr
  | expr (.binary left operator right _) => [expr left, name operator, expr right]
  | expr (.negation operand _) => [expr operand]
  | expr (.tuple elements _) | expr (.list elements _) => elements.map expr
  | expr (.parenthesized inner _) => [expr inner]
  | expr (.leftSection operand operator _) => [expr operand, name operator]
  | expr (.rightSection operator operand _) => [name operator, expr operand]
  | expr (.asPattern found pattern _) => [name found, expr pattern]
  | expr (.lazyPattern pattern _) => [expr pattern]
  | expr (.lambda parameters body _) => parameters.map expr ++ [expr body]
  | expr (.conditional condition thenBranch elseBranch _) =>
    [expr condition, expr thenBranch, expr elseBranch]
  | expr (.letIn decls body _) => decls.map decl ++ [expr body]
  | expr (.caseOf scrutinee alternatives _) => expr scrutinee :: alternatives.map alternative
  | expr (.doBlock statements _) => statements.map statement
  | expr (.sequence first second last _) =>
    expr first :: (second.toList ++ last.toList).map expr
  | expr (.comprehension element qualifiers _) => expr element :: qualifiers.map statement
  | expr (.annotated annotated annotation _) => [expr annotated, type annotation]
  | expr (.literal _ _) | expr (.wildcard _) | expr (.unit _) | expr (.error _) => []
  | alternative ⟨pattern, body, _⟩ => [expr pattern, rightSide body]
  | statement (.bind pattern source _) => [expr pattern, expr source]
  | statement (.letDecls decls _) => decls.map decl
  | statement (.expression found) => [expr found]
  | rightSide ⟨body, whereDecls, _⟩ => body.nodes ++ whereDecls.map decl
  | guarded ⟨guard, body, _⟩ => [expr guard, expr body]
  | decl (.moduleHeader header) => name header.name :: header.exports.toList.map selections
  | decl (.importDecl found) =>
    name found.moduleName :: (found.renamedTo.toList.map name ++
      found.selections.toList.map selections)
  | decl (.typeSignature signature) => signature.names.map name ++ [type signature.type]
  | decl (.fixity found) => found.operators.map name
  | decl (.function found parameters _ body _) =>
    name found :: (parameters.map expr ++ [rightSide body])
  | decl (.patternBinding pattern body _) => [expr pattern, rightSide body]
  | decl (.unsupported _ _) | decl (.empty _) | decl (.error _) => []
  | members names _ => names.map name
  | selection (.wholeModule found _) => [name found]
  | selection (.item found listed _) => name found :: listed.nodes
  | selections list => list.selections.map selection
  | program found => found.decls.map decl

/-- A node is another one or stands somewhere below it. -/
inductive Inside : Node → Node → Prop
  | refl (node : Node) : Inside node node
  | under {inner child node : Node} (member : child ∈ node.children) (inside : Inside inner child) :
      Inside inner node

inductive Every (holds : Node → Prop) : Node → Prop
  | intro {node : Node} (own : holds node) (below : ∀ child ∈ node.children, Every holds child) :
      Every holds node

variable {holds : Node → Prop} {inner node : Node}

theorem Every.own (every : node.Every holds) : holds node := by
  cases every with
  | intro own _ => exact own

theorem Every.child (every : node.Every holds) : ∀ child ∈ node.children, child.Every holds := by
  cases every with
  | intro _ below => exact below

theorem Every.of_inside (every : node.Every holds) (inside : inner.Inside node) : holds inner := by
  induction inside with
  | refl => exact every.own
  | under member _ induction => exact induction (every.child _ member)

end Node

/-!
The shape of trees: what whoever walks a tree may rely on. A node that stands for several things has
several of them, a list that was called for is not empty, and blocks hold only declarations that belong
there.
-/

def Name.isSegment : Name → Bool
  | .qualified _ _ => false
  | _ => true

namespace Decl

def isModule : Decl → Bool
  | .moduleHeader _ => true
  | _ => false

def isImport : Decl → Bool
  | .importDecl _ => true
  | _ => false

def isEmpty : Decl → Bool
  | .empty _ => true
  | _ => false

def isLocal : Decl → Bool
  | .typeSignature _ | .fixity _ | .function _ _ _ _ _ | .patternBinding _ _ _ | .empty _ => true
  | _ => false

end Decl

/-- The declarations of a `let` or `where`. Only the first may be missing: further separators are
skipped. -/
structure IsLocalBlock (decls : List Decl) : Prop where
  kinds : ∀ decl ∈ decls, decl.isLocal = true
  written : ∀ decl ∈ decls.tail, decl.isEmpty = false

structure IsModuleBlock (decls : List Decl) : Prop where
  header : ∀ decl ∈ decls.tail, decl.isModule = false
  written : ∀ decl ∈ (decls.dropWhile Decl.isModule).tail, decl.isEmpty = false

/-- Imports stand before everything but the module header. -/
def ImportsLead (decls : List Decl) : Prop :=
  decls.Pairwise fun earlier later =>
    later.isImport = true → earlier.isImport = true ∨ earlier.isModule = true

namespace Node

/-- What holds of a node in itself; most kinds have nothing to fail. -/
def Shaped : Node → Prop
  | name (.qualified segments _) =>
    2 ≤ segments.length ∧ ∀ segment ∈ segments, segment.isSegment = true
  | type (.application _ arguments _) => 1 ≤ arguments.length
  | type (.tuple elements _) => 2 ≤ elements.length
  | expr (.application _ arguments _) => 1 ≤ arguments.length
  | expr (.tuple elements _) => 2 ≤ elements.length
  | expr (.comprehension _ qualifiers _) => 1 ≤ qualifiers.length
  | expr (.letIn decls _ _) => IsLocalBlock decls
  | statement (.letDecls decls _) => IsLocalBlock decls
  | rightSide side =>
    (∀ alternatives, side.body = .guarded alternatives → 1 ≤ alternatives.length) ∧
      IsLocalBlock side.whereDecls
  | decl (.typeSignature signature) => 1 ≤ signature.names.length
  | decl (.fixity found) =>
    1 ≤ found.operators.length ∧ ∀ precedence ∈ found.precedence, precedence ≤ 9
  | decl (.function _ parameters true _ _) => parameters.length = 2
  | program found => IsModuleBlock found.decls
  | _ => True

end Node

end Offside
