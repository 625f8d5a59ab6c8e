import Mathlib.Data.List.Forall2
import Mathlib.Data.List.Infix
import Offside.Lexical.TokenStream
import Offside.Proofs.Tree.Nodes

/-!
Which tokens a node is made of, and where its span stands among them. Most nodes reach from the first
of their tokens to the end of the last that has a width. Two kinds of operand do not: an operator that
is written in parentheses has the span of its name, and a type in parentheses is the type inside. The
spans of applications, operator chains, negations and function types are made from those of their
operands, so each of these nodes is seen with the operands it was made of.
-/

namespace Offside

set_option autoImplicit false

abbrev Tokens : Type := List (Token × Span)

namespace Tokens

def wide (tokens : Tokens) : Tokens := tokens.filter fun found => !found.2.isPoint

@[simp] theorem wide_append (first later : Tokens) :
    wide (first ++ later) = wide first ++ wide later :=
  List.filter_append ..

def start? (tokens : Tokens) : Option Position := tokens.wide.head?.map fun found => found.2.start

def stop? (tokens : Tokens) : Option Position := tokens.wide.getLast?.map fun found => found.2.stop

theorem start?_append {first : Tokens} {place : Position} (starts : first.start? = some place)
    (later : Tokens) : start? (first ++ later) = some place := by
  obtain ⟨found, isFirst, same⟩ := Option.map_eq_some_iff.1 starts
  rw [start?, wide_append, List.head?_append, isFirst]
  exact congrArg some same

theorem stop?_append {later : Tokens} {place : Position} (stops : later.stop? = some place)
    (first : Tokens) : stop? (first ++ later) = some place := by
  obtain ⟨found, isLast, same⟩ := Option.map_eq_some_iff.1 stops
  rw [stop?, wide_append, List.getLast?_append, isLast]
  exact congrArg some same

theorem start?_of_append {first later : Tokens} {place other : Position}
    (starts : start? (first ++ later) = some place) (stops : first.stop? = some other) :
    first.start? = some place := by
  have some : first.wide ≠ [] := by
    intro none
    rw [stop?, none] at stops
    cases stops
  rwa [start?, wide_append, List.head?_append_of_ne_nil _ some] at starts

theorem stop?_cons {later : Tokens} {place : Position} (stops : later.stop? = some place)
    (found : Token × Span) : stop? (found :: later) = some place :=
  stop?_append stops [found]

end Tokens

/-- A span reaches from the start of the first of some tokens to the end of the last, those without a
width left aside. -/
structure Span.Reaches (span : Span) (tokens : Tokens) : Prop where
  start : tokens.start? = some span.start
  stop : tokens.stop? = some span.stop

/-- A span reaches over tokens but for parentheses in front of them and behind them. -/
structure Span.ReachesBetween (span : Span) (opening closing tokens : Tokens) : Prop where
  opens : ∀ found ∈ opening, found.1 = .openParen
  closes : ∀ found ∈ closing, found.1 = .closeParen
  inside : ∃ middle, tokens = opening ++ middle ++ closing ∧ span.Reaches middle

def Tokens.CloseName (closing : Tokens) : Prop :=
  closing.map Prod.fst = [.closeParen] ∨ closing.map Prod.fst = [.backtick, .closeParen]

inductive Name.Between (name : Name) : Tokens → Prop
  | plain {tokens : Tokens} (reaches : name.span.Reaches tokens) : Between name tokens
  | quoted {tokens : Tokens} {opening closing : Token × Span} (opens : opening.1 = .backtick)
      (closes : closing.1 = .backtick) (reaches : name.span.Reaches tokens) :
      Between name (opening :: (tokens ++ [closing]))

namespace Expr

inductive Atomic : Expr → Tokens → Prop
  | whole {expr : Expr} {tokens : Tokens} (reaches : expr.span.Reaches tokens) :
      Atomic expr tokens
  /-- An operator alone between parentheses. -/
  | enclosed {name : Name} {tokens : Tokens} {opening closing : Token × Span}
      (opens : opening.1 = .openParen) (closes : closing.1 = .closeParen)
      (between : name.Between tokens) :
      Atomic (.identifier name) (opening :: (tokens ++ [closing]))

mutual

inductive Over : Expr → Tokens → Prop
  | atomic {expr : Expr} {tokens : Tokens} (atomic : expr.Atomic tokens) : Over expr tokens
  | composed {expr : Expr} {tokens : Tokens} (composed : Composed expr tokens) : Over expr tokens

/-- The tokens of an application, an operator chain or a negation, divided among what it is made
of. -/
inductive Composed : Expr → Tokens → Prop
  | application {function : Expr} {arguments : List Expr} {span : Span} {head : Tokens}
      {rest : List Tokens} (leads : function.Atomic head)
      (follow : List.Forall₂ Atomic arguments rest) :
      Composed (.application function arguments span) (head ++ rest.flatten)
  | binary {left right : Expr} {operator : Name} {span : Span} {before between after : Tokens}
      (leads : Over left before) (stands : operator.Between between) (follows : Over right after) :
      Composed (.binary left operator right span) (before ++ between ++ after)
  | negation {operand : Expr} {span : Span} {sign : Token × Span} {tokens : Tokens}
      (isSign : sign.1 = .minus) (follows : Over operand tokens) :
      Composed (.negation operand span) (sign :: tokens)

end

def lastOperand : Expr → Expr
  | .application function arguments _ => arguments.getLastD function
  | .binary _ _ right _ => right.lastOperand
  | .negation operand _ => operand.lastOperand
  | expr => expr

/-- A span that ends with a name, before the parenthesis behind it, and before the backtick if there is
one. -/
structure Short (expr : Expr) (tokens : Tokens) : Prop where
  named : ∃ name, expr.lastOperand = .identifier name
  closes : ∃ before closing, tokens = before ++ closing ∧ closing.CloseName ∧
    expr.span.Reaches before

def isComposed : Expr → Bool
  | .application _ _ _ | .binary _ _ _ _ | .negation _ _ => true
  | _ => false

/-- A node is made of tokens of a text in their order. Its span reaches from the first to the last of
them unless its last operand is an operator in parentheses. -/
def Placed (text : Tokens) (expr : Expr) : Prop :=
  ∃ tokens, tokens <:+: text ∧ expr.Composed tokens ∧
    (expr.span.Reaches tokens ∨ expr.Short tokens)

end Expr

namespace TypeTerm

mutual

inductive Operand : TypeTerm → Tokens → Prop
  | whole {type : TypeTerm} {tokens : Tokens} (reaches : type.span.Reaches tokens) :
      Operand type tokens
  | enclosed {type : TypeTerm} {tokens : Tokens} {opening closing : Token × Span}
      (opens : opening.1 = .openParen) (closes : closing.1 = .closeParen)
      (inside : Over type tokens) : Operand type (opening :: (tokens ++ [closing]))

inductive Over : TypeTerm → Tokens → Prop
  | operand {type : TypeTerm} {tokens : Tokens} (operand : Operand type tokens) : Over type tokens
  | function {parameter result : TypeTerm} {span : Span} {arrow : Token × Span}
      {before after : Tokens} (isArrow : arrow.1 = .arrow) (leads : Operand parameter before)
      (follows : Over result after) :
      Over (.function parameter result span) (before ++ arrow :: after)

end

def Enclosed (type : TypeTerm) (tokens : Tokens) : Prop :=
  ∃ inside opening closing, tokens = opening :: (inside ++ [closing]) ∧
    opening.1 = .openParen ∧ closing.1 = .closeParen ∧ type.Over inside

/-- The last operand of a type is written in parentheses. -/
inductive EndsEnclosed : TypeTerm → Tokens → Prop
  | here {type : TypeTerm} {tokens : Tokens} (enclosed : type.Enclosed tokens) :
      EndsEnclosed type tokens
  | later {parameter result : TypeTerm} {span : Span} {arrow : Token × Span}
      {before after : Tokens} (leads : parameter.Operand before)
      (ends : EndsEnclosed result after) :
      EndsEnclosed (.function parameter result span) (before ++ arrow :: after)

def isFunction : TypeTerm → Bool
  | .function _ _ _ => true
  | _ => false

/-- A function type is made of tokens of a text in their order. Its span reaches from the first to the
last of them but for the parentheses that its first operand starts with and its last one ends with, where
these operands are in parentheses. -/
def Placed (text : Tokens) (type : TypeTerm) : Prop :=
  ∃ parameter result span before arrow after, type = .function parameter result span ∧
    before ++ arrow :: after <:+: text ∧ arrow.1 = .arrow ∧ parameter.Operand before ∧
      result.Over after ∧
      ∃ opening closing, span.ReachesBetween opening closing (before ++ arrow :: after) ∧
        (opening = [] ∨ parameter.Enclosed before) ∧ (closing = [] ∨ result.EndsEnclosed after)

end TypeTerm

namespace Node

/-- A node whose span is made from those of its operands stands where it should. -/
def Exact (text : Tokens) : Node → Prop
  | expr found => found.isComposed = true → found.Placed text
  | type found => found.isFunction = true → found.Placed text
  | _ => True

end Node

end Offside
