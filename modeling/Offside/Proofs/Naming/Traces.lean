import Offside.Proofs.Nesting.Rules
import Offside.Proofs.Tree.Nodes

/-!
Where names come from. A name holds no text, only a span, so it is worth something as long as this is
the span of the token that it was read from. Here a tree is followed back to the tokens of a stream:
each simple name, operator and special name stands where a token of its kind does, and the segments of
a qualified name have dots between them and nothing else.

A production passes over tokens and forgets them, and whatever a parser still meets is one of the
tokens that it met at first. That and what is known of a value go together along a production. So the
grammar is followed once for all that is known of a node by itself: that it has the shape of its kind,
and that its names are traced.
-/

namespace Offside

set_option autoImplicit false

open Offside.Parser

variable {known : Token × Span → Prop}

/-- Segments that reach from one place to another, with a dot between each and the next and nothing
else. -/
inductive Name.Dotted (known : Token × Span → Prop) : List Name → Position → Position → Prop
  | last (name : Name) : Dotted known [name] name.span.start name.span.stop
  | dot {name : Name} {later : List Name} {dot : Span} {stop : Position} :
      known (.dot, dot) → name.span.stop = dot.start → Dotted known later dot.stop stop →
        Dotted known (name :: later) name.span.start stop

def Span.IsBracketed (known : Token × Span → Prop) (span : Span) : Prop :=
  ∃ token opening, known (token, opening) ∧ (token = .openParen ∨ token = .openBracket) ∧
    opening.start = span.start

namespace Name

def IsToken (known : Token × Span → Prop) : Name → Prop
  | .simple span =>
    ∃ token, known (token, span) ∧ (token = .identifier ∨ token = .properIdentifier)
  | .operator span => ∃ token, known (token, span) ∧ token.isVariableOperator = true
  | .special span => ∃ token, known (token, span) ∧ token.isConstructorOperator = true
  | .error _ => True
  | .qualified _ _ => False

/-- What a name is written with: a token, brackets if it is that kind of constructor, or the tokens of
its segments. -/
inductive Written (known : Token × Span → Prop) : Name → Prop
  | token {name : Name} (own : name.IsToken known) : Written known name
  | brackets {span : Span} (bracketed : span.IsBracketed known) : Written known (.special span)
  | segments {segments : List Name} {span : Span}
      (each : ∀ segment ∈ segments, segment.IsToken known) : Written known (.qualified segments span)

/-- A qualified name reaches over its segments and the dots between them. -/
def Linked (known : Token × Span → Prop) : Name → Prop
  | .qualified segments span => Dotted known segments span.start span.stop
  | _ => True

theorem IsToken.isSegment {name : Name} (own : name.IsToken known) : name.isSegment = true := by
  cases name with
  | qualified segments span => exact own.elim
  | simple span | operator span | special span | error span => rfl

theorem IsToken.linked {name : Name} (own : name.IsToken known) : name.Linked known := by
  cases name with
  | qualified segments span => exact own.elim
  | simple span | operator span | special span | error span => trivial

end Name

/-- Names are written where they stand, and those in types and expressions are linked. -/
def Node.Traced (known : Token × Span → Prop) : Node → Prop
  | name found => found.Written known
  | type (.constructor found) | type (.typeVariable found) | expr (.identifier found)
  | expr (.binary _ found _ _) | expr (.leftSection _ found _) | expr (.rightSection found _ _)
  | expr (.asPattern found _ _) => found.Linked known
  | _ => True

/-- What holds of each node that the grammar makes of known tokens, whatever was reported meanwhile. -/
structure Node.Formed (known : Token × Span → Prop) (node : Node) : Prop where
  shaped : node.Shaped
  traced : node.Traced known

abbrev Node.WellFormed (known : Token × Span → Prop) (node : Node) : Prop := node.Every (Formed known)

abbrev Name.WellFormed (known : Token × Span → Prop) (found : Name) : Prop :=
  (Node.name found).WellFormed known

structure Name.Whole (known : Token × Span → Prop) (found : Name) : Prop where
  formed : found.WellFormed known
  linked : found.Linked known

abbrev TypeTerm.WellFormed (known : Token × Span → Prop) (found : TypeTerm) : Prop :=
  (Node.type found).WellFormed known

abbrev Expr.WellFormed (known : Token × Span → Prop) (found : Expr) : Prop :=
  (Node.expr found).WellFormed known

abbrev Alternative.WellFormed (known : Token × Span → Prop) (found : Alternative) : Prop :=
  (Node.alternative found).WellFormed known

abbrev Statement.WellFormed (known : Token × Span → Prop) (found : Statement) : Prop :=
  (Node.statement found).WellFormed known

abbrev RightSide.WellFormed (known : Token × Span → Prop) (found : RightSide) : Prop :=
  (Node.rightSide found).WellFormed known

abbrev GuardedExpr.WellFormed (known : Token × Span → Prop) (found : GuardedExpr) : Prop :=
  (Node.guarded found).WellFormed known

abbrev Decl.WellFormed (known : Token × Span → Prop) (found : Decl) : Prop :=
  (Node.decl found).WellFormed known

abbrev SelectionList.WellFormed (known : Token × Span → Prop) (found : SelectionList) : Prop :=
  (Node.selections found).WellFormed known

/-- A node without children of which nothing is asked. -/
theorem Node.wellFormed_leaf {node : Node} (own : node.Formed known) (bare : node.children = []) :
    node.WellFormed known := by
  refine .intro own fun child member => ?_
  rw [bare] at member
  cases member

namespace Name

theorem IsToken.formed {name : Name} (own : name.IsToken known) : name.WellFormed known := by
  cases name with
  | qualified segments span => exact own.elim
  | simple span | operator span | special span | error span =>
    exact Node.wellFormed_leaf ⟨trivial, .token own⟩ rfl

theorem IsToken.whole {name : Name} (own : name.IsToken known) : name.Whole known where
  formed := own.formed
  linked := own.linked

theorem formed_qualified {segments : List Name} {span : Span} (several : 2 ≤ segments.length)
    (each : ∀ segment ∈ segments, segment.IsToken known) :
    Name.WellFormed known (.qualified segments span) := by
  refine .intro ⟨⟨several, fun segment among => (each segment among).isSegment⟩, .segments each⟩ ?_
  exact List.forall_mem_map.2 fun segment among => (each segment among).formed

theorem formed_error (span : Span) : Name.WellFormed known (.error span) := IsToken.formed trivial

theorem whole_special {span : Span} (bracketed : span.IsBracketed known) :
    Name.Whole known (.special span) where
  formed := Node.wellFormed_leaf ⟨trivial, .brackets bracketed⟩ rfl
  linked := trivial

end Name

namespace Parser

/-- Whatever a parser meets from here on is known. -/
def Sees (known : Token × Span → Prop) (parser : Parser) : Prop :=
  ∀ place, known (parser.upcoming.get place)

namespace Sees

variable {parser after : Parser}

theorem ahead (sees : parser.Sees known) : known (parser.ahead, parser.aheadSpan) := sees 0

theorem of_same (sees : parser.Sees known) (same : after.upcoming = parser.upcoming) :
    after.Sees known := by
  intro place
  rw [same]
  exact sees place

theorem consume (sees : parser.Sees known) : parser.consume.Sees known := by
  intro place
  have later := sees (place + 1)
  rw [upcoming_consume parser] at later
  exact later

theorem consumeInner (sees : parser.Sees known) : parser.consumeInner.Sees known := by
  unfold Parser.consumeInner
  split
  · exact sees
  · exact sees.consume

theorem refuseNesting (sees : parser.Sees known) : parser.refuseNesting.2.Sees known := by
  have reported : ({ parser with
      context := parser.context.report .nestingTooDeep parser.aheadSpan } : Parser).Sees known :=
    sees
  exact reported.consumeInner

theorem perform (sees : parser.Sees known) (act : Act) : (act.perform parser).Sees known := by
  cases act with
  | consume => exact sees.consume
  | putBy => exact sees.of_same (upcoming_fill parser)
  | report =>
    rcases reportUnexpected_cases parser with same | reported
    · rw [Act.perform, same]
      exact sees
    · rw [Act.perform, reported]
      exact sees
  | reportAt span => exact sees
  | raise fault => exact sees
  | enter =>
    rw [Act.perform, Parser.enterNesting]
    split
    · exact sees
    · exact sees.refuseNesting
  | leave =>
    rw [Act.perform, Parser.leaveNesting]
    split
    · exact sees
    · exact sees

theorem performed (sees : parser.Sees known) (acts : List Act) :
    (performed acts parser).Sees known := by
  induction acts generalizing parser with
  | nil => exact sees
  | cons act later induction => exact induction (sees.perform act)

theorem returns (sees : parser.Sees known) (returns : parser.Returns after) : after.Sees known := by
  obtain ⟨acts, trip⟩ := returns
  exact trip.reaches ▸ sees.performed acts

end Sees

end Parser

namespace Parse

variable {α β : Type}

/-- From this state a production returns a value of this kind, and what is met after it is known. -/
def YieldsFrom (known : Token × Span → Prop) (production : Parse α) (holds : α → Prop)
    (parser : Parser) : Prop :=
  parser.Sees known → holds (production parser).1 ∧ (production parser).2.Sees known

def Yields (known : Token × Span → Prop) (production : Parse α) (holds : α → Prop) : Prop :=
  ∀ parser, YieldsFrom known production holds parser

/-- A step that looks at the state, which is known. -/
theorem YieldsFrom.look {read : Parser → α} {next : α → Parse β} {holds : β → Prop} {parser : Parser}
    (later : YieldsFrom known (next (read parser)) holds parser) :
    YieldsFrom known ((fun parser => (read parser, parser)) >>= next) holds parser :=
  later

/-- From this state a step returns a value of a kind, and nothing more is asked of the state. -/
theorem YieldsFrom.bind {production : Parse α} {next : α → Parse β} {holds : α → Prop}
    {post : β → Prop} {parser : Parser} (first : YieldsFrom known production holds parser)
    (later : ∀ value, holds value → Yields known (next value) post) :
    YieldsFrom known (production >>= next) post parser := by
  intro sees
  obtain ⟨held, seesAfter⟩ := first sees
  exact later _ held _ seesAfter

/-- One nesting level deeper the same token is ahead, and beyond the limit nothing is read. -/
theorem YieldsFrom.nested {refused : Span → α} {production : Parse α} {holds : α → Prop}
    {parser : Parser} (held : ∀ span, holds (refused span))
    (made : ∀ entered : Parser, entered.ahead = parser.ahead →
      YieldsFrom known production holds entered) :
    YieldsFrom known (nested refused production) holds parser := by
  intro sees
  unfold Parse.nested
  rw [bind_apply]
  rcases entering : enterNesting parser with ⟨refusal, entered⟩
  have seesEntered : entered.Sees known := by
    have performed := sees.perform .enter
    rwa [Act.perform, show parser.enterNesting.2 = entered from congrArg Prod.snd entering] at performed
  cases refusal with
  | some span => exact ⟨held span, seesEntered⟩
  | none =>
    have same : entered.ahead = parser.ahead := by
      change parser.enterNesting = _ at entering
      unfold Parser.enterNesting at entering
      split at entering
      · exact congrArg (fun answer => answer.2.ahead) entering.symm
      · cases congrArg Prod.fst entering
    obtain ⟨found, left⟩ := made entered same seesEntered
    exact ⟨found, left.perform .leave⟩

namespace Yields

variable {production : Parse α} {next : α → Parse β} {item : Parse α} {holds : α → Prop}
  {post : β → Prop}

theorem pure {value : α} (held : holds value) : Yields known (pure value) holds :=
  fun _ sees => ⟨held, sees⟩

theorem bind {middle : α → Prop} (first : Yields known production middle)
    (later : ∀ value, middle value → Yields known (next value) post) :
    Yields known (production >>= next) post :=
  fun parser => (first parser).bind later

/-- A step that keeps to its level passes over tokens, and what it returns does not matter. -/
theorem after (stays : ∀ {depth}, Stays (.nesting depth) production)
    (later : ∀ value, Yields known (next value) post) : Yields known (production >>= next) post :=
  fun parser sees => later _ _ (sees.returns (stays parser rfl).2)

/-- A step that only looks at the state. -/
theorem look {read : Parser → α} (later : ∀ value, Yields known (next value) post) :
    Yields known ((fun parser => (read parser, parser)) >>= next) post :=
  fun parser sees => later (read parser) parser sees

theorem spanFrom {start : Span} {next : Span → Parse β}
    (later : ∀ span : Span, span.start = start.start → Yields known (next span) post) :
    Yields known (Parse.spanFrom start >>= next) post := by
  refine fun parser sees => later (parser.spanFrom start) ?_ parser sees
  unfold Parser.spanFrom
  split
  · rfl
  · rfl

theorem map {change : α → β} (made : Yields known production fun value => post (change value)) :
    Yields known (change <$> production) post :=
  made

theorem mono {weaker : α → Prop} (made : Yields known production holds)
    (weaken : ∀ value, holds value → weaker value) : Yields known production weaker :=
  fun parser sees => ⟨weaken _ (made parser sees).1, (made parser sees).2⟩

theorem ite {condition : Prop} [Decidable condition] {first second : Parse α}
    (taken : Yields known first holds) (missed : Yields known second holds) :
    Yields known (if condition then first else second) holds := by
  split
  · exact taken
  · exact missed

theorem branch {condition : Prop} [Decidable condition] {first second : Parse α}
    (taken : condition → Yields known first holds) (missed : ¬condition → Yields known second holds) :
    Yields known (if condition then first else second) holds := by
  split
  · exact taken ‹_›
  · exact missed ‹_›

theorem orRaise [Inhabited α] {result : Except Fault α}
    (made : ∀ value, result = .ok value → holds value) (standIn : holds default) :
    Yields known (orRaise result) holds := by
  cases result with
  | ok value => exact pure (made value rfl)
  | error fault => exact after (.raise fault) fun _ => pure standIn

theorem refuse {refused : Span → α} (held : ∀ span, holds (refused span)) :
    Yields known (refuse refused) holds :=
  fun _ sees => ⟨held _, sees.refuseNesting⟩

theorem nested {refused : Span → α} (held : ∀ span, holds (refused span))
    (made : Yields known production holds) : Yields known (nested refused production) holds :=
  fun _ => .nested held fun entered _ => made entered

/-- What holds of every value of an item holds of every value of its repetition. -/
theorem repeatUntil {more : Parse Bool} {item : Parse (α ⊕ β)} {closes : β → Prop}
    (asks : ∀ {depth}, Stays (.nesting depth) more) (each : Yields known item (Sum.elim holds closes)) :
    Yields known (repeatUntil more item) fun found =>
      (∀ value ∈ found.1, holds value) ∧ ∀ last ∈ found.2, closes last := by
  intro parser sees
  unfold Parse.repeatUntil
  generalize parser.remaining = bound
  induction bound using Nat.strong_induction_on generalizing parser with
  | _ bound induction =>
    rw [repeatBelow]
    have asked := sees.returns (asks parser rfl).2
    generalize more parser = answer at asked ⊢
    obtain ⟨goes, going⟩ := answer
    cases goes with
    | false => exact ⟨by simp, asked⟩
    | true =>
      obtain ⟨made, seesAfter⟩ := each going asked
      dsimp only
      generalize item going = answer at made seesAfter ⊢
      obtain ⟨found, after⟩ := answer
      cases found with
      | inr last => exact ⟨by simpa using made, seesAfter⟩
      | inl value =>
        dsimp only
        by_cases progress : after.remaining < bound
        · rw [if_pos progress]
          obtain ⟨⟨values, last⟩, seesLater⟩ :=
            induction after.remaining progress after seesAfter
          exact ⟨⟨List.forall_mem_cons.2 ⟨made, values⟩, last⟩, seesLater⟩
        · rw [if_neg progress]
          exact ⟨by simpa using made, seesAfter⟩

theorem many {more : Parse Bool} (asks : ∀ {depth}, Stays (.nesting depth) more)
    (each : Yields known item holds) :
    Yields known (many more item) fun values => ∀ value ∈ values, holds value := by
  have rounds : Yields known
      (Parse.repeatUntil more (Sum.inl <$> item : Parse (α ⊕ Empty))) fun found =>
        (∀ value ∈ found.1, holds value) ∧ ∀ last ∈ found.2, True :=
    repeatUntil asks each
  exact rounds.bind fun _ held => pure held.1

theorem manyCalled {token : Token} {more : Parse Bool}
    (goes : ∀ {parser : Parser}, parser.ahead = token → (more parser).1 = true)
    (asks : ∀ {depth}, Stays (.nesting depth) more) (each : Yields known item holds)
    {next : List α → Parse β} {absent : Parse β}
    (later : ∀ values, values ≠ [] → (∀ value ∈ values, holds value) →
      Yields known (next values) post)
    (missed : Yields known absent post) :
    Yields known
      (Parse.isAt token >>= fun stands => if stands = true then Parse.many more item >>= next else absent)
      post := by
  intro parser
  apply YieldsFrom.look
  split
  · intro sees
    obtain ⟨held, seesAfter⟩ := many asks each parser sees
    exact later _ (many_ne_nil (goes (of_decide_eq_true ‹_›))) held _ seesAfter
  · exact missed parser

theorem separated {separator : Token} (each : Yields known item holds) :
    Yields known (separated separator item) fun values =>
      values ≠ [] ∧ ∀ value ∈ values, holds value := by
  refine each.bind fun first held => (many (.accept _) each).bind fun later heldLater => ?_
  exact pure ⟨List.cons_ne_nil first later, List.forall_mem_cons.2 ⟨held, heldLater⟩⟩

end Yields

end Parse

end Offside
