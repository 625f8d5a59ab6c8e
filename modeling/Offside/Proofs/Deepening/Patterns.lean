import Offside.Proofs.Deepening.Names

/-!
Types at the fork, and what is asked of the productions of a level. A type has no infix operators, so a
run that meets the qualifier inside one does not end clean, and nothing has to be spared in it.
-/

namespace Offside

set_option autoImplicit false

open Offside.Parser

namespace Parser.Detour

@[simp] abbrev SameType (detour : Detour) (first second : TypeTerm) : Prop :=
  second.sketch Name.bare = first.sketch detour.names

@[simp] abbrev SameExpr (detour : Detour) (first second : Expr) : Prop :=
  second.sketch Name.bare = first.sketch detour.names

@[simp] abbrev SameDecl (detour : Detour) (first second : Decl) : Prop :=
  second.sketch Name.bare = first.sketch detour.names

variable {detour : Detour}

theorem SameType.span {first second : TypeTerm} (same : detour.SameType first second) :
    second.span.blank = first.span.blank := by
  rw [← TypeTerm.span_sketch keepsPlaces_bare, same,
    TypeTerm.span_sketch (keepsPlaces_deepened detour.fork detour.depth)]

theorem SameExpr.span {first second : Expr} (same : detour.SameExpr first second) :
    second.span.blank = first.span.blank := by
  rw [← Expr.span_sketch keepsPlaces_bare, same,
    Expr.span_sketch (keepsPlaces_deepened detour.fork detour.depth)]

@[simp] abbrev SameExprs (detour : Detour) (first second : List Expr) : Prop :=
  second.map (Expr.sketch Name.bare) = first.map (Expr.sketch detour.names)

@[simp] abbrev SameDecls (detour : Detour) (first second : List Decl) : Prop :=
  second.map (Decl.sketch Name.bare) = first.map (Decl.sketch detour.names)

/-- Nothing below an expression was looked for by two tokens alone. -/
abbrev Spared (detour : Detour) (value : Expr) : Prop := (Node.expr value).Spares detour.fork

abbrev SparedPattern (detour : Detour) (value : Expr) : Prop := value.SparesPattern detour.fork

abbrev SparedDecl (detour : Detour) (value : Decl) : Prop := (Node.decl value).Spares detour.fork

end Parser.Detour

namespace Parse

/-- Expressions of which a kept one consists of kept ones. -/
def Hereditary (kept : Expr → Prop) : Prop :=
  ∀ ⦃whole part⦄, kept whole → .expr part ∈ (Node.expr whole).children → kept part

variable (detour : Detour) (kept : Expr → Prop)

abbrev TrailsExpr (given needs : Prop) (first second : Parse Expr) (left right : Parser) : Prop :=
  Trails detour given needs (fun value _ => kept value) detour.SameExpr first second left right

abbrev TracksExpr (production : Parse Expr) : Prop :=
  ∀ left right, TrailsExpr detour kept True True production production left right

abbrev TracksExprs (production : Parse (List Expr)) : Prop :=
  Tracks detour (fun found _ => ∀ value ∈ found, kept value) detour.SameExprs production

end Parse

namespace Haskell.Grammar

open Offside.Parse Offside.Parser.Detour

def EndsInBlock (value : Expr) (after : Parser) : Prop :=
  after.ahead = .properIdentifier → value.endsInBlock = true

structure Level.Trailed (detour : Detour) (inner : Level) : Prop where
  expression : TracksExpr detour detour.Spared inner.expression
  pattern : TracksExpr detour detour.SparedPattern inner.pattern
  type : Follows detour detour.SameType inner.type
  expressionAtom : TracksExpr detour detour.Spared inner.expressionAtom
  patternAtom : TracksExpr detour detour.SparedPattern inner.patternAtom
  parentheses : ∀ left right, left.ahead = .openParen → TrailsExpr detour detour.Spared True True
    inner.parentheses inner.parentheses left right
  brackets : ∀ left right, left.ahead = .openBracket → TrailsExpr detour detour.Spared True True
    inner.brackets inner.brackets left right
  declBlock : Tracks detour (fun found _ => ∀ decl ∈ found, detour.SparedDecl decl)
    detour.SameDecls inner.declBlock
  alternativeBlock : Tracks detour
    (fun found _ => ∀ value ∈ found, (Node.alternative value).Spares detour.fork)
    (fun found opposite => opposite.map (Alternative.sketch Name.bare) =
      found.map (Alternative.sketch detour.names)) inner.alternativeBlock
  statementBlock : Tracks detour
    (fun found _ => ∀ value ∈ found, (Node.statement value).Spares detour.fork)
    (fun found opposite => opposite.map (Statement.sketch Name.bare) =
      found.map (Statement.sketch detour.names)) inner.statementBlock
  expressionEnds : ∀ parser, (inner.expression parser).2.Clean →
    EndsInBlock (inner.expression parser).1 (inner.expression parser).2
  typeEnds : ∀ parser, (inner.type parser).2.Clean →
    (inner.type parser).2.ahead ≠ .properIdentifier

variable {detour : Detour} {given : Prop} {inner : Level} {left right : Parser}

theorem isEmpty_of_map {α β γ : Type} {first : List α} {second : List β} {view : α → γ}
    {other : β → γ} (same : second.map other = first.map view) : second.isEmpty = first.isEmpty := by
  rw [← List.isEmpty_map (f := other), same, List.isEmpty_map]

section Types

theorem arrowConstructor_trails {start opposite : Span}
    (starts : given → opposite.blank = start.blank) :
    Shadows detour given detour.SameType (arrowConstructor start) (arrowConstructor opposite) left
      right := by
  unfold arrowConstructor
  refine .skipAll rfl fun left right => .accept_either rfl fun _ left right => ?_
  refine .expectOrSkipTo rfl fun _ left right => ?_
  exact .finish (fun _ _ => trivial) starts fun span other _ same => by simp [Name.deepened, same]

variable (trailed : inner.Trailed detour)

include trailed

theorem parenthesizedType_trails (opened : left.ahead = .openParen) :
    Shadows detour True detour.SameType (parenthesizedType inner) (parenthesizedType inner) left
      right := by
  unfold parenthesizedType
  refine .aheadSpan (.take opened rfl fun left' right' => ?_)
  refine .accept rfl (fun left right => ?_) fun _ => ?_
  · exact .finish (fun _ _ => trivial) (fun known => known.2) fun span other _ same => by simp [same]
  have special := @arrowConstructor_trails detour _ left' right' _ _
    (fun known : True ∧ right.aheadSpan.blank = left.aheadSpan.blank => known.2)
  refine .isAt (fun _ => .isAt (fun _ => special) fun _ => special)
    fun _ => .isAt (fun _ => special) fun _ => ?_
  refine .bind (trailed.type _ _) fun first first' left right => ?_
  refine .isAt (fun _ => ?_) fun _ => ?_
  · refine .bind (many_accept_trails rfl trailed.type left right) fun later later' left right => ?_
    refine .expectOrSkipTo rfl fun _ left right => ?_
    refine .finish (fun _ _ => by simp) (fun known => known.1.1.2) ?_
    rintro span other ⟨⟨-, first⟩, later⟩ same
    simp_all
  · refine .expectOrSkipTo rfl fun _ left right => ?_
    exact .pure (fun _ => by simp) fun known => known.2

theorem listType_trails (opened : left.ahead = .openBracket) :
    Shadows detour True detour.SameType (listType inner) (listType inner) left right := by
  unfold listType
  refine .aheadSpan (.take opened rfl fun left' right' => ?_)
  refine .accept rfl (fun left right => ?_) fun _ => ?_
  · exact .finish (fun _ _ => trivial) (fun known => known.2)
      fun span other _ same => by simp [Name.deepened, same]
  · refine .bind (trailed.type _ _) fun element element' left right => ?_
    refine .expectOrSkipTo rfl fun _ left right => ?_
    refine .finish (fun _ _ => by simp) (fun known => known.1.2) ?_
    rintro span other ⟨-, element⟩ same
    simp_all

theorem typeAtom_trails : Follows detour detour.SameType (typeAtom inner) := by
  intro left right
  unfold typeAtom
  refine .ahead ?_
  split
  · exact (qualifiedIdentifier_trails left right).map (fun _ _ => id)
      fun name other same => by simpa using same
  · exact (variableIdentifier_trails left right).map (fun _ _ => id)
      fun name other same => by simpa using same.name
  · rename_i opened
    exact parenthesizedType_trails trailed opened
  · rename_i opened
    exact listType_trails trailed opened
  · exact .unclean (reject_spoils left)

theorem typeApplication_trails : Follows detour detour.SameType (typeApplication inner) := by
  intro left right
  unfold typeApplication
  refine .aheadSpan ?_
  refine .bind (typeAtom_trails trailed left right) fun head head' left' right' => ?_
  refine .bind (many_while_trails (fun left right _ => typeAtom_trails trailed left right) left'
    right') fun arguments arguments' left right => ?_
  refine .rewrite (fun known => by rw [isEmpty_of_map known.2]) ?_
  split
  · exact .pure (fun _ => by simp) fun known => known.1.2
  · refine .finish (fun _ _ => by simp) (fun known => known.1.1.2) ?_
    rintro span other ⟨⟨-, head⟩, arguments⟩ same
    simp_all

omit trailed in
/-- Arrows are joined as far as the types around them are of one file. -/
theorem arrows_trails {first first' : TypeTerm} {later later' : List TypeTerm}
    (head : given → detour.SameType first first')
    (tail : given → later'.map (TypeTerm.sketch Name.bare) = later.map (TypeTerm.sketch detour.names)) :
    Shadows detour given detour.SameType (arrows first later) (arrows first' later') left right := by
  induction later generalizing first first' later' with
  | nil =>
    have stops : Shadows detour given detour.SameType (arrows first []) (arrows first' []) left
        right := .pure (fun _ => trivial) head
    exact .rewrite (fun premise => by rw [List.map_eq_nil_iff.1 (tail premise)]) stops
  | cons next later induction =>
    have joined : ∀ next' later',
        (given → (next' :: later').map (TypeTerm.sketch Name.bare) =
          (next :: later).map (TypeTerm.sketch detour.names)) →
        Shadows detour given detour.SameType (arrows first (next :: later))
          (arrows first' (next' :: later')) left right := by
      intro next' later' tail
      refine .bind_given (induction (fun premise => (List.cons.inj (tail premise)).1)
        fun premise => (List.cons.inj (tail premise)).2) fun result result' left right => ?_
      refine .join (fun known => (head known.1).span) (fun known => known.2.span)
        (fun span span' => ?_) fun _ _ => id
      refine .pure (fun _ => by simp) ?_
      rintro ⟨⟨premise, result⟩, span⟩
      simp_all
    cases later' with
    | nil =>
      have never : given → False := fun premise => by simpa using tail premise
      exact .unlike never (joined default [] fun premise => (never premise).elim)
    | cons next' later' => exact joined next' later' tail

theorem functionType_trails : Follows detour detour.SameType (functionType inner) := by
  intro left right
  unfold functionType
  refine .bind (typeApplication_trails trailed left right) fun first first' left right => ?_
  refine .bind (many_accept_trails rfl (typeApplication_trails trailed) left right)
    fun later later' left right => ?_
  exact (arrows_trails (fun known => known.1.2) fun known => known.2).needing fun _ => by simp

theorem typeProduction_trails : Follows detour detour.SameType (typeProduction inner) := by
  intro left right
  unfold typeProduction
  refine .aheadSpan ?_
  refine .bind (functionType_trails trailed left right) fun type type' left' right' => ?_
  refine .accept rfl (fun left right => ?_) fun _ => ?_
  · refine .bind (functionType_trails trailed left right) fun body body' left right => ?_
    refine .finish (fun _ _ => by simp) (fun known => known.1.1.2) ?_
    rintro span other ⟨⟨-, type⟩, body⟩ same
    simp_all
  · exact .pure (fun _ => by simp) fun known => known.2

end Types

end Haskell.Grammar

/-!
Patterns at the fork. The operator of a pattern is looked for by two tokens, whatever stands in front
of it, so the one that is written deeper must join nothing in a pattern. Among the arguments of a
constructor it is not read either: there the first run stops in front of it.
-/

namespace Haskell.Grammar

open Offside.Parse Offside.Parser.Detour

variable {detour : Detour} {given needs : Prop} {inner : Level} {left right : Parser}
  {kept : Expr → Prop}

section Atoms

theorem sparesPattern_hereditary (place : Span) : Hereditary (Expr.SparesPattern place) :=
  fun _ _ spared below => Node.Every.child spared _ below

theorem literal_trails : Follows detour detour.SameExpr literal := by
  intro left right
  unfold literal
  refine .ahead ?_
  have free : ∀ kind, literalKind? left.ahead = some kind → left.ahead.isFree = true := by
    intro kind found
    generalize left.ahead = token at found
    cases token <;> first | rfl | cases found
  cases found : literalKind? left.ahead with
  | some kind =>
    refine .aheadSpan (.consume (free kind found) fun mirror => ?_)
    exact .pure (fun _ => trivial) fun known => by simpa using known.2
  | none => exact .unclean (reject_spoils left)

theorem wildcard_trails (found : left.ahead = .underscore) :
    Shadows detour True detour.SameExpr wildcard wildcard left right := by
  unfold wildcard
  refine .aheadSpan (.take found rfl fun left right => ?_)
  exact .pure (fun _ => trivial) fun known => by simpa using known.2

theorem tupleConstructor_trails {start opposite : Span} (starts : given → opposite.blank = start.blank) :
    Shadows detour given detour.SameExpr (tupleConstructor start) (tupleConstructor opposite) left
      right := by
  unfold tupleConstructor
  refine .skipAll rfl fun left right => .expectOrSkipTo rfl fun _ left right => ?_
  exact .finish (fun _ _ => trivial) starts fun span other _ same => by simp [Name.deepened, same]

variable (below : Hereditary kept)

include below

theorem aliasAfter_trails {atom : Parse Expr} {start opposite : Span} {name other : Name}
    (trails : TracksExpr detour kept atom) (starts : given → opposite.blank = start.blank)
    (named : given → detour.SameName name other) (left right : Parser) :
    TrailsExpr detour kept given True (aliasAfter atom start name) (aliasAfter atom opposite other)
      left right := by
  unfold aliasAfter
  refine .accept rfl (fun left right => ?_) fun _ => ?_
  · refine .bind (trails left right) fun pattern pattern' left right => ?_
    refine .finish (fun span spared => ⟨trivial, below spared (by simp)⟩)
      (fun known => starts known.1) ?_
    rintro span other ⟨premise, pattern⟩ same
    have named := named premise
    simp_all
  · exact .pure (fun _ => trivial) fun known => by simpa using named known

theorem variableOrAlias_trails {atom : Parse Expr} (trails : TracksExpr detour kept atom) :
    TracksExpr detour kept (variableOrAlias atom) := by
  intro left right
  unfold variableOrAlias
  refine .aheadSpan (.bind (variableIdentifier_trails left right) fun name name' left' right' => ?_)
  exact (aliasAfter_trails below trails (fun known => known.1.2) (fun known => known.2.name) left'
    right').needing fun _ => ⟨trivial, trivial⟩

theorem lazyPattern_trails {atom : Parse Expr} (found : left.ahead = .tilde)
    (trails : TracksExpr detour kept atom) :
    TrailsExpr detour kept True True (lazyPattern atom) (lazyPattern atom) left right := by
  unfold lazyPattern
  refine .aheadSpan (.take found rfl fun left' right' => ?_)
  refine .bind (trails left' right') fun pattern pattern' left right => ?_
  refine .finish (fun span spared => ⟨trivial, below spared (by simp)⟩) (fun known => known.1.2) ?_
  rintro span other ⟨-, pattern⟩ same
  simp_all

theorem enclosed_trails {term : Parse Expr} {start opposite : Span} {first other : Expr}
    (trails : TracksExpr detour kept term) (starts : given → opposite.blank = start.blank)
    (same : given → detour.SameExpr first other) (left right : Parser) :
    TrailsExpr detour kept given (kept first) (enclosed term start first)
      (enclosed term opposite other) left right := by
  unfold enclosed
  refine .isAt (fun _ => ?_) fun _ => ?_
  · refine .bind (many_accept_trails rfl trails left right) fun later later' left right => ?_
    refine .expectOrSkipTo rfl fun _ left right => ?_
    refine .finish (fun span spared => ⟨below spared (by simp),
      fun value member => below spared (by simp [member])⟩) (fun known => starts known.1) ?_
    rintro span other ⟨premise, later⟩ alike
    have first := same premise
    simp_all
  · refine .expectOrSkipTo rfl fun _ left right => ?_
    refine .finish (fun span spared => below spared (by simp)) starts ?_
    intro span other premise alike
    have first := same premise
    simp_all

theorem listEnd_trails {start opposite : Span} {elements others : List Expr}
    (starts : given → opposite.blank = start.blank) (same : given → detour.SameExprs elements others)
    (left right : Parser) :
    TrailsExpr detour kept given (∀ value ∈ elements, kept value) (listEnd start elements)
      (listEnd opposite others) left right := by
  unfold listEnd
  refine .expectOrSkipTo rfl fun _ left right => ?_
  refine .finish (fun span spared value member => below spared (by simp [member])) starts ?_
  intro span other premise alike
  have values := same premise
  simp_all

end Atoms

section Operands

theorem trails_constructorThenParen {α β : Type} {spares : α → Parser → Prop} {linked : α → β → Prop}
    {next : Bool → Parse α} {other : Bool → Parse β}
    (later : ∀ follows middle mirror,
      (follows = true → middle.ahead.isConstructorOperator = true ∧
        (middle.upcoming.get 1).1 = .closeParen) →
      Trails detour given needs spares linked (next follows) (other follows) middle mirror) :
    Trails detour given needs spares linked (constructorThenParen >>= next)
      (constructorThenParen >>= other) left right := by
  unfold constructorThenParen
  simp only [Trails.bind_assoc_iff]
  refine .ahead ?_
  split
  · rename_i found
    simp only [Trails.bind_assoc_iff]
    refine .peek (.inl rfl) (free_of_constructorOperator found) fun middle mirror stands => ?_
    simp only [Trails.pure_bind_iff]
    refine later _ middle mirror fun closes => ?_
    exact ⟨by rwa [ahead_of_upcoming stands], by simpa [stands] using closes⟩
  · exact later false left right (by simp)

variable (trailed : inner.Trailed detour)

include trailed

theorem parenthesizedPattern_trails (opened : left.ahead = .openParen) :
    TrailsExpr detour detour.SparedPattern True True (parenthesizedPattern inner)
      (parenthesizedPattern inner) left right := by
  unfold parenthesizedPattern
  refine .aheadSpan (.take opened rfl fun left' right' => ?_)
  refine .accept rfl (fun left right => ?_) fun _ => .isAt (fun _ => ?_) fun _ => ?_
  · exact .finish (fun _ _ => trivial) (fun known => known.2) fun span other _ same => by simp [same]
  · exact (tupleConstructor_trails fun known => known.2).spare
  · refine trails_constructorThenParen fun follows left right closes => ?_
    cases follows with
    | true =>
      obtain ⟨operator, closes⟩ := closes rfl
      refine .needing (.bind_here (constructorSymbol_trails left right).presuming
        fun name mirror => ?_) And.left
      rw [constructorSymbol_apply operator]
      refine .take ((ahead_consume_eq left).trans closes) rfl fun left right => ?_
      exact .pure (fun _ => by simp) fun known => by simpa using known.2.name
    | false =>
      refine .bind (trailed.pattern left right) fun first first' left right => ?_
      exact (enclosed_trails (sparesPattern_hereditary _) trailed.pattern (fun known => known.1.2)
        (fun known => known.2) left right).needing fun spared => ⟨trivial, spared⟩

theorem listPattern_trails (opened : left.ahead = .openBracket) :
    TrailsExpr detour detour.SparedPattern True True (listPattern inner) (listPattern inner) left
      right := by
  unfold listPattern
  refine .aheadSpan (.take opened rfl fun left' right' => .isAt (fun _ => ?_) fun _ => ?_)
  · exact (listEnd_trails (sparesPattern_hereditary _) (fun known => known.2) (fun _ => rfl) _
      _).needing fun _ => trivial
  · refine .bind (separated_trails rfl trailed.pattern _ _) fun found others left right => ?_
    exact (listEnd_trails (sparesPattern_hereditary _) (fun known => known.1.2) (fun known => known.2)
      _ _).needing fun all => ⟨trivial, all⟩

theorem patternAtom_trails : TracksExpr detour detour.SparedPattern (patternAtom inner) := by
  intro left right
  unfold patternAtom
  refine .ahead ?_
  have below := sparesPattern_hereditary detour.fork
  split
  · exact variableOrAlias_trails below trailed.patternAtom left right
  · exact .spare ((qualifiedIdentifier_trails left right).map (fun _ _ => id)
      fun name other same => by simpa using same)
  · exact (wildcard_trails ‹_›).spare
  · exact lazyPattern_trails below ‹_› trailed.patternAtom
  iterate 4 exact (literal_trails left right).spare
  · exact parenthesizedPattern_trails trailed ‹_›
  · exact listPattern_trails trailed ‹_›
  · exact .unclean (reject_spoils left)

theorem patternAtoms_trails : TracksExprs detour detour.SparedPattern (patternAtoms inner) :=
  many_while_trails fun left right _ => patternAtom_trails trailed left right

theorem argumentRound_trails :
    Tracks detour (ItemSpares detour.SparedPattern (ClearOf detour))
      (fun found opposite => opposite.map (Expr.sketch Name.bare) =
        found.map (Expr.sketch detour.names))
      (oneRound argumentFollows (patternAtom inner)) := by
  intro left right
  by_cases clear : ClearOf detour left
  · simp only [oneRound, argumentFollows, Trails.bind_assoc_iff]
    refine .ahead ?_
    split
    · simp only [Trails.bind_assoc_iff]
      refine trails_qualifiedSymbolFollows qualified_of_constructorOperator
        (fun twin _ => qualifies_of_clear twin clear) fun middle mirror stands => ?_
      simp only [Trails.pure_bind_iff]
      split
      · exact (patternAtom_trails trailed middle mirror).map (fun _ _ => id)
          fun _ _ same => congrArg some same
      · exact .pure (fun _ => trivial) fun _ => rfl
    · exact .pure (fun _ => trivial) fun _ => rfl
  · -- the first run stops where the second does not
    obtain ⟨forked, follows⟩ : detour.AtFork left ∧
        qualifies Token.isConstructorOperator left.upcoming = true := by
      simpa [ClearOf] using clear
    obtain ⟨stands, told⟩ :=
      qualifiedSymbolFollows_tells qualified_of_constructorOperator left.upcoming left rfl
    have starts : startsPatternAtom left.ahead = true := by
      rw [show left.ahead = _ from forked.1]
      rfl
    have asked : argumentFollows left =
        (false, (qualifiedSymbolFollows Token.isConstructorOperator left).2) := by
      rw [argumentFollows, ahead_bind_apply, if_pos starts, bind_apply, told, follows]
      rfl
    have known : oneRound argumentFollows (patternAtom inner) left =
        (none, (qualifiedSymbolFollows Token.isConstructorOperator left).2) := by
      rw [oneRound, bind_apply, asked]
      rfl
    refine ⟨?_, ?_⟩
    · rw [known]
      exact mends (qualifiedSymbolFollows_stays _)
    · rw [known]
      intro _ spared
      generalize (qualifiedSymbolFollows Token.isConstructorOperator left).2 = looked at *
      have clear : ClearOf detour looked := spared
      have missed := clear (by rw [Detour.AtFork, nearest_of_upcoming stands]; exact forked)
      rw [stands, follows] at missed
      cases missed

theorem constructorPattern_trails {start opposite : Span} {constructor other : Expr}
    (starts : given → opposite.blank = start.blank)
    (same : given → detour.SameExpr constructor other) (left right : Parser) :
    Trails detour given (detour.SparedPattern constructor)
      (fun value after => detour.SparedPattern value ∧ ClearOf detour after) detour.SameExpr
      (constructorPattern inner start constructor) (constructorPattern inner opposite other) left
      right := by
  unfold constructorPattern
  refine .bind (many_trails_to (ClearOf detour) (argumentRound_trails trailed) left right)
    fun arguments arguments' left right => ?_
  refine .rewrite (fun known => by rw [isEmpty_of_map known.2]) ?_
  have below := sparesPattern_hereditary detour.fork
  split
  · rename_i empty
    refine .pure (fun spared => ⟨spared.1, ?_, spared.2⟩) fun known => same known.1
    simp [List.isEmpty_iff.1 empty]
  · refine .finish (fun span spared => ⟨below spared.1 (by simp),
      fun value member => below spared.1 (by simp [member]), spared.2⟩) (fun known => starts known.1) ?_
    rintro span other ⟨premise, arguments⟩ alike
    have constructed := same premise
    simp_all

omit trailed in
theorem trails_parenthesizedConstructorFollows {α β : Type} {spares : α → Parser → Prop}
    {linked : α → β → Prop} {next : Bool → Parse α} {other : Bool → Parse β}
    (opened : left.ahead = .openParen)
    (later : ∀ follows middle mirror, middle.ahead = left.ahead →
      Trails detour given needs spares linked (next follows) (other follows) middle mirror) :
    Trails detour given needs spares linked (parenthesizedConstructorFollows >>= next)
      (parenthesizedConstructorFollows >>= other) left right := by
  unfold parenthesizedConstructorFollows
  simp only [Trails.bind_assoc_iff]
  refine .peek (.inl rfl) (by rw [opened]; rfl) fun middle mirror stands => ?_
  have here := ahead_of_upcoming stands
  split
  · exact later true _ _ here
  · split
    · rename_i operator
      simp only [Trails.bind_assoc_iff]
      refine .peek (.inr ⟨rfl, ?_⟩) (by rw [here, opened]; rfl) fun middle' mirror' stands' => ?_
      · rw [stands]
        intro ended
        rw [ended] at operator
        cases operator
      · exact later _ _ _ ((ahead_of_upcoming stands').trans here)
    · exact later false _ _ here

omit trailed in
theorem numeral_trails : Follows detour detour.SameExpr numeral := by
  intro left right
  unfold numeral
  refine .ahead ?_
  split
  · exact literal_trails left right
  · exact literal_trails left right
  · exact .unclean (reject_spoils left)

omit trailed in
theorem negativeLiteral_trails (found : left.ahead = .minus) :
    Shadows detour True detour.SameExpr negativeLiteral negativeLiteral left right := by
  unfold negativeLiteral
  refine .aheadSpan (.take found rfl fun left' right' => ?_)
  refine .bind (numeral_trails _ _) fun operand other left right => ?_
  refine .finish (fun _ _ => by simp) (fun known => known.1.2) ?_
  rintro span other ⟨-, operand⟩ same
  simp_all

/-- An operand of a pattern ends in front of no qualified constructor operator of the fork. -/
theorem operandPattern_trails :
    Tracks detour (fun value after => detour.SparedPattern value ∧ ClearOf detour after)
      detour.SameExpr (operandPattern inner) := by
  have alone : ∀ left right, Trails detour True True (fun value after =>
      detour.SparedPattern value ∧ ClearOf detour after) detour.SameExpr (patternAtom inner)
        (patternAtom inner) left right := fun left right =>
    (patternAtom_trails trailed left right).mono id (fun _ => id) (fun _ => And.left) fun _ _ _ => id
  intro left right
  unfold operandPattern
  refine .aheadSpan (.ahead ?_)
  split
  · exact (negativeLiteral_trails ‹_›).spare.presuming
  · refine .bind (qualifiedIdentifier_trails left right) fun name name' left' right' => ?_
    exact (constructorPattern_trails trailed (fun known => known.1.2)
      (fun known => by simpa using known.2) left' right').needing fun _ => by simp
  · refine trails_parenthesizedConstructorFollows ‹_› fun follows middle mirror _ => ?_
    cases follows with
    | true =>
      refine .bind (patternAtom_trails trailed middle mirror) fun constructor other left' right' => ?_
      exact (constructorPattern_trails trailed (fun known => known.1.2) (fun known => known.2) left'
        right').needing fun spared => ⟨trivial, spared⟩
    | false => exact (alone middle mirror).presuming
  · exact (alone left right).presuming

/-- Behind an operand the operator that is written deeper would be missed. -/
theorem patternAfter_trails {start opposite : Span} {operand other : Expr}
    (starts : given → opposite.blank = start.blank) (same : given → detour.SameExpr operand other)
    (left right : Parser) :
    TrailsExpr detour detour.SparedPattern given (detour.SparedPattern operand ∧ ClearOf detour left)
      (patternAfter inner start operand) (patternAfter inner opposite other) left right := by
  unfold patternAfter
  refine .bind_both (constructorOperator?_trails left right).presuming fun found found' left right => ?_
  apply trails_option found found' And.right
  · rintro rfl
    exact .pure (fun spared => ⟨spared, nofun⟩) fun known => same known.1
  · rintro operator operator' rfl named
    refine .bind (trailed.pattern left right) fun last last' left right => ?_
    refine .finish (fun span spared => ?_) (fun known => starts known.1.1) ?_
    · have below := sparesPattern_hereditary detour.fork
      refine ⟨⟨below spared (by simp), ?_⟩, below spared (by simp)⟩
      rintro name ⟨⟩
      exact Node.Every.own spared
    · rintro span other ⟨premise, last⟩ alike
      have first := same premise.1
      have operator := named premise
      simp_all

theorem patternProduction_trails :
    TracksExpr detour detour.SparedPattern (patternProduction inner) := by
  intro left right
  unfold patternProduction
  refine .aheadSpan (.bind (operandPattern_trails trailed left right)
    fun operand other left' right' => ?_)
  exact (patternAfter_trails trailed (fun known => known.1.2) (fun known => known.2) left'
    right').needing fun needed => ⟨trivial, needed⟩

end Operands

end Haskell.Grammar

end Offside
