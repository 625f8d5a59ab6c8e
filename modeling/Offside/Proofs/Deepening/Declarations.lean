import Offside.Proofs.Deepening.Patterns

/-!
Declarations at the fork. The operators whose fixity is declared are looked for by two tokens, as those
of patterns are; everything else that a declaration is made of passes the fork as its parts do.
-/

namespace Offside

set_option autoImplicit false

open Offside.Parser

namespace Node

variable {place : Span} {node child : Node}

theorem Spares.below (spared : node.Spares place) (member : child ∈ node.children) :
    child.Spares place :=
  Every.child spared child member

theorem spares_hereditary (place : Span) :
    Parse.Hereditary fun value => (Node.expr value).Spares place :=
  fun _ _ spared member => spared.below member

end Node

namespace Parser.Detour

@[simp] abbrev SameRightSide (detour : Detour) (first second : RightSide) : Prop :=
  second.sketch Name.bare = first.sketch detour.names

@[simp] abbrev SameBody (detour : Detour) (first second : Body) : Prop :=
  second.sketch Name.bare = first.sketch detour.names

end Parser.Detour

namespace Haskell.Grammar

open Offside.Parse Offside.Parser.Detour

variable {detour : Detour} {given needs : Prop} {inner : Level} {left right : Parser}

abbrev TrailsDecl (detour : Detour) (given needs : Prop) (first second : Parse Decl)
    (left right : Parser) : Prop :=
  Trails detour given needs (fun value _ => detour.SparedDecl value) detour.SameDecl first second left
    right

section RightSides

theorem guardedExpr_trails (trailed : inner.Trailed detour) {separator : Token}
    (free : separator.isFree = true) (found : left.ahead = .pipe) :
    Trails detour True True (fun value _ => (Node.guarded value).Spares detour.fork)
      (fun value other => other.sketch Name.bare = value.sketch detour.names)
      (guardedExpr inner separator) (guardedExpr inner separator) left right := by
  unfold guardedExpr
  refine .aheadSpan (.take found rfl fun left' right' => ?_)
  refine .bind (trailed.expression left' right') fun guard guard' left right => ?_
  refine .expect free fun _ left right => ?_
  refine .bind (trailed.expression left right) fun body body' left right => ?_
  refine .finish (fun span spared => ⟨⟨trivial, spared.below (by simp)⟩, spared.below (by simp)⟩)
    (fun known => known.1.1.2) ?_
  rintro span other ⟨⟨-, guard⟩, body⟩ same
  simp_all

theorem whereDecls?_trails (trailed : inner.Trailed detour) :
    Tracks detour (fun found _ => ∀ decl ∈ found, detour.SparedDecl decl) detour.SameDecls
      (whereDecls? inner) := by
  intro left right
  unfold whereDecls?
  refine .accept rfl (fun left right => trailed.declBlock left right) fun _ => ?_
  exact .pure (fun _ => trivial) fun _ => rfl

theorem finishRightSide_trails (trailed : inner.Trailed detour) {start opposite : Span}
    {body other : Body} (starts : given → opposite.blank = start.blank)
    (same : given → detour.SameBody body other) (left right : Parser) :
    Trails detour given (∀ node ∈ body.nodes, node.Spares detour.fork)
      (fun value _ => (Node.rightSide value).Spares detour.fork) detour.SameRightSide
      (finishRightSide inner start body) (finishRightSide inner opposite other) left right := by
  unfold finishRightSide
  refine .bind (whereDecls?_trails trailed left right) fun decls decls' left right => ?_
  refine .finish (fun span spared => ⟨fun node member => spared.below (by simp [member]),
    fun decl member => spared.below (by simp [member])⟩) (fun known => starts known.1) ?_
  rintro span other ⟨premise, decls⟩ alike
  have bodies := same premise
  simp_all

theorem rightSide_trails (trailed : inner.Trailed detour) {separator : Token}
    (free : separator.isFree = true) :
    Tracks detour (fun value _ => (Node.rightSide value).Spares detour.fork) detour.SameRightSide
      (rightSide inner separator) := by
  intro left right
  unfold rightSide
  refine .aheadSpan (.isAt (fun _ => ?_) fun _ => .accept free (fun left' right' => ?_) fun _ => ?_)
  · refine .bind (many_isAt_trails (fun _ _ => guardedExpr_trails trailed free) left right)
      fun found others left' right' => ?_
    refine (finishRightSide_trails trailed (fun known => known.1.2) (fun known => ?_) left'
      right').needing fun needed => ⟨trivial, fun value member => needed _ ?_⟩
    · simpa using known.2
    · simpa [Body.nodes] using member
  · refine .bind (trailed.expression left' right') fun body body' left' right' => ?_
    refine (finishRightSide_trails trailed (fun known => known.1.2) (fun known => ?_) left'
      right').needing fun needed => ⟨trivial, needed _ (by simp [Body.nodes])⟩
    simpa using known.2
  · exact .reportUnexpected fun _ => id

end RightSides

section Fixities

theorem precedence_trails : Follows detour Eq precedence := by
  intro left right
  unfold precedence
  refine .isAt (fun found => ?_) fun _ => .pure (fun _ => trivial) fun _ => rfl
  obtain ⟨precedenceIn, known⟩ := exists_precedenceAhead
  have rest : ∀ value : Option Nat, Shadows detour True Eq
      (do
        if value.isNone then Parse.reportUnexpected
        Parse.consume
        return value)
      (do
        if value.isNone then Parse.reportUnexpected
        Parse.consume
        return value) left right := by
    intro value
    split
    · exact .reportUnexpected fun after clean => clean_of_consume clean
    · exact .take found rfl fun left right => .pure (fun _ => trivial) fun _ => rfl
  refine .step (known left) (fun twin => ?_) id (fun twin => .refl twin) (rest _)
  rw [known, twin.lexeme (by rw [found]; rfl)]

theorem fixityOperator_trails :
    Tracks detour (fun value _ => value.isLedBy detour.fork = false) detour.SameName
      fixityOperator := by
  intro left right
  have looked : Trails detour True True
      (fun found _ => ∀ name ∈ found, name.isLedBy detour.fork = true → ¬True)
      (SameOption detour) operator? operator? left right :=
    operator?_trails.knowing fun _ _ => trivial
  unfold fixityOperator
  refine .bind looked fun found found' left right => ?_
  apply trails_option found found' And.right
  · exact fun _ => .spoil (reject_spoils left) fun _ _ => id
  · rintro name other rfl same
    refine .pure (fun unled => ⟨trivial, ?_⟩) same
    rintro other ⟨⟩ led
    rw [unled] at led
    cases led

theorem fixityDecl_trails (free : left.ahead.isFree = true) :
    TrailsDecl detour True True fixityDecl fixityDecl left right := by
  unfold fixityDecl
  refine .aheadSpan (.ahead (.consume free fun mirror => ?_))
  refine .bind (precedence_trails _ _) fun precedence other left' right' => ?_
  refine .bind (separated_trails rfl fixityOperator_trails left' right')
    fun operators operators' left' right' => ?_
  refine .finish (fun span spared => ⟨⟨trivial, trivial⟩, ?_⟩) (fun known => known.1.1.2) ?_
  · exact Node.Every.own spared
  · rintro span other ⟨⟨-, rfl⟩, operators⟩ same
    simp_all

end Fixities

section Bindings

theorem trails_patternContinues {α β : Type} {spares : α → Parser → Prop}
    {linked : α → β → Prop} {next : Bool → Parse α} {other : Bool → Parse β}
    (later : ∀ continues middle mirror,
      Trails detour given needs spares linked (next continues) (other continues) middle mirror) :
    Trails detour given needs spares linked (patternContinues >>= next)
      (patternContinues >>= other) left right := by
  unfold patternContinues
  simp only [Trails.bind_assoc_iff]
  refine .ahead ?_
  split
  · exact later true left right
  · exact trails_quotedFollows fun found middle mirror _ _ => later found middle mirror

theorem trails_parenthesizedOperatorFollows {α β : Type} {spares : α → Parser → Prop}
    {linked : α → β → Prop} {next : Bool → Parse α} {other : Bool → Parse β}
    (opened : left.ahead = .openParen)
    (later : ∀ follows middle mirror, middle.ahead = left.ahead →
      Trails detour given needs spares linked (next follows) (other follows) middle mirror) :
    Trails detour given needs spares linked (parenthesizedOperatorFollows >>= next)
      (parenthesizedOperatorFollows >>= other) left right := by
  unfold parenthesizedOperatorFollows
  simp only [Trails.bind_assoc_iff]
  refine .peek (.inl rfl) (by rw [opened]; rfl) fun middle mirror stands => ?_
  have here := ahead_of_upcoming stands
  split
  · rename_i operator
    simp only [Trails.bind_assoc_iff]
    refine .peek (.inr ⟨rfl, ?_⟩) (by rw [here, opened]; rfl) fun middle' mirror' stands' => ?_
    · rw [stands]
      intro ended
      rw [ended] at operator
      cases operator
    · exact later _ _ _ ((ahead_of_upcoming stands').trans here)
  · exact later false _ _ here

variable (trailed : inner.Trailed detour) {start opposite : Span}
  (starts : given → opposite.blank = start.blank)

include trailed starts

theorem typeSignature_trails {first first' : Name} (same : given → detour.SameName first first')
    (left right : Parser) :
    TrailsDecl detour given True (typeSignature inner start first)
      (typeSignature inner opposite first') left right := by
  unfold typeSignature
  refine .bind (many_accept_trails rfl variableName_trails left right)
    fun later later' left right => ?_
  refine .expect rfl fun _ left right => ?_
  refine .bind (trailed.type left right) fun type type' left right => ?_
  refine .finish (fun _ _ => by simp) (fun known => starts known.1.1) ?_
  rintro span other ⟨⟨premise, later⟩, type⟩ alike
  have head := same premise
  simp_all

theorem operatorClause_trails {operand other : Expr} {operator operator' : Name}
    (same : given → detour.SameExpr operand other) (named : given → detour.SameName operator operator')
    (left right : Parser) :
    TrailsDecl detour given (detour.SparedPattern operand)
      (operatorClause inner start operand operator) (operatorClause inner opposite other operator')
      left right := by
  unfold operatorClause
  refine .bind (trailed.pattern left right) fun last last' left right => ?_
  refine .bind (rightSide_trails trailed rfl left right) fun body body' left right => ?_
  refine .finish (fun span spared => ?_) (fun known => starts known.1.1) ?_
  · have patterns : ∀ pattern ∈ [operand, last], detour.SparedPattern pattern :=
      Node.Every.own spared
    exact ⟨⟨patterns _ (by simp), patterns _ (by simp)⟩, spared.below (by simp)⟩
  · rintro span other ⟨⟨premise, last⟩, body⟩ alike
    have first := same premise
    have name := named premise
    simp_all

theorem declAfterPattern_trails {pattern other : Expr}
    (same : given → detour.SameExpr pattern other) (left right : Parser) :
    TrailsDecl detour given (detour.SparedPattern pattern) (declAfterPattern inner start pattern)
      (declAfterPattern inner opposite other) left right := by
  unfold declAfterPattern
  refine .bind (variableOperator?_trails left right) fun found found' left right => ?_
  apply trails_option found found' And.right
  · intro _
    refine .bind (rightSide_trails trailed rfl left right) fun body body' left right => ?_
    refine .finish (fun span spared => ?_) (fun known => starts known.1.1) ?_
    · have pattern := Node.Every.own spared
      exact ⟨⟨pattern, trivial⟩, spared.below (by simp)⟩
    · rintro span other ⟨known, body⟩ alike
      have first := same known.1
      simp_all
  · intro operator operator' _ named
    exact (operatorClause_trails trailed (fun known => starts known.1) (fun known => same known.1)
      named left right).needing fun needed => ⟨needed, trivial⟩

theorem patternDecl_trails (left right : Parser) :
    TrailsDecl detour given True (patternDecl inner start) (patternDecl inner opposite) left
      right := by
  unfold patternDecl
  refine .bind (trailed.pattern left right) fun pattern pattern' left right => ?_
  exact (declAfterPattern_trails trailed (fun known => starts known.1) (fun known => known.2) left
    right).needing fun needed => ⟨trivial, needed⟩

variable {name name' : Name} (same : given → detour.SameName name name')

include same

theorem patternAfterVariable_trails (left right : Parser) :
    TrailsExpr detour detour.SparedPattern given True (patternAfterVariable inner start name)
      (patternAfterVariable inner opposite name') left right := by
  unfold patternAfterVariable
  refine .bind_given (aliasAfter_trails (sparesPattern_hereditary _) trailed.patternAtom starts same
    left right) fun atom atom' left right => ?_
  exact (patternAfter_trails trailed (fun known => starts known.1) (fun known => known.2) left
    right).needing fun needed => ⟨trivial, needed.1⟩

theorem functionClause_trails (left right : Parser) :
    TrailsDecl detour given True (functionClause inner start name)
      (functionClause inner opposite name') left right := by
  unfold functionClause
  refine .bind (patternAtoms_trails trailed left right) fun found found' left right => ?_
  refine .bind (rightSide_trails trailed rfl left right) fun body body' left right => ?_
  refine .finish (fun span spared => ?_) (fun known => starts known.1.1) ?_
  · have patterns := Node.Every.own spared
    exact ⟨⟨trivial, patterns⟩, spared.below (by simp)⟩
  · rintro span other ⟨⟨known, parameters⟩, body⟩ alike
    have named := same known
    simp_all

theorem declAfterName_trails (left right : Parser) :
    TrailsDecl detour given True (declAfterName inner start name) (declAfterName inner opposite name')
      left right := by
  unfold declAfterName
  have signature := typeSignature_trails trailed starts same left right
  refine .isAt (fun _ => .isAt (fun _ => signature) fun _ => signature)
    fun _ => .isAt (fun _ => signature) fun _ => ?_
  refine trails_patternContinues fun continues left right => ?_
  cases continues with
  | true =>
    refine .bind_given (patternAfterVariable_trails trailed starts same left right)
      fun pattern pattern' left right => ?_
    exact (declAfterPattern_trails trailed (fun known => starts known.1) (fun known => known.2) left
      right).needing fun needed => ⟨trivial, needed⟩
  | false =>
    refine .bind (variableOperator?_trails left right) fun found found' left right => ?_
    apply trails_option found found' And.right
    · exact fun _ => (functionClause_trails trailed (fun known => starts known.1)
        (fun known => same known.1) left right).needing fun _ => ⟨trivial, trivial⟩
    · intro operator operator' _ named
      exact (operatorClause_trails trailed (fun known => starts known.1)
        (fun known => by simpa using same known.1) named left right).needing fun _ => by simp

omit starts same

theorem bindingDecl_trails (left right : Parser) :
    TrailsDecl detour True True (bindingDecl inner) (bindingDecl inner) left right := by
  unfold bindingDecl
  refine .aheadSpan (.ahead ?_)
  have starts : True ∧ right.aheadSpan.blank = left.aheadSpan.blank → _ := And.right
  split
  · refine .bind (variableIdentifier_trails left right) fun name name' left right => ?_
    exact (declAfterName_trails trailed (fun known => starts known.1) (fun known => known.2.name) left
      right).needing fun _ => by simp
  · refine trails_parenthesizedOperatorFollows ‹_› fun follows middle mirror here => ?_
    cases follows with
    | true =>
      refine .bind (parenthesizedSymbol_trails (here.trans ‹_›) variableSymbol_trails)
        fun name name' left right => ?_
      exact (declAfterName_trails trailed (fun known => starts known.1) (fun known => known.2) left
        right).needing fun _ => by simp
    | false => exact patternDecl_trails trailed starts _ _
  · exact patternDecl_trails trailed starts _ _

theorem decl_trails (left right : Parser) :
    TrailsDecl detour True True (decl inner) (decl inner) left right := by
  unfold decl
  refine .ahead ?_
  split
  · exact .aheadSpan (.pure (fun _ => trivial) fun known => by simpa using known.2)
  iterate 3 exact fixityDecl_trails (by rw [‹left.ahead = _›]; rfl)
  exact bindingDecl_trails trailed left right

end Bindings

end Haskell.Grammar

end Offside
