import Offside.Proofs.Lockstep.Crossing
import Offside.Proofs.Naming.Terms
import Offside.Proofs.Nesting.Budget

/-!
Declarations and expressions are well formed when the level below makes such trees. The operator that an
operand was read past is whole, since the chain around takes it.
-/

namespace Offside

set_option autoImplicit false

open Offside.Lexical

namespace Haskell.Grammar

open Offside.Parse

variable {known : Token × Span → Prop} {inner : Level}

theorem fixityOperator_formed : Yields known fixityOperator (Name.WellFormed known) := by
  refine operator?_whole.bind fun found whole => ?_
  cases found with
  | some name => exact .pure (whole name rfl).formed
  | none => exact rejected_yields Name.formed_error

theorem precedenceOf?_le {text : String} {value : Nat} (found : precedenceOf? text = some value) :
    value ≤ 9 := by
  unfold precedenceOf? at found
  dsimp only at found
  split at found
  · split at found
    · rename_i small
      rw [← Option.some.inj found]
      exact small
    · cases found
  · cases found

theorem precedence_le : Yields known precedence fun made => ∀ value ∈ made, value ≤ 9 := by
  have ahead : Yields known precedenceAhead fun made => ∀ value ∈ made, value ≤ 9 := by
    refine .look fun value => ?_
    split
    · exact .pure fun value member => precedenceOf?_le member
    · exact .pure nofun
  refine .look fun _ => .ite (ahead.bind fun value held => .ite ?_ ?_) (.pure nofun)
  · exact .after .reportUnexpected fun _ => .after .consume fun _ => .pure held
  · exact .after .consume fun _ => .pure held

structure WellMade (known : Token × Span → Prop) (made : Decl) : Prop where
  isLocal : made.isLocal = true
  written : made.isEmpty = false
  formed : made.WellFormed known

theorem fixityDecl_made : Yields known fixityDecl (WellMade known) := by
  refine .look fun _ => .look fun _ => .after .consume fun _ => precedence_le.bind fun _ small =>
    (Yields.separated fixityOperator_formed).bind fun _ held => .look fun _ => .pure ⟨rfl, rfl, ?_⟩
  exact .intro ⟨⟨List.length_pos_iff.2 held.1, small⟩, trivial⟩ (by simpa using held.2)

theorem isLocalBlock_nil : IsLocalBlock [] :=
  ⟨by simp, by simp⟩

section

variable (forms : inner.Forms known)

include forms

theorem guardedExpr_formed (separator : Token) :
    Yields known (guardedExpr inner separator) (GuardedExpr.WellFormed known) :=
  .look fun _ => .after .consume fun _ => forms.expression.bind fun _ heldGuard =>
    .after (.expect _) fun _ => forms.expression.bind fun _ heldBody => .look fun _ =>
      .pure (.intro ⟨trivial, trivial⟩ (by simpa using And.intro heldGuard heldBody))

theorem whereDecls?_formed : Yields known (whereDecls? inner) fun made =>
    IsLocalBlock made ∧ ∀ found ∈ made, found.WellFormed known :=
  .after (.accept _) fun _ => .ite forms.declBlock (.pure ⟨isLocalBlock_nil, by simp⟩)

theorem finishRightSide_formed (start : Span) {body : Body}
    (some : ∀ alternatives, body = .guarded alternatives → 1 ≤ alternatives.length)
    (held : ∀ node ∈ body.nodes, node.WellFormed known) :
    Yields known (finishRightSide inner start body) (RightSide.WellFormed known) := by
  refine (whereDecls?_formed forms).bind fun decls block => .look fun span =>
    .pure (.intro ⟨⟨some, block.1⟩, trivial⟩ fun child member => ?_)
  rcases List.mem_append.1 member with inBody | inDecls
  · exact held child inBody
  · obtain ⟨found, among, rfl⟩ := List.mem_map.1 inDecls
    exact block.2 found among

omit forms in
theorem guarded_of_plain {expr : Expr} (alternatives : List GuardedExpr)
    (same : Body.plain expr = .guarded alternatives) : 1 ≤ alternatives.length := by
  cases same

/-- Guards are read because one is ahead, so there is one. -/
theorem rightSide_formed (separator : Token) :
    Yields known (Grammar.rightSide inner separator) (RightSide.WellFormed known) := by
  refine .look fun start => .manyCalled decide_eq_true (.look fun _ => .pure _)
    (guardedExpr_formed forms separator) (fun alternatives some heldAll => ?_)
    (.after (.accept _) fun _ => .ite ?_ ?_)
  · refine finishRightSide_formed forms start ?_ (by simpa [Body.nodes] using heldAll)
    intro others same
    cases same
    exact List.length_pos_iff.2 some
  · exact forms.expression.bind fun body held =>
      finishRightSide_formed forms start guarded_of_plain (by simpa [Body.nodes] using held)
  · refine .after .reportUnexpected fun _ =>
      .pure (.intro ⟨⟨guarded_of_plain, isLocalBlock_nil⟩, trivial⟩ ?_)
    simpa [Body.nodes] using Expr.formed_error start

theorem typeSignature_made (start : Span) {first : Name} (held : first.WellFormed known) :
    Yields known (Grammar.typeSignature inner start first) (WellMade known) := by
  refine (Yields.many (.accept _) variableName_whole).bind fun later heldLater =>
    .after (.expect _) fun _ => forms.type.bind fun type heldType => .look fun span =>
      .pure ⟨rfl, rfl, .intro ⟨Nat.succ_le_succ (Nat.zero_le _), trivial⟩ ?_⟩
  simpa [or_imp, forall_and] using ⟨held, fun found among => (heldLater found among).formed, heldType⟩

omit forms in
theorem wellMade_function {found : Name} {parameters : List Expr} {betweenOperands : Bool}
    {body : RightSide} {span : Span} (two : betweenOperands = true → parameters.length = 2)
    (heldName : found.WellFormed known)
    (heldAll : ∀ parameter ∈ parameters, parameter.WellFormed known)
    (heldBody : body.WellFormed known) :
    WellMade known (.function found parameters betweenOperands body span) := by
  refine ⟨rfl, rfl, .intro ⟨?_, trivial⟩ ?_⟩
  · cases betweenOperands with
    | false => trivial
    | true => exact two rfl
  · simpa [or_imp, forall_and] using ⟨heldName, heldAll, heldBody⟩

theorem operatorClause_made (start : Span) {left : Expr} {operator : Name}
    (heldLeft : left.WellFormed known) (held : operator.WellFormed known) :
    Yields known (operatorClause inner start left operator) (WellMade known) :=
  forms.pattern.bind fun _ heldRight => (rightSide_formed forms _).bind fun _ heldBody =>
    .look fun _ => .pure (wellMade_function (fun _ => rfl) held
      (by simpa using And.intro heldLeft heldRight) heldBody)

theorem declAfterPattern_made (start : Span) {pattern : Expr} (held : pattern.WellFormed known) :
    Yields known (declAfterPattern inner start pattern) (WellMade known) := by
  refine variableOperator?_whole.bind fun found whole => ?_
  cases found with
  | some operator => exact operatorClause_made forms start held (whole operator rfl).formed
  | none =>
    exact (rightSide_formed forms _).bind fun _ heldBody => .look fun _ =>
      .pure ⟨rfl, rfl, .intro ⟨trivial, trivial⟩ (by simpa using And.intro held heldBody)⟩

theorem patternAfterVariable_formed (start : Span) {found : Name} (whole : found.Whole known) :
    Yields known (patternAfterVariable inner start found) (Expr.WellFormed known) :=
  (aliasAfter_formed forms.patternAtom start whole).bind fun _ held =>
    patternAfter_formed forms start held

theorem functionClause_made (start : Span) {found : Name} (whole : found.Whole known) :
    Yields known (functionClause inner start found) (WellMade known) :=
  (patternAtoms_formed forms).bind fun _ heldAll => (rightSide_formed forms _).bind
    fun _ heldBody => .look fun _ => .pure (wellMade_function nofun whole.formed heldAll heldBody)

theorem declAfterName_made (start : Span) {found : Name} (whole : found.Whole known) :
    Yields known (declAfterName inner start found) (WellMade known) := by
  refine .look fun _ => .look fun _ => .ite (typeSignature_made forms start whole.formed) <|
    .after patternContinues_stays fun _ => .ite ?_ (variableOperator?_whole.bind fun operator held => ?_)
  · exact (patternAfterVariable_formed forms start whole).bind fun _ heldPattern =>
      declAfterPattern_made forms start heldPattern
  · cases operator with
    | some operator =>
      exact operatorClause_made forms start whole.identifier (held operator rfl).formed
    | none => exact functionClause_made forms start whole

theorem patternDecl_made (start : Span) : Yields known (patternDecl inner start) (WellMade known) :=
  forms.pattern.bind fun _ held => declAfterPattern_made forms start held

theorem bindingDecl_made : Yields known (bindingDecl inner) (WellMade known) := by
  refine .look fun start => .look fun token => ?_
  split
  · exact variableIdentifier_whole.bind fun _ whole => declAfterName_made forms start whole
  · exact .after parenthesizedOperatorFollows_stays fun _ => .ite
      ((parenthesizedSymbol_whole variableSymbol_readsSegment).bind fun _ whole =>
        declAfterName_made forms start whole)
      (patternDecl_made forms start)
  · exact patternDecl_made forms start

theorem decl_formed : Yields known (Grammar.decl inner) fun made =>
    made.isLocal = true ∧ made.WellFormed known := by
  refine .look fun token => ?_
  split
  · exact .look fun span => .pure ⟨rfl, Node.wellFormed_leaf ⟨trivial, trivial⟩ rfl⟩
  · exact fixityDecl_made.mono fun _ made => ⟨made.isLocal, made.formed⟩
  · exact fixityDecl_made.mono fun _ made => ⟨made.isLocal, made.formed⟩
  · exact fixityDecl_made.mono fun _ made => ⟨made.isLocal, made.formed⟩
  · exact (bindingDecl_made forms).mono fun _ made => ⟨made.isLocal, made.formed⟩

/-- A declaration is missing only where a separator is ahead. -/
theorem decl_written {parser : Parser} (other : parser.ahead ≠ .semicolon) :
    YieldsFrom known (Grammar.decl inner) (fun made => made.isEmpty = false) parser := by
  apply YieldsFrom.look
  split
  · rename_i separator
    exact absurd separator other
  · exact (fixityDecl_made.mono fun _ made => made.written) parser
  · exact (fixityDecl_made.mono fun _ made => made.written) parser
  · exact (fixityDecl_made.mono fun _ made => made.written) parser
  · exact ((bindingDecl_made forms).mono fun _ made => made.written) parser

end

structure Operand.WellFormed (known : Token × Span → Prop) (made : Operand) : Prop where
  value : made.1.WellFormed known
  operator : OptionallyWhole known made.2

section

variable (forms : inner.Forms known)

include forms

theorem atom_formed : Yields known (atom inner) (Expr.WellFormed known) := by
  intro parser
  apply YieldsFrom.look
  split
  · exact variableOrAlias_formed forms.expressionAtom parser
  · exact (qualifiedIdentifier_whole.bind fun _ whole => .pure whole.identifier) parser
  · exact wildcard_formed parser
  · exact lazyPattern_formed forms.expressionAtom parser
  · exact literal_formed parser
  · exact literal_formed parser
  · exact literal_formed parser
  · exact literal_formed parser
  · exact forms.parentheses parser ‹_›
  · exact forms.brackets parser
  · exact rejected_yields Expr.formed_error parser

theorem argument_formed :
    Yields known (argument inner) (Sum.elim (Expr.WellFormed known) (Name.Whole known)) := by
  refine .look fun _ => .ite (qualifiedTerm_whole.bind fun term whole => ?_)
    ((atom_formed forms).bind fun _ held => .pure held)
  cases term with
  | operand found => exact .pure (Name.Whole.identifier whole)
  | operator found => exact .pure whole

theorem arguments_formed (start : Span) {function : Expr} (held : function.WellFormed known) :
    Yields known (arguments inner start function) (Operand.WellFormed known) := by
  refine (Yields.repeatUntil (.look fun _ => .pure _) (argument_formed forms)).bind ?_
  rintro ⟨values, operator⟩ ⟨heldAll, whole⟩
  dsimp only
  cases found : values.getLast? with
  | none => exact .pure ⟨held, whole⟩
  | some last =>
    have some : values ≠ [] := by
      rintro rfl
      cases found
    exact .after (.join _ _) fun _ => .pure ⟨Expr.formed_application some held heldAll, whole⟩

theorem application_formed : Yields known (application inner) (Operand.WellFormed known) :=
  .look fun start => (atom_formed forms).bind fun _ held => arguments_formed forms start held

theorem parameters_formed :
    Yields known (parameters inner) fun made => ∀ found ∈ made, found.WellFormed known :=
  (patternAtoms_formed forms).bind fun _ held =>
    .ite (.after .reportUnexpected fun _ => .pure held) (.pure held)

theorem lambda_formed : Yields known (lambda inner) (Expr.WellFormed known) := by
  refine .look fun _ => .after .consume fun _ => (parameters_formed forms).bind fun _ heldAll =>
    .after (.expect _) fun _ => forms.expression.bind fun _ held => .look fun _ =>
      .pure (.intro ⟨trivial, trivial⟩ ?_)
  simpa [or_imp, forall_and] using And.intro heldAll held

omit forms in
theorem formed_letIn {decls : List Decl} {body : Expr} {span : Span}
    (block : IsLocalBlock decls ∧ ∀ found ∈ decls, found.WellFormed known)
    (held : body.WellFormed known) : Expr.WellFormed known (.letIn decls body span) :=
  .intro ⟨block.1, trivial⟩ (by simpa [or_imp, forall_and] using And.intro block.2 held)

theorem letExpression_formed : Yields known (letExpression inner) (Expr.WellFormed known) :=
  .look fun _ => .after .consume fun _ => forms.declBlock.bind fun _ block =>
    .after (.expect _) fun _ => forms.expression.bind fun _ held => .look fun _ =>
      .pure (formed_letIn block held)

theorem branch_formed (keyword : Token) :
    Yields known (branch inner keyword) (Expr.WellFormed known) :=
  .after (.accept _) fun _ => .after (.expect _) fun _ => forms.expression

theorem conditional_formed : Yields known (conditional inner) (Expr.WellFormed known) := by
  refine .look fun _ => .after .consume fun _ => forms.expression.bind fun _ held =>
    (branch_formed forms _).bind fun _ heldThen => (branch_formed forms _).bind fun _ heldElse =>
      .look fun _ => .pure (.intro ⟨trivial, trivial⟩ ?_)
  simpa using ⟨held, heldThen, heldElse⟩

theorem caseExpression_formed : Yields known (caseExpression inner) (Expr.WellFormed known) :=
  .look fun _ => .after .consume fun _ => forms.expression.bind fun _ held =>
    .after (.expect _) fun _ => forms.alternativeBlock.bind fun _ heldAll => .look fun _ =>
      .pure (.intro ⟨trivial, trivial⟩ (by simpa using And.intro held heldAll))

theorem doExpression_formed : Yields known (doExpression inner) (Expr.WellFormed known) :=
  .look fun _ => .after .consume fun _ => forms.statementBlock.bind fun _ heldAll => .look fun _ =>
    .pure (.intro ⟨trivial, trivial⟩ (by simpa using heldAll))

omit forms in
theorem formed_alone {production : Parse Expr} (made : Yields known production (Expr.WellFormed known)) :
    Yields known (do return (← production, none)) (Operand.WellFormed known) :=
  made.bind fun _ held => .pure ⟨held, none_optionallyWhole⟩

theorem operand_formed : Yields known (operand inner) (Operand.WellFormed known) := by
  refine .look fun token => ?_
  split
  · exact formed_alone (lambda_formed forms)
  · exact formed_alone (letExpression_formed forms)
  · exact formed_alone (conditional_formed forms)
  · exact formed_alone (caseExpression_formed forms)
  · exact formed_alone (doExpression_formed forms)
  · exact application_formed forms

theorem signedOperand_formed : Yields known (signedOperand inner) (Operand.WellFormed known) :=
  .look fun _ => .ite
    (.look fun _ => .after .consume fun _ => (operand_formed forms).bind fun _ held =>
      .after (.join _ _) fun _ => .pure ⟨Expr.formed_negation held.value, held.operator⟩)
    (operand_formed forms)

omit forms in
theorem pendingOperator_whole {pending : Option Name} (whole : OptionallyWhole known pending) :
    Yields known (pendingOperator pending) (OptionallyWhole known) := by
  cases pending with
  | some found => exact .pure whole
  | none => exact operator?_whole

/-- By induction on the bound: each operator goes between the operands around it. -/
theorem chainBelow_formed {inSection : Bool} {start : Span} (bound : Nat) {left : Expr}
    {pending : Option Name} (held : left.WellFormed known) (whole : OptionallyWhole known pending) :
    Yields known (chainBelow inner inSection start bound left pending) (Operand.WellFormed known) := by
  induction bound using Nat.strong_induction_on generalizing left pending with
  | _ bound induction =>
    have goesOn : ∀ {chain : Expr} {next : Option Name}, chain.WellFormed known →
        OptionallyWhole known next →
          Yields known (chainOn inner inSection start bound chain next) (Operand.WellFormed known) := by
      intro chain next heldChain wholeNext parser sees
      unfold chainOn
      split
      · exact induction _ ‹_› heldChain wholeNext parser sees
      · exact ⟨⟨heldChain, wholeNext⟩, sees⟩
    have after : Yields known
        (pendingOperator pending >>= chainAfter inner inSection start bound left)
        (Operand.WellFormed known) := by
      refine (pendingOperator_whole whole).bind fun found wholeFound => ?_
      cases found with
      | none => exact .pure ⟨held, none_optionallyWhole⟩
      | some operator =>
        refine .look fun _ => .ite (.pure ⟨held, wholeFound⟩) ?_
        refine (signedOperand_formed forms).bind fun right heldRight =>
          .after (.join _ _) fun span => ?_
        exact goesOn ((wholeFound operator rfl).binary held heldRight.value) heldRight.operator
    intro parser sees
    rw [chainBelow_eq]
    exact after parser sees

theorem chainFrom_formed (inSection : Bool) (start : Span) {first : Operand}
    (held : first.WellFormed known) :
    Yields known (chainFrom inner inSection start first.1 first.2) (Operand.WellFormed known) :=
  fun parser sees => chainBelow_formed forms _ held.value held.operator parser sees

theorem chain_formed : Yields known (chain inner) (Expr.WellFormed known) :=
  .look fun start => (signedOperand_formed forms).bind fun _ held =>
    (chainFrom_formed forms false start held).bind fun _ made => .pure made.value

theorem annotated_formed (start : Span) {expr : Expr} (held : expr.WellFormed known) :
    Yields known (annotated inner start expr) (Expr.WellFormed known) :=
  .after (.accept _) fun _ => .ite
    (forms.type.bind fun _ heldType => .look fun _ =>
      .pure (.intro ⟨trivial, trivial⟩ (by simpa using And.intro held heldType)))
    (.pure held)

theorem expressionProduction_formed :
    Yields known (expressionProduction inner) (Expr.WellFormed known) :=
  .look fun start => (chain_formed forms).bind fun _ held => annotated_formed forms start held

theorem alternative_formed :
    Yields known (Grammar.alternative inner) (Alternative.WellFormed known) :=
  .look fun _ => forms.pattern.bind fun _ held => (rightSide_formed forms _).bind
    fun _ heldBody => .look fun _ => .pure (.intro ⟨trivial, trivial⟩ (by simpa using And.intro held heldBody))

theorem statement_formed : Yields known (Grammar.statement inner) (Statement.WellFormed known) := by
  have plain : ∀ expr : Expr, expr.WellFormed known → Statement.WellFormed known (.expression expr) :=
    fun expr held => .intro ⟨trivial, trivial⟩ (by simpa using held)
  refine .look fun start => .after (.accept _) fun _ => .ite ?_ ?_
  · refine forms.declBlock.bind fun decls block => .after (.accept _) fun _ => .ite ?_ ?_
    · exact forms.expression.bind fun _ held => .look fun _ =>
        .pure (plain _ (formed_letIn block held))
    · exact .look fun _ => .pure (.intro ⟨block.1, trivial⟩ (by simpa using block.2))
  · refine forms.expression.bind fun expr held => .after (.accept _) fun _ =>
      .ite ?_ (.pure (plain expr held))
    exact forms.expression.bind fun _ heldSource => .look fun _ =>
      .pure (.intro ⟨trivial, trivial⟩ (by simpa using And.intro held heldSource))

theorem afterLeadingOperator_formed (start : Span) {operator : Name} (whole : operator.Whole known) :
    Yields known (afterLeadingOperator inner start operator) (Expr.WellFormed known) :=
  .after (.accept _) fun _ => .ite (.pure whole.identifier) <|
    (chain_formed forms).bind fun _ held => .after (.expectOrSkipTo _) fun _ => .look fun _ =>
      .pure (.intro ⟨trivial, whole.linked⟩ (by simpa using And.intro whole.formed held))

theorem afterFirstOperand_formed (start firstStart : Span) {first : Operand}
    (held : first.WellFormed known) :
    Yields known (afterFirstOperand inner start firstStart first) (Expr.WellFormed known) := by
  refine (chainFrom_formed forms true firstStart held).bind ?_
  rintro ⟨value, dangling⟩ ⟨heldValue, whole⟩
  cases dangling with
  | some operator =>
    refine .after .consume fun _ => .look fun _ => .pure (.intro ⟨trivial, (whole operator rfl).linked⟩ ?_)
    simpa using And.intro heldValue (whole operator rfl).formed
  | none =>
    exact (annotated_formed forms firstStart heldValue).bind fun _ heldElement =>
      enclosed_formed forms.expression start heldElement

theorem parentheses_formed {parser : Parser} (opened : parser.ahead = .openParen) :
    YieldsFrom known (parentheses inner) (Expr.WellFormed known) parser := by
  apply YieldsFrom.look
  intro sees
  have bracketed := sees.bracketed (.inl opened)
  refine Yields.after .consume (fun _ => .after (.accept _) fun _ => .ite ?_ <| .look fun _ =>
    .ite ?_ <| .after operatorLeads_stays fun _ => .ite ?_ <| .look fun firstStart => .look fun _ =>
      .ite ?_ ?_) parser sees
  · exact .look fun span => .pure (Expr.formed_unit span)
  · exact tupleConstructor_formed bracketed
  · refine operator?_whole.bind fun found whole => ?_
    cases found with
    | some operator => exact afterLeadingOperator_formed forms _ (whole operator rfl)
    | none => exact rejected_yields Expr.formed_error
  · refine qualifiedTerm_whole.bind fun term whole => ?_
    cases term with
    | operator found => exact afterLeadingOperator_formed forms _ whole
    | operand found =>
      exact (arguments_formed forms firstStart (Name.Whole.identifier whole)).bind fun _ held =>
        afterFirstOperand_formed forms _ firstStart held
  · exact (signedOperand_formed forms).bind fun _ held =>
      afterFirstOperand_formed forms _ firstStart held

theorem lastElement?_formed :
    Yields known (lastElement? inner) fun made => ∀ found ∈ made, found.WellFormed known :=
  .look fun _ => .ite (.pure nofun) <| .map <|
    forms.expression.mono fun _ held _ member => Option.some.inj member ▸ held

theorem sequenceEnd_formed (start : Span) {first : Expr} {second : Option Expr}
    (held : first.WellFormed known) (heldSecond : ∀ found ∈ second, found.WellFormed known) :
    Yields known (sequenceEnd inner start first second) (Expr.WellFormed known) := by
  refine (lastElement?_formed forms).bind fun last heldLast => .after (.expectOrSkipTo _) fun _ =>
    .look fun span => .pure (.intro ⟨trivial, trivial⟩ ?_)
  simpa [or_imp, forall_and] using ⟨held, heldSecond, heldLast⟩

theorem comprehensionEnd_formed (start : Span) {element : Expr} (held : element.WellFormed known) :
    Yields known (comprehensionEnd inner start element) (Expr.WellFormed known) :=
  (Yields.separated (statement_formed forms)).bind fun _ heldAll =>
    .after (.expectOrSkipTo _) fun _ => .look fun _ =>
      .pure (.intro ⟨List.length_pos_iff.2 heldAll.1, trivial⟩
        (by simpa using And.intro held heldAll.2))

theorem brackets_formed : Yields known (brackets inner) (Expr.WellFormed known) := by
  refine .look fun start => .after .consume fun _ => .after (.accept _) fun _ => .ite
    (.look fun _ => .pure (Expr.formed_list (by simp))) <|
      forms.expression.bind fun first held => .after (.accept _) fun _ => .ite
        (sequenceEnd_formed forms start held nofun) <| .after (.accept _) fun _ => .ite
          (comprehensionEnd_formed forms start held) <| .after (.accept _) fun _ => .ite ?_
            (listEnd_formed start (by simpa using held))
  refine forms.expression.bind fun second heldSecond => .after (.accept _) fun _ => .ite ?_ ?_
  · exact sequenceEnd_formed forms start held (by simpa using heldSecond)
  · exact (Yields.many (.accept _) forms.expression).bind fun later heldLater =>
      listEnd_formed start (by simpa using ⟨held, heldSecond, heldLater⟩)

end

/-!
Whole programs. The tower of levels makes well-formed trees, by induction on its height: at the limit
nothing is read, and each level makes its trees from those of the level below. A separator behind an
item of a block is never taken for an item, since all separators are skipped together.
-/

variable {α : Type}

theorem itemThenEnd_yields {item : Parse α} {holds : α → Prop} (each : Yields known item holds) :
    Yields known (itemThenEnd item) holds :=
  each.bind fun _ held => .after endOfItem_stays fun _ => .pure held

theorem block_yields {item : Parse α} {holds : α → Prop} (each : Yields known item holds) :
    Yields known (block item) fun made => ∀ found ∈ made, holds found :=
  .after (.expect _) fun _ => .ite
    ((Yields.many itemFollows_stays (itemThenEnd_yields each)).bind fun _ held =>
      .after (.expectOrSkipTo _) fun _ => .pure held)
    (.pure (by simp))

theorem ahead_endOfItem (parser : Parser) : (endOfItem parser).2.ahead ≠ .semicolon := by
  rw [endOfItem_apply]
  split
  · exact Parser.ahead_skipAll_ne (by decide) _
  · exact Parser.ahead_skipAll_ne (by decide) _

/-- Behind an item no separator is ahead, so what holds of an item that starts with none holds of
all items but the first. -/
theorem items_written {more : Parse Bool} {goes : Token → Bool}
    (asks : ∀ parser, more parser = (goes parser.ahead, parser)) {item : Parse α} {holds : α → Prop}
    (passes : Yields known item fun _ => True)
    (each : ∀ parser : Parser, parser.ahead ≠ .semicolon → YieldsFrom known item holds parser)
    {parser : Parser} (sees : parser.Sees known) :
    (∀ value ∈ (many more (itemThenEnd item) parser).1.tail, holds value) ∧
      (parser.ahead ≠ .semicolon →
        ∀ value ∈ (many more (itemThenEnd item) parser).1, holds value) ∧
      ((many more (itemThenEnd item) parser).1 ≠ [] →
        (many more (itemThenEnd item) parser).2.ahead ≠ .semicolon) := by
  induction bound : parser.remaining using Nat.strong_induction_on generalizing parser with
  | _ bound induction =>
    have settled : (itemThenEnd item parser).2.ahead ≠ .semicolon :=
      ahead_endOfItem (item parser).2
    have seesAfter := (itemThenEnd_yields passes parser sees).2
    have first (fresh : parser.ahead ≠ .semicolon) : holds (itemThenEnd item parser).1 :=
      (each parser fresh sees).1
    rw [many_apply asks]
    split
    · split
      · rename_i progress
        obtain ⟨-, later, final⟩ := induction _ (bound ▸ progress) seesAfter rfl
        refine ⟨later settled, fun fresh => ?_, fun _ => ?_⟩
        · exact List.forall_mem_cons.2 ⟨first fresh, later settled⟩
        · by_cases none : (many more (itemThenEnd item) (itemThenEnd item parser).2).1 = []
          · rw [many_apply asks] at none ⊢
            split at none
            · split at none <;> cases none
            · rename_i stops
              rw [if_neg stops]
              exact settled
          · exact final none
      · refine ⟨by simp, fun fresh => ?_, fun _ => settled⟩
        exact List.forall_mem_singleton.2 (first fresh)
    · exact ⟨by simp, by simp, fun some => absurd rfl some⟩

theorem declBlock_formed (forms : inner.Forms known) :
    Yields known (block (decl inner)) fun made =>
      IsLocalBlock made ∧ ∀ found ∈ made, found.WellFormed known := by
  refine .after (.expect _) fun _ => .ite ?_ (.pure ⟨isLocalBlock_nil, by simp⟩)
  refine Yields.bind (fun parser sees => ?_) fun items held => .after (.expectOrSkipTo _) fun _ =>
    .pure held
  obtain ⟨made, seesAfter⟩ :=
    Yields.many itemFollows_stays (itemThenEnd_yields (decl_formed forms)) parser sees
  obtain ⟨written, -, -⟩ := items_written itemFollows_ahead
    ((decl_formed forms).mono fun _ _ => trivial) (fun _ => decl_written forms) sees
  exact ⟨⟨⟨fun found among => (made found among).1, written⟩,
    fun found among => (made found among).2⟩, seesAfter⟩

theorem refusal_forms : Level.refusal.Forms known where
  expression := .refuse Expr.formed_error
  pattern := .refuse Expr.formed_error
  type := .refuse TypeTerm.formed_error
  expressionAtom := .refuse Expr.formed_error
  patternAtom := .refuse Expr.formed_error
  parentheses := fun parser _ => Yields.refuse Expr.formed_error parser
  brackets := .refuse Expr.formed_error
  declBlock := .refuse fun _ => ⟨isLocalBlock_nil, by simp⟩
  alternativeBlock := .refuse (by simp)
  statementBlock := .refuse (by simp)

theorem around_forms (forms : inner.Forms known) : inner.around.Forms known where
  expression := .nested Expr.formed_error (expressionProduction_formed forms)
  pattern := .nested Expr.formed_error (patternProduction_formed forms)
  type := .nested TypeTerm.formed_error (typeProduction_formed forms)
  expressionAtom := .nested Expr.formed_error (atom_formed forms)
  patternAtom := .nested Expr.formed_error (patternAtom_formed forms)
  parentheses := fun _ opened => .nested Expr.formed_error fun _ same =>
    parentheses_formed forms (same.trans opened)
  brackets := .nested Expr.formed_error (brackets_formed forms)
  declBlock := .nested (fun _ => ⟨isLocalBlock_nil, by simp⟩) (declBlock_formed forms)
  alternativeBlock := .nested (by simp) (block_yields (alternative_formed forms))
  statementBlock := .nested (by simp) (block_yields (statement_formed forms))

/-- By induction on the levels that may still be entered. -/
theorem level_forms (further : Nat) : (level further).Forms known := by
  induction further with
  | zero => exact refusal_forms
  | succ further induction => exact around_forms induction

theorem listed_yields {item : Parse α} {holds : α → Prop} (each : Yields known item holds) :
    Yields known (listed item) fun made => ∀ found ∈ made, holds found :=
  .after entryFollows_stays fun _ => .ite
    (each.bind fun _ held => (Yields.many furtherEntryFollows_stays each).bind fun _ heldLater =>
      .pure (List.forall_mem_cons.2 ⟨held, heldLater⟩))
    (.pure (by simp))

theorem members_formed :
    Yields known members fun made => ∀ node ∈ made.nodes, node.WellFormed known := by
  refine .look fun start => .after .consume fun _ => .look fun _ => .ite ?_ ?_
  · refine .look fun span => .after .consume fun _ => .after (.expectOrSkipTo _) fun _ => .pure ?_
    have formed : (Node.members [] span).WellFormed known := Node.wellFormed_leaf ⟨trivial, trivial⟩ rfl
    simpa [Members.nodes] using formed
  · refine (listed_yields variableOrConstructor_whole).bind fun names held =>
      .after (.expectOrSkipTo _) fun _ => .look fun span => .pure ?_
    have formed : (Node.members names span).WellFormed known :=
      .intro ⟨trivial, trivial⟩ (List.forall_mem_map.2 fun found among => (held found among).formed)
    simpa [Members.nodes] using formed

theorem formed_item {found : Name} (held : found.WellFormed known) (listed : Members)
    (heldAll : ∀ node ∈ listed.nodes, node.WellFormed known) (span : Span) :
    (Node.selection (.item found listed span)).WellFormed known :=
  .intro ⟨trivial, trivial⟩ (List.forall_mem_cons.2 ⟨held, heldAll⟩)

theorem members?_formed :
    Yields known members? fun made => ∀ node ∈ made.nodes, node.WellFormed known :=
  .look fun _ => .ite members_formed (.pure nofun)

theorem selectedName_formed (start : Span) :
    Yields known (selectedName start) fun made => (Node.selection made).WellFormed known :=
  qualifiedIdentifier_whole.bind fun _ whole => members?_formed.bind fun _ held => .look fun _ =>
    .pure (formed_item whole.formed _ held _)

theorem allowModule_stays (isExport : Bool) (start : Span) {depth : Nat} :
    Stays (.nesting depth) (allowModule isExport start) :=
  .ite (stays_of_leads fun parser => ⟨_, .single (.reportAt start) parser trivial⟩) (.pure ())

theorem selectedModule_formed (isExport : Bool) (start : Span) :
    Yields known (selectedModule isExport start) fun made =>
      (Node.selection made).WellFormed known :=
  .after .consume fun _ => .after (allowModule_stays isExport start) fun _ =>
    moduleName_formed.bind fun _ held => .look fun _ =>
      .pure (.intro ⟨trivial, trivial⟩ (by simpa using held))

theorem selection_formed (isExport : Bool) :
    Yields known (selection isExport) fun made => (Node.selection made).WellFormed known := by
  refine .look fun start => .look fun token => ?_
  split
  · exact selectedModule_formed isExport start
  · exact (parenthesizedSymbol_whole symbol_readsSegment).bind fun _ whole => .look fun _ =>
      .pure (formed_item whole.formed .absent nofun _)
  · exact selectedName_formed start
  · exact selectedName_formed start
  · exact .after .fail fun _ => .pure (formed_item (Name.formed_error _) .absent nofun _)

theorem selectionList_formed (isExport : Bool) :
    Yields known (selectionList isExport) (SelectionList.WellFormed known) :=
  .look fun _ => .after .consume fun _ => (listed_yields (selection_formed isExport)).bind
    fun _ held => .after (.expectOrSkipTo _) fun _ => .look fun _ =>
      .pure (.intro ⟨trivial, trivial⟩ (by simpa using held))

theorem selectionList?_formed (isExport : Bool) :
    Yields known (selectionList? isExport) fun made => ∀ found ∈ made, found.WellFormed known :=
  .look fun _ => .ite
    ((selectionList_formed isExport).bind fun _ held =>
      .pure fun _ member => Option.some.inj member ▸ held)
    (.pure nofun)

theorem moduleHeader_formed :
    Yields known moduleHeader fun made => made.isModule = true ∧ made.WellFormed known := by
  refine .look fun _ => .after .consume fun _ => moduleName_formed.bind fun _ held =>
    (selectionList?_formed true).bind fun _ heldExports => .after (.expect _) fun _ =>
      .look fun _ => .pure ⟨rfl, .intro ⟨trivial, trivial⟩ ?_⟩
  simpa [or_imp, forall_and] using ⟨held, heldExports⟩

theorem renaming?_formed :
    Yields known renaming? fun made => ∀ found ∈ made, found.WellFormed known :=
  .after (.acceptWord _) fun _ => .ite
    (.map (moduleName_formed.mono fun _ held _ member => Option.some.inj member ▸ held))
    (.pure nofun)

theorem importList_formed :
    Yields known importList fun made => ∀ found ∈ made.2, found.WellFormed known :=
  .after (.acceptWord _) fun _ => (selectionList?_formed false).bind fun _ held =>
    .ite (.after .reportUnexpected fun _ => .pure held) (.pure held)

theorem importDecl_formed :
    Yields known importDecl fun made => made.isImport = true ∧ made.WellFormed known := by
  refine .look fun _ => .after .consume fun _ => .after (.acceptWord _) fun _ =>
    moduleName_formed.bind fun _ held => renaming?_formed.bind fun _ heldRenamed =>
      importList_formed.bind fun _ heldSelections => .look fun _ =>
        .pure ⟨rfl, .intro ⟨trivial, trivial⟩ ?_⟩
  simpa [or_imp, forall_and] using ⟨held, heldRenamed, heldSelections⟩

structure TopMade (known : Token × Span → Prop) (made : Decl) : Prop where
  notModule : made.isModule = false
  formed : made.WellFormed known

theorem unsupportedDecl_made : Yields known unsupportedDecl fun made =>
    TopMade known made ∧ made.isEmpty = false ∧ made.isImport = false :=
  .look fun _ => .look fun _ => .after .consume fun _ => .after (.skipToAny _) fun _ =>
    .look fun _ => .pure ⟨⟨rfl, Node.wellFormed_leaf ⟨trivial, trivial⟩ rfl⟩, rfl, rfl⟩

theorem TopMade.of_import {made : Decl} (imports : made.isImport = true)
    (held : made.WellFormed known) : TopMade known made ∧ made.isEmpty = false := by
  cases made with
  | importDecl found => exact ⟨⟨rfl, held⟩, rfl⟩
  | moduleHeader _ | typeSignature _ | fixity _ | function _ _ _ _ _ | patternBinding _ _ _
  | unsupported _ _ | empty _ | error _ => cases imports

theorem TopMade.of_local {made : Decl} (isLocal : made.isLocal = true)
    (held : made.WellFormed known) : TopMade known made ∧ made.isImport = false := by
  cases made with
  | moduleHeader _ | importDecl _ | unsupported _ _ | error _ => cases isLocal
  | typeSignature _ | fixity _ | function _ _ _ _ _ | patternBinding _ _ _ | empty _ =>
    exact ⟨⟨rfl, held⟩, rfl⟩

theorem topDecl_made : Yields known topDecl (TopMade known) := by
  refine .look fun token => ?_
  split
  iterate 8
    · exact unsupportedDecl_made.mono fun _ made => made.1
  · exact .after .reportUnexpected fun _ => importDecl_formed.mono fun _ made =>
      (TopMade.of_import made.1 made.2).1
  · exact (decl_formed (level_forms _)).mono fun _ made => (TopMade.of_local made.1 made.2).1

theorem topDecl_written {parser : Parser} (other : parser.ahead ≠ .semicolon) :
    YieldsFrom known topDecl (fun made => made.isEmpty = false) parser := by
  apply YieldsFrom.look
  split
  iterate 8
    · exact (unsupportedDecl_made.mono fun _ made => made.2.1) parser
  · exact (Yields.after .reportUnexpected fun _ => importDecl_formed.mono fun _ made =>
      (TopMade.of_import made.1 made.2).2) parser
  · exact decl_written (level_forms _) other

/-- An import is read only where one is ahead. -/
theorem topDecl_import {parser : Parser} (other : parser.ahead ≠ .kwImport) :
    YieldsFrom known topDecl (fun made => made.isImport = false) parser := by
  apply YieldsFrom.look
  split
  iterate 8
    · exact (unsupportedDecl_made.mono fun _ made => made.2.2) parser
  · rename_i found
    exact absurd found other
  · exact ((decl_formed (level_forms _)).mono fun _ made =>
      (TopMade.of_local made.1 made.2).2) parser

theorem leadingImports_formed : Yields known leadingImports fun made =>
    ∀ found ∈ made, found.isImport = true ∧ found.WellFormed known :=
  .many (.look fun _ => .pure _) (itemThenEnd_yields importDecl_formed)

theorem furtherDecls_made : Yields known furtherDecls fun made => ∀ found ∈ made, TopMade known found :=
  .many itemFollows_stays (itemThenEnd_yields topDecl_made)

/-- The declarations of a block are no modules, and only the first may be missing. -/
structure BlockMade (known : Token × Span → Prop) (made : List Decl) : Prop where
  topMade : ∀ found ∈ made, TopMade known found
  written : ∀ found ∈ made.tail, found.isEmpty = false

theorem declsOf_made {parser : Parser} (sees : parser.Sees known) : BlockMade known (declsOf parser) := by
  obtain ⟨imports, seesAfter⟩ := leadingImports_formed parser sees
  have importPasses : Yields known importDecl fun _ => True :=
    importDecl_formed.mono fun _ _ => trivial
  have settled : (leadingImports parser).1 ≠ [] → (leadingImports parser).2.ahead ≠ .semicolon :=
    (items_written isAt_import_ahead importPasses (fun parser _ => importPasses parser) sees).2.2
  obtain ⟨first, all, -⟩ := items_written itemFollows_ahead (topDecl_made.mono fun _ _ => trivial)
    (fun _ => topDecl_written) seesAfter
  unfold declsOf
  refine ⟨fun found member => ?_, ?_⟩
  · rcases List.mem_append.1 member with early | late
    · exact (TopMade.of_import (imports found early).1 (imports found early).2).1
    · exact (furtherDecls_made _ seesAfter).1 found late
  · cases made : (leadingImports parser).1 with
    | nil => exact first
    | cons leading later =>
      rw [made] at imports settled
      intro found member
      rcases List.mem_append.1 member with early | late
      · obtain ⟨isImport, formed⟩ := imports found (List.mem_cons_of_mem _ early)
        exact (TopMade.of_import isImport formed).2
      · exact all (settled (List.cons_ne_nil _ _)) found late

theorem moduleBody?_made {parser : Parser} (sees : parser.Sees known) :
    BlockMade known (moduleBody? parser).1 := by
  rw [moduleBody?_apply]
  split
  · exact declsOf_made sees.consume
  · exact ⟨by simp, by simp⟩

theorem moduleHeader?_formed : Yields known moduleHeader? fun made =>
    made = [] ∨ ∃ header : Decl, made = [header] ∧ header.isModule = true ∧ header.WellFormed known :=
  .look fun _ => .ite
    (.map (moduleHeader_formed.mono fun header held => Or.inr ⟨header, rfl, held.1, held.2⟩))
    (.pure (Or.inl rfl))

theorem dropWhile_isModule {made : List Decl} (all : ∀ found ∈ made, TopMade known found) :
    made.dropWhile Decl.isModule = made := by
  cases made with
  | nil => rfl
  | cons first later =>
    exact List.dropWhile_cons_of_neg (by simp [(all first List.mem_cons_self).notModule])

/-- Every program is well formed, whatever was reported. -/
theorem program_formed {parser : Parser} (sees : parser.Sees known) :
    (Node.program (program parser).1).WellFormed known := by
  rw [program_eq parser]
  obtain ⟨headed, seesAfter⟩ := moduleHeader?_formed parser sees
  have block := moduleBody?_made seesAfter
  rcases headed with none | ⟨header, some, isModule, held⟩
  · simp only [none, List.nil_append]
    refine .intro ⟨⟨fun found member => ?_, ?_⟩, trivial⟩ ?_
    · exact (block.topMade found (List.mem_of_mem_tail member)).notModule
    · rw [dropWhile_isModule block.topMade]
      exact block.written
    · simpa using fun found member => (block.topMade found member).formed
  · simp only [some, List.singleton_append]
    refine .intro ⟨⟨fun found member => (block.topMade found member).notModule, ?_⟩, trivial⟩ ?_
    · rw [List.dropWhile_cons_of_pos isModule, dropWhile_isModule block.topMade]
      exact block.written
    · simpa using
        And.intro held fun found member => (block.topMade found member).formed

end Haskell.Grammar

namespace Haskell

/-- What parsing makes of a stream is well formed for the tokens that the stream shows. -/
theorem parseTokens_formed {stream : TokenStream} {context : Context} {program : Program}
    (parsed : (parseTokens stream context).1 = some program) {known : Token × Span → Prop}
    (shown : ∀ place, known (stream.shows.get place)) : (Node.program program).WellFormed known := by
  have sees : (Parser.start stream context).Sees known := by
    intro place
    rw [Parser.upcoming_start]
    exact shown place
  unfold parseTokens at parsed
  simp only at parsed
  split at parsed
  · cases parsed
  · rw [← Option.some.inj parsed]
    exact Grammar.program_formed sees

end Haskell

end Offside
