import Offside.Proofs.Conduct.Programs
import Offside.Proofs.Nesting.Rules

/-!
The nesting budget of a whole parse. The tower of levels does what the recursion of the grammar does:
at a depth from which so many further levels may be entered, that many rounds of the recursion are run
and no more, whatever stands below them. Every production returns to the depth that it starts from, the
depth stays within the limit on the way, and nesting is reported as too deep for each entry at the limit
and for nothing else. So every item of a block meets the depth that the first one met.
-/

namespace Offside

set_option autoImplicit false

namespace Parser

/-- What some acts do that keep the nesting budget. They are a round trip, so each is done in the state
that the acts before it left, and every level is left where what was done in it ends. -/
structure KeepsBudget (before : Parser) (acts : List Act) (after : Parser) : Prop where
  trip : RoundTrip before acts after
  reaches : performed acts before = after
  restores : after.depth = before.depth
  /-- On the way no level is left that was not entered, and none is entered beyond the limit. -/
  bounds : ∀ earlier, earlier <+: acts →
    before.depth ≤ (performed earlier before).depth ∧
      (performed earlier before).depth ≤ nestingLimit
  /-- The stream apart, each report of nesting that is too deep comes from an entry at the limit. -/
  reports : ∀ earlier, earlier <+: acts → ∀ span,
    (performed earlier before).foreseen.count ⟨.nestingTooDeep, span⟩ =
      before.foreseen.count ⟨.nestingTooDeep, span⟩ + (refusals earlier before).count span

theorem RoundTrip.keepsBudget {before after : Parser} {acts : List Act}
    (trip : RoundTrip before acts after) (shallow : before.depth ≤ nestingLimit) :
    KeepsBudget before acts after where
  trip := trip
  reaches := trip.reaches
  restores := trip.depth
  bounds := fun _ reached => trip.depth_bounds shallow reached
  reports := fun earlier _ => count_foreseen_performed earlier before

end Parser

namespace Haskell.Grammar

open Offside.Parse Offside.Parser

variable {α : Type} {depth : Nat} {inner other : Level}

/-- One round of the recursion: the productions over a level, each entering a nesting level. -/
def Level.around (inner : Level) : Level where
  expression := nested .error (expressionProduction inner)
  pattern := nested .error (patternProduction inner)
  type := nested .error (typeProduction inner)
  expressionAtom := nested .error (atom inner)
  patternAtom := nested .error (Grammar.patternAtom inner)
  parentheses := nested .error (Grammar.parentheses inner)
  brackets := nested .error (Grammar.brackets inner)
  declBlock := nested (fun _ => []) (block (decl inner))
  alternativeBlock := nested (fun _ => []) (block (alternative inner))
  statementBlock := nested (fun _ => []) (block (statement inner))

theorem level_succ (further : Nat) : level (further + 1) = (level further).around := rfl

/-- Some rounds of the recursion over whatever stands below them. -/
def unrolled (bottom : Level) : Nat → Level
  | 0 => bottom
  | rounds + 1 => (unrolled bottom rounds).around

theorem refusal_agrees (inner : Level) : Level.refusal.Agrees (.nesting nestingLimit) inner.around where
  expression := .refuse _
  pattern := .refuse _
  type := .refuse _
  expressionAtom := .refuse _
  patternAtom := .refuse _
  parentheses := .refuse _
  brackets := .refuse _
  declBlock := .refuse _
  alternativeBlock := .refuse _
  statementBlock := .refuse _

theorem around_agrees (room : depth < nestingLimit) (agrees : inner.Agrees (.nesting (depth + 1)) other) :
    inner.around.Agrees (.nesting depth) other.around where
  expression := .nested room (expressionProduction_agrees agrees)
  pattern := .nested room (patternProduction_agrees agrees)
  type := .nested room (typeProduction_agrees agrees)
  expressionAtom := .nested room (atom_agrees agrees)
  patternAtom := .nested room (patternAtom_agrees agrees)
  parentheses := .nested room (parentheses_agrees agrees)
  brackets := .nested room (brackets_agrees agrees)
  declBlock := .nested room (block_agrees (decl_agrees agrees))
  alternativeBlock := .nested room (block_agrees (alternative_agrees agrees))
  statementBlock := .nested room (block_agrees (statement_agrees agrees))

/-- By induction on the levels that may still be entered: the recursion gets no further than to the
round that is refused. -/
theorem level_agrees (bottom : Level) (further : Nat) (room : depth + further = nestingLimit) :
    (level further).Agrees (.nesting depth) (unrolled bottom (further + 1)) := by
  induction further generalizing depth with
  | zero =>
    obtain rfl : depth = nestingLimit := room
    exact refusal_agrees bottom
  | succ further induction =>
    rw [level_succ]
    exact around_agrees (by omega) (induction (by omega))

end Haskell.Grammar

/-!
The productions of the grammar, listed, and what holds of all of them: the nesting budget is kept, and
the recursion runs no more rounds than the budget has levels.
-/

namespace Haskell.Grammar

open Offside.Parse Offside.Parser

inductive Production : Type → Type 1
  | variableIdentifier : Production Name
  | properIdentifier : Production Name
  | variableSymbol : Production Name
  | constructorSymbol : Production Name
  | symbol : Production Name
  | qualifierFollows : Production Bool
  | qualifiedIdentifier : Production Name
  | qualifiedSymbol : Production Name
  | qualifiedConstructorSymbol : Production Name
  | parenthesizedSymbol : Production Name
  | parenthesizedVariableSymbol : Production Name
  | variableName : Production Name
  | variableOrConstructor : Production Name
  | moduleName : Production Name
  | qualifiedTerm : Production Term
  | qualifiedSymbolFollows (isKind : Token → Bool) : Production Bool
  | quotedOperator : Production Name
  | quotedFollows (token : Token) : Production Bool
  | operator? : Production (Option Name)
  | variableOperator? : Production (Option Name)
  | constructorOperator? : Production (Option Name)
  | reject : Production Span
  | endOfItem : Production Unit
  | itemThenEnd {α : Type} (item : Production α) : Production α
  | block {α : Type} (item : Production α) : Production (List α)
  | type : Production TypeTerm
  | functionType : Production TypeTerm
  | typeApplication : Production TypeTerm
  | typeAtom : Production TypeTerm
  | parenthesizedType : Production TypeTerm
  | listType : Production TypeTerm
  | pattern : Production Expr
  | operandPattern : Production Expr
  | parenthesizedConstructorFollows : Production Bool
  | constructorPattern (start : Span) (constructor : Expr) : Production Expr
  | patternAfter (start : Span) (left : Expr) : Production Expr
  | patternAtom : Production Expr
  | nestedPatternAtom : Production Expr
  | patternAtoms : Production (List Expr)
  | parenthesizedPattern : Production Expr
  | tupleConstructor (start : Span) : Production Expr
  | listPattern : Production Expr
  | literal : Production Expr
  | decl : Production Decl
  | declBlock : Production (List Decl)
  | fixityDecl : Production Decl
  | fixityOperator : Production Name
  | bindingDecl : Production Decl
  | declAfterName (start : Span) (name : Name) : Production Decl
  | declAfterPattern (start : Span) (left : Expr) : Production Decl
  | patternAfterVariable (start : Span) (name : Name) : Production Expr
  | operatorClause (start : Span) (left : Expr) (operator : Name) : Production Decl
  | typeSignature (start : Span) (first : Name) : Production Decl
  | rightSide (separator : Token) : Production RightSide
  | guardedExpr (separator : Token) : Production GuardedExpr
  | expression : Production Expr
  | annotated (start : Span) (expr : Expr) : Production Expr
  | chain : Production Expr
  | chainFrom (inSection : Bool) (start : Span) (left : Expr) (pending : Option Name) :
      Production Operand
  | signedOperand : Production Operand
  | operand : Production Operand
  | lambda : Production Expr
  | letExpression : Production Expr
  | conditional : Production Expr
  | caseExpression : Production Expr
  | alternative : Production Alternative
  | alternativeBlock : Production (List Alternative)
  | doExpression : Production Expr
  | statement : Production Statement
  | statementBlock : Production (List Statement)
  | application : Production Operand
  | arguments (start : Span) (function : Expr) : Production Operand
  | atom : Production Expr
  | nestedAtom : Production Expr
  | parentheses : Production Expr
  | afterLeadingOperator (start : Span) (operator : Name) : Production Expr
  | afterFirstOperand (start firstStart : Span) (first : Operand) : Production Expr
  | brackets : Production Expr
  | members : Production Members
  | selection (isExport : Bool) : Production Selection
  | selectionList (isExport : Bool) : Production SelectionList
  | moduleHeader : Production Decl
  | importDecl : Production Decl
  | unsupportedDecl : Production Decl
  | topDecl : Production Decl
  | moduleBody : Production (List Decl)
  | program : Production Program

namespace Production

def run {α : Type} : Production α → Level → Parse α
  | variableIdentifier, _ => Grammar.variableIdentifier
  | properIdentifier, _ => Grammar.properIdentifier
  | variableSymbol, _ => Grammar.variableSymbol
  | constructorSymbol, _ => Grammar.constructorSymbol
  | symbol, _ => Grammar.symbol
  | qualifierFollows, _ => Grammar.qualifierFollows
  | qualifiedIdentifier, _ => Grammar.qualifiedIdentifier
  | qualifiedSymbol, _ => qualifiedBy Grammar.symbol
  | qualifiedConstructorSymbol, _ => qualifiedBy Grammar.constructorSymbol
  | parenthesizedSymbol, _ => Grammar.parenthesizedSymbol Grammar.symbol
  | parenthesizedVariableSymbol, _ => Grammar.parenthesizedSymbol Grammar.variableSymbol
  | variableName, _ => Grammar.variableName
  | variableOrConstructor, _ => Grammar.variableOrConstructor
  | moduleName, _ => Grammar.moduleName
  | qualifiedTerm, _ => Grammar.qualifiedTerm
  | qualifiedSymbolFollows isKind, _ => Grammar.qualifiedSymbolFollows isKind
  | quotedOperator, _ => Grammar.quotedOperator
  | quotedFollows token, _ => Grammar.quotedFollows token
  | operator?, _ => Grammar.operator?
  | variableOperator?, _ => Grammar.variableOperator?
  | constructorOperator?, _ => Grammar.constructorOperator?
  | reject, _ => Grammar.reject
  | endOfItem, _ => Grammar.endOfItem
  | itemThenEnd item, inner => Grammar.itemThenEnd (item.run inner)
  | block item, inner => Grammar.block (item.run inner)
  | type, inner => inner.type
  | functionType, inner => Grammar.functionType inner
  | typeApplication, inner => Grammar.typeApplication inner
  | typeAtom, inner => Grammar.typeAtom inner
  | parenthesizedType, inner => Grammar.parenthesizedType inner
  | listType, inner => Grammar.listType inner
  | pattern, inner => inner.pattern
  | operandPattern, inner => Grammar.operandPattern inner
  | parenthesizedConstructorFollows, _ => Grammar.parenthesizedConstructorFollows
  | constructorPattern start constructor, inner =>
    Grammar.constructorPattern inner start constructor
  | patternAfter start left, inner => Grammar.patternAfter inner start left
  | patternAtom, inner => Grammar.patternAtom inner
  | nestedPatternAtom, inner => inner.patternAtom
  | patternAtoms, inner => Grammar.patternAtoms inner
  | parenthesizedPattern, inner => Grammar.parenthesizedPattern inner
  | tupleConstructor start, _ => Grammar.tupleConstructor start
  | listPattern, inner => Grammar.listPattern inner
  | literal, _ => Grammar.literal
  | decl, inner => Grammar.decl inner
  | declBlock, inner => inner.declBlock
  | fixityDecl, _ => Grammar.fixityDecl
  | fixityOperator, _ => Grammar.fixityOperator
  | bindingDecl, inner => Grammar.bindingDecl inner
  | declAfterName start name, inner => Grammar.declAfterName inner start name
  | declAfterPattern start left, inner => Grammar.declAfterPattern inner start left
  | patternAfterVariable start name, inner => Grammar.patternAfterVariable inner start name
  | operatorClause start left operator, inner => Grammar.operatorClause inner start left operator
  | typeSignature start first, inner => Grammar.typeSignature inner start first
  | rightSide separator, inner => Grammar.rightSide inner separator
  | guardedExpr separator, inner => Grammar.guardedExpr inner separator
  | expression, inner => inner.expression
  | annotated start expr, inner => Grammar.annotated inner start expr
  | chain, inner => Grammar.chain inner
  | chainFrom inSection start left pending, inner =>
    Grammar.chainFrom inner inSection start left pending
  | signedOperand, inner => Grammar.signedOperand inner
  | operand, inner => Grammar.operand inner
  | lambda, inner => Grammar.lambda inner
  | letExpression, inner => Grammar.letExpression inner
  | conditional, inner => Grammar.conditional inner
  | caseExpression, inner => Grammar.caseExpression inner
  | alternative, inner => Grammar.alternative inner
  | alternativeBlock, inner => inner.alternativeBlock
  | doExpression, inner => Grammar.doExpression inner
  | statement, inner => Grammar.statement inner
  | statementBlock, inner => inner.statementBlock
  | application, inner => Grammar.application inner
  | arguments start function, inner => Grammar.arguments inner start function
  | atom, inner => Grammar.atom inner
  | nestedAtom, inner => inner.expressionAtom
  | parentheses, inner => inner.parentheses
  | afterLeadingOperator start operator, inner => Grammar.afterLeadingOperator inner start operator
  | afterFirstOperand start firstStart first, inner =>
    Grammar.afterFirstOperand inner start firstStart first
  | brackets, inner => inner.brackets
  | members, _ => Grammar.members
  | selection isExport, _ => Grammar.selection isExport
  | selectionList isExport, _ => Grammar.selectionList isExport
  | moduleHeader, _ => Grammar.moduleHeader
  | importDecl, _ => Grammar.importDecl
  | unsupportedDecl, _ => Grammar.unsupportedDecl
  | topDecl, outer => topDeclOver outer
  | moduleBody, outer => moduleBodyOver outer
  | program, outer => programOver outer

theorem run_agrees {α : Type} {depth : Nat} {inner other : Level} (production : Production α)
    (agrees : inner.Agrees (.nesting depth) other) :
    Agrees (.nesting depth) (production.run inner) (production.run other) := by
  induction production with
  | variableIdentifier => exact variableIdentifier_stays
  | properIdentifier => exact properIdentifier_stays
  | variableSymbol => exact variableSymbol_stays
  | constructorSymbol => exact constructorSymbol_stays
  | symbol => exact symbol_stays
  | qualifierFollows => exact qualifierFollows_stays
  | qualifiedIdentifier => exact qualifiedIdentifier_stays
  | qualifiedSymbol => exact qualifiedBy_stays symbol_stays
  | qualifiedConstructorSymbol => exact qualifiedBy_stays constructorSymbol_stays
  | parenthesizedSymbol => exact parenthesizedSymbol_stays symbol_stays
  | parenthesizedVariableSymbol => exact parenthesizedSymbol_stays variableSymbol_stays
  | variableName => exact variableName_stays
  | variableOrConstructor => exact variableOrConstructor_stays
  | moduleName => exact moduleName_stays
  | qualifiedTerm => exact qualifiedTerm_stays
  | qualifiedSymbolFollows isKind => exact qualifiedSymbolFollows_stays isKind
  | quotedOperator => exact quotedOperator_stays
  | quotedFollows token => exact quotedFollows_stays token
  | operator? => exact operator?_stays
  | variableOperator? => exact variableOperator?_stays
  | constructorOperator? => exact constructorOperator?_stays
  | reject => exact reject_stays
  | endOfItem => exact endOfItem_stays
  | itemThenEnd item induction => exact itemThenEnd_agrees induction
  | block item induction => exact block_agrees induction
  | type => exact agrees.type
  | functionType => exact functionType_agrees agrees
  | typeApplication => exact typeApplication_agrees agrees
  | typeAtom => exact typeAtom_agrees agrees
  | parenthesizedType => exact parenthesizedType_agrees agrees
  | listType => exact listType_agrees agrees
  | pattern => exact agrees.pattern
  | operandPattern => exact operandPattern_agrees agrees
  | parenthesizedConstructorFollows => exact parenthesizedConstructorFollows_stays
  | constructorPattern start constructor => exact constructorPattern_agrees agrees start constructor
  | patternAfter start left => exact patternAfter_agrees agrees start left
  | patternAtom => exact patternAtom_agrees agrees
  | nestedPatternAtom => exact agrees.patternAtom
  | patternAtoms => exact patternAtoms_agrees agrees
  | parenthesizedPattern => exact parenthesizedPattern_agrees agrees
  | tupleConstructor start => exact tupleConstructor_stays start
  | listPattern => exact listPattern_agrees agrees
  | literal => exact literal_stays
  | decl => exact decl_agrees agrees
  | declBlock => exact agrees.declBlock
  | fixityDecl => exact fixityDecl_stays
  | fixityOperator => exact fixityOperator_stays
  | bindingDecl => exact bindingDecl_agrees agrees
  | declAfterName start name => exact declAfterName_agrees agrees start name
  | declAfterPattern start left => exact declAfterPattern_agrees agrees start left
  | patternAfterVariable start name => exact patternAfterVariable_agrees agrees start name
  | operatorClause start left operator => exact operatorClause_agrees agrees start left operator
  | typeSignature start first => exact typeSignature_agrees agrees start first
  | rightSide separator => exact rightSide_agrees agrees separator
  | guardedExpr separator => exact guardedExpr_agrees agrees separator
  | expression => exact agrees.expression
  | annotated start expr => exact annotated_agrees agrees start expr
  | chain => exact chain_agrees agrees
  | chainFrom inSection start left pending =>
    exact chainFrom_agrees agrees inSection start left pending
  | signedOperand => exact signedOperand_agrees agrees
  | operand => exact operand_agrees agrees
  | lambda => exact lambda_agrees agrees
  | letExpression => exact letExpression_agrees agrees
  | conditional => exact conditional_agrees agrees
  | caseExpression => exact caseExpression_agrees agrees
  | alternative => exact alternative_agrees agrees
  | alternativeBlock => exact agrees.alternativeBlock
  | doExpression => exact doExpression_agrees agrees
  | statement => exact statement_agrees agrees
  | statementBlock => exact agrees.statementBlock
  | application => exact application_agrees agrees
  | arguments start function => exact arguments_agrees agrees start function
  | atom => exact atom_agrees agrees
  | nestedAtom => exact agrees.expressionAtom
  | parentheses => exact agrees.parentheses
  | afterLeadingOperator start operator => exact afterLeadingOperator_agrees agrees start operator
  | afterFirstOperand start firstStart first =>
    exact afterFirstOperand_agrees agrees start firstStart first
  | brackets => exact agrees.brackets
  | members => exact members_stays
  | selection isExport => exact fun parser level => selection_fresh isExport parser level trivial
  | selectionList isExport => exact selectionList_stays isExport
  | moduleHeader => exact moduleHeader_stays
  | importDecl => exact importDecl_stays
  | unsupportedDecl => exact unsupportedDecl_stays
  | topDecl => exact topDeclOver_agrees agrees
  | moduleBody => exact moduleBodyOver_agrees agrees
  | program => exact programOver_agrees agrees

end Production

/-- Items of a block leave each further one the depth that the first one met. -/
theorem depth_iterate_itemThenEnd {α : Type} {depth : Nat} {item : Parse α} (stays : Stays (.nesting depth) item)
    (count : Nat) {parser : Parser} (level : parser.depth = depth) :
    ((fun before => (itemThenEnd item before).2)^[count] parser).depth = depth := by
  induction count with
  | zero => exact level
  | succ count induction =>
    rw [Function.iterate_succ_apply']
    exact (itemThenEnd_agrees stays _ induction).2.depth.trans induction

/-- Wherever a production stands in the tower of levels and whatever it meets, it keeps the nesting
budget. However many items of its kind were read before, it meets the same depth and is the recursion of
the grammar run for one round more than there are levels left; nothing below that is run. The productions
of a whole program are those over the outermost level. -/
theorem nesting_budget_kept {α : Type} (production : Production α) {further : Nat} {parser : Parser}
    (room : parser.depth + further = nestingLimit) :
    (∃ acts, KeepsBudget parser acts (production.run (level further) parser).2) ∧
    (∀ count,
      let met := (fun before =>
        (itemThenEnd (production.run (level further)) before).2)^[count] parser
      met.depth = parser.depth ∧ ∀ bottom, production.run (level further) met =
        production.run (unrolled bottom (further + 1)) met) ∧
    Production.topDecl.run outermost = topDecl ∧ Production.moduleBody.run outermost = moduleBody ∧
      Production.program.run outermost = program := by
  have agrees (bottom : Level) : Agrees (.nesting parser.depth) (production.run (level further))
      (production.run (unrolled bottom (further + 1))) :=
    production.run_agrees (level_agrees bottom further room)
  have stays : Stays (.nesting parser.depth) (production.run (level further)) :=
    fun before same => ⟨rfl, (agrees Level.refusal before same).2⟩
  obtain ⟨acts, trip⟩ := (stays parser rfl).2
  refine ⟨⟨acts, trip.keepsBudget (by omega)⟩, fun count => ?_, topDeclOver_outermost, rfl,
    programOver_outermost⟩
  have met := depth_iterate_itemThenEnd stays count rfl
  exact ⟨met, fun bottom => (agrees bottom _ met).1⟩

/-- One level is left: a parenthesis takes it, and the one inside is refused. -/
theorem nesting_budget_kept_near_limit :
    let place (column : Nat) : Span := ⟨.single, ⟨0, column⟩, ⟨0, column + 1⟩⟩
    let parser : Parser :=
      { start (.ofItems [.silent .openParen (place 0), .silent .openParen (place 1),
          .silent .closeParen (place 2)]) {} with
        depth := 63 }
    parser.depth + 1 = nestingLimit ∧
      (∃ acts, KeepsBudget parser acts (Production.parentheses.run (level 1) parser).2) ∧
      (Production.parentheses.run (level 1) parser).2.context.diagnostics =
        #[⟨.nestingTooDeep, place 1⟩] := by
  intro place parser
  have room : parser.depth + 1 = nestingLimit := rfl
  exact ⟨room, (nesting_budget_kept .parentheses room).1, by decide +kernel⟩

end Haskell.Grammar

end Offside
