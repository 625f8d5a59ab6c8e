import Offside.Haskell.Grammar.Types
import Offside.Proofs.Grammar.Names

/-!
What the productions of a nesting level promise, and the blocks that are shared by all of them. An
item of a block is followed by its separators, and the two together pass a token whatever the item
did.
-/

namespace Offside

set_option autoImplicit false

abbrev TypeTerm.Backed (files : FileId → Prop) (type : TypeTerm) (parser : Parser) : Prop :=
  parser.Backs files type.errors type.span

abbrev Expr.Backed (files : FileId → Prop) (expr : Expr) (parser : Parser) : Prop :=
  parser.Backs files expr.errors expr.span

theorem TypeTerm.stable_backed (files : FileId → Prop) :
    Parse.Stable files (TypeTerm.Backed files) :=
  fun _ _ _ leads backed => leads.backs backed

theorem Expr.stable_backed (files : FileId → Prop) : Parse.Stable files (Expr.Backed files) :=
  fun _ _ _ leads backed => leads.backs backed

namespace Parser

theorem ahead_reportUnexpected (parser : Parser) : parser.reportUnexpected.ahead = parser.ahead := by
  rcases reportUnexpected_cases parser with same | reported
  · rw [same]
  · rw [reported]

theorem remaining_skipAll_lt {token : Token} {parser : Parser} (inner : parser.isAtEnd = false)
    (found : parser.ahead = token) : (parser.skipAll token).remaining < parser.remaining := by
  rw [skipAll, dif_neg (by simp [inner]), if_pos found]
  have leads : Leads (fun _ => True) parser.consume (parser.consume.skipAll token) :=
    Leads.skipAll token parser.consume
  exact Nat.lt_of_le_of_lt leads.remaining_le (remaining_consume_lt inner)

theorem remaining_skipToAny_lt {tokens : List Token} {parser : Parser}
    (inner : parser.isAtEnd = false) (other : parser.ahead ∉ tokens) :
    (parser.skipToAny tokens 0).remaining < parser.remaining := by
  rw [skipToAny, dif_neg (by simp [inner]), if_neg (by simpa using other)]
  have leads : Leads (fun _ => True) parser.consume
      (parser.consume.skipToAny tokens (braceDepthAfter 0 parser.ahead)) :=
    Leads.skipToAny tokens _ parser.consume
  exact Nat.lt_of_le_of_lt leads.remaining_le (remaining_consume_lt inner)

end Parser

namespace Haskell.Grammar

open Offside.Parser Offside.Parse

variable {files : FileId → Prop} {further : Nat} {parser : Parser}

structure Level.Sound (files : FileId → Prop) (further : Nat) (inner : Level) : Prop where
  expression : ∀ parser, Ends files further inner.expression parser (Expr.Backed files)
  pattern : ∀ parser, Ends files further inner.pattern parser (Expr.Backed files)
  type : ∀ parser, Ends files further inner.type parser (TypeTerm.Backed files)
  expressionAtom : ∀ parser, Ends files further inner.expressionAtom parser (Expr.Backed files)
  patternAtom : ∀ parser, Ends files further inner.patternAtom parser (Expr.Backed files)
  parentheses : ∀ parser, parser.isAtEnd = false →
    Ends files further inner.parentheses parser fun expr after =>
      expr.Backed files after ∧ after.remaining < parser.remaining
  brackets : ∀ parser, parser.isAtEnd = false →
    Ends files further inner.brackets parser fun expr after =>
      expr.Backed files after ∧ after.remaining < parser.remaining
  declBlock : ∀ parser, Ends files further inner.declBlock parser fun decls after =>
    after.Accounts (Decl.listErrors decls)
  alternativeBlock : ∀ parser, Ends files further inner.alternativeBlock parser
    fun alternatives after => after.Accounts (Alternative.listErrors alternatives)
  statementBlock : ∀ parser, Ends files further inner.statementBlock parser
    fun statements after => after.Accounts (Statement.listErrors statements)

theorem isAtEnd_of_not_closing (other : closesOperand parser.ahead = false) :
    parser.isAtEnd = false := by
  simp only [Parser.isAtEnd, decide_eq_false_iff_not]
  intro ended
  rw [ended] at other
  cases other

theorem reject_ends (parser : Parser) :
    Ends files further reject parser fun span after =>
      after.Backs files [span] span ∧
        (closesOperand parser.ahead = false → after.remaining < parser.remaining) := by
  unfold reject
  apply Ends.of_ready
  intro ready
  simp only [ends_aheadSpan, ends_ahead]
  split
  · rename_i closes
    apply Ends.reportUnexpected
    intro leads
    refine Ends.pure ⟨⟨reportUnexpected_accounts ready.toValid, ?_⟩, ?_⟩
    · exact leads.places ready.toValid.placed
    · intro other
      rw [closes] at other
      cases other
  · apply Ends.fail
    intro leads
    refine Ends.pure ⟨⟨fail_accounts ready.toValid, leads.places ready.toValid.placed⟩, ?_⟩
    intro other
    have inside : parser.isAtEnd = false :=
      isAtEnd_of_not_closing other
    exact remaining_fail_lt inside

def endsItem (token : Token) : Bool :=
  token = .semicolon || token = .closeBrace || token = .endOfInput

theorem endOfItem_apply (parser : Parser) :
    endOfItem parser =
      ((), if endsItem parser.ahead then parser.skipAll .semicolon
        else (parser.reportUnexpected.skipToAny [.semicolon, .closeBrace] 0).skipAll
          .semicolon) := by
  unfold endOfItem
  rw [ahead_bind_apply]
  generalize parser.ahead = token
  cases token <;> rfl

/-- The separators pass a token unless the block is at its end. -/
theorem endOfItem_ends (parser : Parser) :
    Ends files further endOfItem parser fun _ after =>
      parser.isAtEnd = false → parser.ahead ≠ .closeBrace →
        after.remaining < parser.remaining := by
  unfold endOfItem
  simp only [ends_ahead]
  split
  · rename_i separated
    apply Ends.modify (Leads.skipAll .semicolon parser)
    intro inside _
    exact remaining_skipAll_lt inside separated
  · rename_i closed
    apply Ends.modify (Leads.skipAll .semicolon parser)
    intro _ open_
    exact absurd closed open_
  · rename_i ended
    apply Ends.modify (Leads.skipAll .semicolon parser)
    intro inside _
    simp [Parser.isAtEnd, ended] at inside
  · rename_i semicolon brace ended
    apply Ends.reportUnexpected
    intro leads
    apply Ends.skipToAny
    intro _
    refine Ends.modify (Leads.skipAll .semicolon _) fun inside _ => ?_
    have other : parser.reportUnexpected.ahead ∉ [Token.semicolon, .closeBrace] := by
      rw [ahead_reportUnexpected]
      simpa using And.intro semicolon brace
    have skipped := remaining_skipToAny_lt ((isAtEnd_reportUnexpected parser).trans inside) other
    have after : Leads files (parser.reportUnexpected.skipToAny [.semicolon, .closeBrace] 0)
      ((parser.reportUnexpected.skipToAny [.semicolon, .closeBrace] 0).skipAll .semicolon) :=
        Leads.skipAll .semicolon _
    rw [remaining_reportUnexpected] at skipped
    exact Nat.lt_of_le_of_lt after.remaining_le skipped

theorem itemFollows_apply (parser : Parser) :
    itemFollows parser = (!(parser.isAtEnd || parser.ahead = .closeBrace), parser) := by
  rw [itemFollows, ahead_bind_apply]
  apply congrFun (g := (pure (!(parser.isAtEnd || parser.ahead = .closeBrace)) : Parse Bool))
  split
  · rename_i found
    simp [found]
  · rename_i found
    simp [Parser.isAtEnd, found]
  · rename_i opened inner
    rw [Parser.isAtEnd, decide_eq_false opened, decide_eq_false inner]
    rfl

def startsImport (token : Token) : Bool := token = .kwImport

def startsItem (token : Token) : Bool := !(token = .endOfInput || token = .closeBrace)

theorem isAt_import_ahead (parser : Parser) :
    isAt .kwImport parser = (startsImport parser.ahead, parser) := rfl

theorem itemFollows_ahead (parser : Parser) :
    itemFollows parser = (startsItem parser.ahead, parser) :=
  itemFollows_apply parser

theorem itemFollows_ends (parser : Parser) :
    Ends files further itemFollows parser fun follows after =>
      after = parser ∧
        (follows = true → parser.isAtEnd = false ∧ parser.ahead ≠ .closeBrace) := by
  unfold itemFollows
  simp only [ends_ahead]
  split
  · exact Ends.pure ⟨rfl, by simp⟩
  · exact Ends.pure ⟨rfl, by simp⟩
  · rename_i brace ended
    exact Ends.pure ⟨rfl, fun _ => ⟨by simpa [Parser.isAtEnd] using ended, brace⟩⟩

/-- An item that follows and its separators pass a token, even where the item itself passes none. -/
theorem itemThenEnd_ends {α : Type} {item : Parse α} {holds : α → Parser → Prop}
    (stable : Stable files holds) (ends : Ends files further item parser holds) :
    Ends files further (itemThenEnd item) parser fun value after =>
      holds value after ∧
        (parser.isAtEnd = false → parser.ahead ≠ .closeBrace →
          after.remaining < parser.remaining) := by
  unfold itemThenEnd
  apply Ends.bind ends
  intro value middle leads held
  apply Ends.bind (endOfItem_ends middle)
  intro _ after goesOn progress
  refine Ends.pure ⟨stable value middle after goesOn held, fun inside other => ?_⟩
  rcases leads.progress_or_still with passed | still
  · exact Nat.lt_of_le_of_lt goesOn.remaining_le passed
  · have insideMiddle : middle.isAtEnd = false := by
      simpa [Parser.isAtEnd, still.1] using inside
    have passed := progress insideMiddle (by rwa [still.1])
    exact Nat.lt_of_lt_of_le passed leads.remaining_le

theorem items_ends_along {α : Type} {item : Parse α} {holds : α → Parser → Prop} {parser : Parser}
    (stable : Stable files holds)
    (each : ∀ start, Leads files parser start → Ends files further item start holds) :
    Ends files further (many itemFollows (itemThenEnd item)) parser fun values after =>
      ∀ value ∈ values, holds value after := by
  apply many_ends_along stable
  intro start reached
  apply (itemFollows_ends start).mono
  rintro follows _ _ ⟨rfl, going⟩ goes
  apply (itemThenEnd_ends stable (each _ reached)).mono
  intro value final _ held
  exact ⟨held.2 (going goes).1 (going goes).2, held.1⟩

theorem items_ends {α : Type} {item : Parse α} {holds : α → Parser → Prop}
    (stable : Stable files holds) (each : ∀ start, Ends files further item start holds)
    (parser : Parser) :
    Ends files further (many itemFollows (itemThenEnd item)) parser fun values after =>
      ∀ value ∈ values, holds value after :=
  items_ends_along stable fun start _ => each start

theorem block_ends {α : Type} {item : Parse α} {holds : α → Parser → Prop}
    (stable : Stable files holds) (each : ∀ start, Ends files further item start holds)
    (parser : Parser) :
    Ends files further (block item) parser fun values after =>
      ∀ value ∈ values, holds value after := by
  unfold block
  apply Ends.expect (by decide)
  intro found after _
  cases found with
  | false => exact Ends.pure (by simp)
  | true =>
    apply Ends.bind (items_ends stable each after)
    intro values afterItems _ held
    apply Ends.expectOrSkipTo (by decide)
    intro _ final leads
    exact Ends.pure fun value member => stable value _ _ leads (held value member)

end Haskell.Grammar

/-!
Types end with every missing part reported. The atoms of an application pass a token each.
-/

@[simp] theorem Parser.accounts_types {parser : Parser} {types : List TypeTerm} :
    parser.Accounts (TypeTerm.listErrors types) ↔ ∀ type ∈ types, parser.Accounts type.errors :=
  accounts_collected (fun _ => TypeTerm.mem_listErrors) parser

namespace Haskell.Grammar

open Offside.Parser Offside.Parse

variable {files : FileId → Prop} {further : Nat} {inner : Level} {parser : Parser}

theorem arrowConstructor_ends {start : Span} (placed : parser.Places files start) :
    Ends files further (arrowConstructor start) parser (TypeTerm.Backed files) := by
  unfold arrowConstructor
  apply Ends.skipAll
  intro leadsCommas
  apply Ends.accept_either (by decide)
  intro _ afterArrow leadsArrow
  apply Ends.expectOrSkipTo (by decide)
  intro _ final leadsClose
  have placedEnd := ((leadsCommas.trans leadsArrow).trans leadsClose).places placed
  exact Ends.pure ⟨by simp, placedEnd.spanFrom⟩

variable (sound : inner.Sound files further)

include sound

theorem parenthesizedType_ends (inside : parser.isAtEnd = false) :
    Ends files further (parenthesizedType inner) parser fun type after =>
      type.Backed files after ∧ after.remaining < parser.remaining := by
  unfold parenthesizedType
  apply Ends.of_ready
  intro ready
  simp only [ends_aheadSpan]
  apply Ends.passing inside
  intro leads
  have placed := leads.places ready.toValid.placed
  apply Ends.accept (by decide)
  · intro _ leadsClose
    exact Ends.pure ⟨by simp, (leadsClose.places placed).spanFrom⟩
  · intro _
    simp only [Bool.false_eq_true, if_false, ends_isAt]
    split
    · exact arrowConstructor_ends placed
    · apply Ends.bind (sound.type _)
      intro first afterFirst leadsFirst backed
      simp only [ends_isAt]
      split
      · apply Ends.bind (many_accept_ends (by decide) (TypeTerm.stable_backed files) sound.type _)
        intro later afterLater leadsLater backedLater
        apply Ends.expectOrSkipTo (by decide)
        intro _ final leadsClose
        have placedEnd := ((leadsFirst.trans leadsLater).trans leadsClose).places placed
        refine Ends.pure ⟨?_, placedEnd.spanFrom⟩
        have firstEnd := (leadsLater.trans leadsClose).accounts backed.accounted
        have laterEnd : ∀ type ∈ later, final.Accounts type.errors := fun type member =>
          leadsClose.accounts (backedLater type member).accounted
        simpa using And.intro firstEnd laterEnd
      · apply Ends.expectOrSkipTo (by decide)
        intro _ final leadsClose
        exact Ends.pure (leadsClose.backs backed)

theorem listType_ends (inside : parser.isAtEnd = false) :
    Ends files further (listType inner) parser fun type after =>
      type.Backed files after ∧ after.remaining < parser.remaining := by
  unfold listType
  apply Ends.of_ready
  intro ready
  simp only [ends_aheadSpan]
  apply Ends.passing inside
  intro leads
  have placed := leads.places ready.toValid.placed
  apply Ends.accept (by decide)
  · intro _ leadsClose
    exact Ends.pure ⟨by simp, (leadsClose.places placed).spanFrom⟩
  · intro _
    apply Ends.bind (sound.type _)
    intro element afterElement leadsElement backed
    apply Ends.expectOrSkipTo (by decide)
    intro _ final leadsClose
    have placedEnd := (leadsElement.trans leadsClose).places placed
    refine Ends.pure ⟨?_, placedEnd.spanFrom⟩
    simpa using leadsClose.accounts backed.accounted

omit sound in
theorem closesOperand_of_startsTypeAtom {token : Token} (starts : startsTypeAtom token = true) :
    closesOperand token = false := by
  cases token <;> first | rfl | cases starts

theorem typeAtom_ends (parser : Parser) :
    Ends files further (typeAtom inner) parser fun type after =>
      type.Backed files after ∧
        (startsTypeAtom parser.ahead = true → after.remaining < parser.remaining) := by
  unfold typeAtom
  simp only [ends_ahead]
  split
  · rename_i found
    apply Ends.bind (qualifiedIdentifier_ends parser)
    intro name after _ read
    refine Ends.pure ⟨⟨?_, read.1.placed⟩, fun _ => read.2 (isAtEnd_of_ahead (by decide) found)⟩
    simpa using read.1.accounted
  · rename_i found
    apply Ends.bind (variableIdentifier_ends parser)
    intro name after _ read
    refine Ends.pure ⟨⟨?_, read.1.placed⟩, fun _ => read.2 (isAtEnd_of_ahead (by decide) found)⟩
    simpa using read.1.accounted
  · rename_i found
    apply (parenthesizedType_ends sound (isAtEnd_of_ahead (by decide) found)).mono
    intro type after _ read
    exact ⟨read.1, fun _ => read.2⟩
  · rename_i found
    apply (listType_ends sound (isAtEnd_of_ahead (by decide) found)).mono
    intro type after _ read
    exact ⟨read.1, fun _ => read.2⟩
  · apply Ends.bind (reject_ends parser)
    intro span after _ rejected
    refine Ends.pure ⟨⟨?_, rejected.1.placed⟩, fun starts => ?_⟩
    · simpa using rejected.1.accounted
    · exact rejected.2 (closesOperand_of_startsTypeAtom starts)

theorem typeApplication_ends (parser : Parser) :
    Ends files further (typeApplication inner) parser (TypeTerm.Backed files) := by
  unfold typeApplication
  apply Ends.of_ready
  intro ready
  simp only [ends_aheadSpan]
  apply Ends.bind (typeAtom_ends sound parser)
  intro head afterHead leadsHead backed
  have arguments : Ends files further
      (many (do return startsTypeAtom (← ahead)) (typeAtom inner)) afterHead fun types after =>
        ∀ type ∈ types, type.Backed files after := by
    apply many_ends (TypeTerm.stable_backed files)
    intro start
    simp only [ends_ahead]
    apply Ends.pure
    intro starts
    apply (typeAtom_ends sound start).mono
    intro type after _ read
    exact ⟨read.2 starts, read.1⟩
  apply Ends.bind arguments
  intro types after leads backedTypes
  split
  · exact Ends.pure (leads.backs backed.1)
  · have placed := (leadsHead.trans leads).places ready.toValid.placed
    refine Ends.pure ⟨?_, placed.spanFrom⟩
    have headEnd := leads.accounts backed.1.accounted
    have typesEnd : ∀ type ∈ types, after.Accounts type.errors := fun type member =>
      (backedTypes type member).accounted
    simpa using And.intro headEnd typesEnd

omit sound in
/-- The arrows are joined from the right, as the list of parameters recurses. -/
theorem arrows_ends {first : TypeTerm} {later : List TypeTerm}
    (backedFirst : first.Backed files parser)
    (backedLater : ∀ type ∈ later, type.Backed files parser) :
    Ends files further (arrows first later) parser (TypeTerm.Backed files) := by
  induction later generalizing first with
  | nil => exact Ends.pure backedFirst
  | cons next later induction =>
    apply Ends.bind (induction (backedLater next List.mem_cons_self) fun type member =>
      backedLater type (List.mem_cons_of_mem next member))
    intro result after leads backedResult
    have backedEnd := leads.backs backedFirst
    apply Ends.bind (join_ends backedEnd.placed backedResult.placed)
    intro span final leadsJoin placed
    refine Ends.pure ⟨?_, placed⟩
    have parameterEnd := leadsJoin.accounts backedEnd.accounted
    have resultEnd := leadsJoin.accounts backedResult.accounted
    simpa using And.intro parameterEnd resultEnd

theorem functionType_ends (parser : Parser) :
    Ends files further (functionType inner) parser (TypeTerm.Backed files) := by
  unfold functionType
  apply Ends.bind (typeApplication_ends sound parser)
  intro first afterFirst _ backedFirst
  apply Ends.bind (many_accept_ends (by decide) (TypeTerm.stable_backed files)
    (typeApplication_ends sound) afterFirst)
  intro later after leads backedLater
  exact arrows_ends (leads.backs backedFirst) backedLater

theorem typeProduction_ends (parser : Parser) :
    Ends files further (typeProduction inner) parser (TypeTerm.Backed files) := by
  unfold typeProduction
  apply Ends.of_ready
  intro ready
  simp only [ends_aheadSpan]
  apply Ends.bind (functionType_ends sound parser)
  intro context afterContext leadsContext backedContext
  apply Ends.accept (by decide)
  · intro _ leadsArrow
    apply Ends.bind (functionType_ends sound afterContext.consume)
    intro body after leads backedBody
    have placed := ((leadsContext.trans leadsArrow).trans leads).places ready.toValid.placed
    refine Ends.pure ⟨?_, placed.spanFrom⟩
    have contextEnd := (leadsArrow.trans leads).accounts backedContext.accounted
    simpa using And.intro contextEnd backedBody.accounted
  · intro _
    exact Ends.pure backedContext

end Haskell.Grammar

end Offside
