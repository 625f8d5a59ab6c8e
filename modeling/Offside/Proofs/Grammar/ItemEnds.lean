import Mathlib.Data.List.Infix
import Offside.Proofs.Grammar.Recovery
import Offside.Proofs.Parser.Log

/-!
Where a skip to the end of a block item stops. While tokens are passed the skip counts braces, and its
count is the number of braces that were opened and not closed since it began. So it stops at the first
separator or closing brace outside the braces it met, whatever stands inside them, and the brace of the
block around is never passed. A skip reports nothing of its own.
-/

namespace Offside

set_option autoImplicit false

open Offside.Lexical

/-- The rest of a block item: closing braces close what was opened in it, all that was opened is
closed, and separators stand inside braces only. -/
structure IsItemRest (tokens : List Token) : Prop where
  inner : .endOfInput ∉ tokens
  matched : ∀ earlier, earlier <+: tokens →
    earlier.count .closeBrace ≤ earlier.count .openBrace
  closed : tokens.count .closeBrace = tokens.count .openBrace
  separators : ∀ earlier, earlier ++ [.semicolon] <+: tokens →
    earlier.count .closeBrace < earlier.count .openBrace

namespace IsItemRest

theorem iff_inits (tokens : List Token) :
    IsItemRest tokens ↔
      .endOfInput ∉ tokens ∧ tokens.count .closeBrace = tokens.count .openBrace ∧
        ∀ earlier ∈ tokens.inits, earlier.count .closeBrace ≤ earlier.count .openBrace ∧
          (earlier ++ [.semicolon] ∈ tokens.inits →
            earlier.count .closeBrace < earlier.count .openBrace) := by
  simp only [List.mem_inits]
  constructor
  · intro item
    exact ⟨item.inner, item.closed,
      fun earlier reached => ⟨item.matched earlier reached, item.separators earlier⟩⟩
  · rintro ⟨inner, closed, each⟩
    refine ⟨inner, fun earlier reached => (each earlier reached).1, closed, ?_⟩
    intro earlier reached
    exact (each earlier ((List.prefix_append earlier _).trans reached)).2 reached

instance decidable (tokens : List Token) : Decidable (IsItemRest tokens) :=
  decidable_of_iff _ (iff_inits tokens).symm

end IsItemRest

namespace Parser

variable {parser : Parser} {passed rest : List (Token × Span)} {ending : Token × Span}
  {later : Stream' (Token × Span)}

/-- The lookahead is the first token to come, and the others come once it is consumed. -/
theorem upcoming_eq_cons {found : Token × Span}
    (upcoming : parser.upcoming = Stream'.cons found later) :
    (parser.ahead, parser.aheadSpan) = found ∧ parser.consume.upcoming = later := by
  have split := (upcoming_consume parser).symm.trans upcoming
  exact ⟨congrArg Stream'.head split, congrArg Stream'.tail split⟩

/-- One token on, the count is again what was opened and not closed. -/
theorem braceDepthAfter_count {token : Token} {earlier : List Token} {depth : Nat}
    (counted : depth + earlier.count .closeBrace = earlier.count .openBrace)
    (matched : (earlier ++ [token]).count .closeBrace ≤ (earlier ++ [token]).count .openBrace) :
    braceDepthAfter depth token + (earlier ++ [token]).count .closeBrace =
      (earlier ++ [token]).count .openBrace := by
  rw [List.count_append, List.count_append] at matched ⊢
  by_cases isOpening : token = .openBrace
  · simp [isOpening, braceDepthAfter]
    omega
  · by_cases isClosing : token = .closeBrace
    · simp [isClosing, braceDepthAfter] at matched ⊢
      omega
    · rw [braceDepthAfter_of_other isOpening isClosing]
      simp [isOpening, isClosing, counted]

/-- A token of the item ends no skip: outside braces it is neither a separator nor the brace of the
block around. -/
theorem passes_of_item {found : Token × Span} {depth : Nat}
    (item : IsItemRest ((passed ++ found :: rest).map Prod.fst))
    (counted : depth + (passed.map Prod.fst).count .closeBrace =
      (passed.map Prod.fst).count .openBrace) :
    ¬(depth = 0 ∧ itemEnds.contains found.1 = true) := by
  rintro ⟨rfl, ends⟩
  have reached : passed.map Prod.fst ++ [found.1] <+: (passed ++ found :: rest).map Prod.fst :=
    ⟨rest.map Prod.fst, by simp⟩
  simp only [itemEnds, List.contains_eq_mem, List.mem_cons, List.not_mem_nil, or_false,
    decide_eq_true_eq] at ends
  rcases ends with separates | closes
  · have inside := item.separators _ (separates ▸ reached)
    omega
  · have matched := item.matched _ reached
    simp only [closes, List.count_append, List.count_singleton] at matched
    simp at matched
    omega

/-- By induction on the tokens still to be passed; those passed tell how deep the skip is in braces. -/
theorem skipToAny_through {depth : Nat}
    (item : IsItemRest ((passed ++ rest).map Prod.fst))
    (ends : ending.1 = .endOfInput ∨ itemEnds.contains ending.1 = true)
    (counted : depth + (passed.map Prod.fst).count .closeBrace =
      (passed.map Prod.fst).count .openBrace)
    (upcoming : parser.upcoming = rest ++ₛ Stream'.cons ending later) :
    parser.skipToAny itemEnds depth = Parser.consume^[rest.length] parser := by
  induction rest generalizing passed depth parser with
  | nil =>
    have outside : depth = 0 := by
      have closed := item.closed
      rw [List.append_nil] at closed
      omega
    have ahead : parser.ahead = ending.1 :=
      congrArg Prod.fst (upcoming_eq_cons upcoming).1
    rw [skipToAny]
    split
    · rfl
    · rename_i inside
      have stops : itemEnds.contains parser.ahead = true := by
        rw [ahead]
        exact ends.resolve_left fun ended => inside (by simp [isAtEnd, ahead, ended])
      rw [if_pos ⟨outside, stops⟩]
      rfl
  | cons found rest induction =>
    obtain ⟨here, upcomingLater⟩ := upcoming_eq_cons upcoming
    have ahead : parser.ahead = found.1 := congrArg Prod.fst here
    have inside : ¬parser.isAtEnd = true := by
      intro ended
      have isEnd : found.1 = .endOfInput := by simpa [isAtEnd, ahead] using ended
      exact item.inner (List.mem_map.2 ⟨found, by simp, isEnd⟩)
    have split : passed ++ found :: rest = (passed ++ [found]) ++ rest := by simp
    have matched := item.matched (passed.map Prod.fst ++ [found.1])
      ⟨rest.map Prod.fst, by simp⟩
    rw [skipToAny, dif_neg inside, if_neg (by rw [ahead]; exact passes_of_item item counted)]
    have itemLater : IsItemRest (((passed ++ [found]) ++ rest).map Prod.fst) := split ▸ item
    have countedLater : braceDepthAfter depth parser.ahead +
        ((passed ++ [found]).map Prod.fst).count .closeBrace =
          ((passed ++ [found]).map Prod.fst).count .openBrace := by
      rw [ahead, List.map_append]
      exact braceDepthAfter_count counted matched
    have goesOn := induction itemLater countedLater upcomingLater
    rw [goesOn, List.length_cons, Function.iterate_succ_apply]

/-- Consuming adds the reports that the tokens bring, and no others. -/
theorem diagnostics_iterate (parser : Parser) (count : Nat) :
    ∃ read, (Parser.consume^[count] parser).context.diagnostics.toList =
        parser.context.diagnostics.toList ++ read ∧
      reportsOf parser.input.items =
        read ++ reportsOf (Parser.consume^[count] parser).input.items := by
  induction count generalizing parser with
  | zero => exact ⟨[], by simp⟩
  | succ count induction =>
    obtain ⟨read, added, left⟩ := induction parser.consume
    rw [Function.iterate_succ_apply]
    refine ⟨parser.consumedReports ++ read, ?_, ?_⟩
    · rw [added, Logged.diagnostics_consume, List.append_assoc]
    · rw [Logged.input_consume, left, List.append_assoc]

theorem iterate_keeps (parser : Parser) (count : Nat) :
    (Parser.consume^[count] parser).consumed = parser.consumed + count ∧
      (Parser.consume^[count] parser).depth = parser.depth ∧
      (Parser.consume^[count] parser).fault = parser.fault ∧
      (Parser.consume^[count] parser).reportedAt = parser.reportedAt := by
  induction count generalizing parser with
  | zero => exact ⟨rfl, rfl, rfl, rfl⟩
  | succ count induction =>
    obtain ⟨consumed, depth, fault, reportedAt⟩ := induction parser.consume
    obtain ⟨one, sameDepth, sameFault, sameReport⟩ := consume_keeps parser
    rw [Function.iterate_succ_apply, consumed, depth, fault, reportedAt, one]
    exact ⟨by omega, sameDepth, sameFault, sameReport⟩

/-- Some tokens were consumed and nothing else was done: the tokens to come are known, and only what
tokens brought with them was added to the diagnostics. -/
structure Consumed (before : Parser) (count : Nat) (upcoming : Stream' (Token × Span))
    (after : Parser) : Prop where
  state : after = Parser.consume^[count] before
  consumed : after.consumed = before.consumed + count
  upcoming : after.upcoming = upcoming
  reportedAt : after.reportedAt = before.reportedAt
  reports : ∃ read,
    after.context.diagnostics.toList = before.context.diagnostics.toList ++ read ∧
      reportsOf before.input.items = read ++ reportsOf after.input.items

theorem consumed_iterate (upcoming : parser.upcoming = rest ++ₛ later) :
    parser.Consumed rest.length later (Parser.consume^[rest.length] parser) where
  state := rfl
  consumed := (iterate_keeps parser rest.length).1
  upcoming := by rw [upcoming_iterate, upcoming, Stream'.drop_append_stream]
  reportedAt := (iterate_keeps parser rest.length).2.2.2
  reports := diagnostics_iterate parser rest.length

end Parser

namespace Haskell.Grammar

open Offside.Parser Offside.Parse

theorem topDecl_of_unsupported {parser : Parser} (found : parser.ahead ∈ unsupportedKeywords) :
    topDecl parser = unsupportedDecl parser := by
  have other : importsAt false parser = false := rfl
  have item := itemDecl_of_unsupported false found
  rwa [itemDecl, other, if_neg Bool.false_ne_true] at item

/-- A skip from a state in front of the rest of an item consumes that rest and stops at what ends the
item. An unsupported declaration consumes its keyword and the rest of its item. -/
theorem skips_rest_of_item {rest : List (Token × Span)} {ending : Token × Span}
    {later : Stream' (Token × Span)} (item : IsItemRest (rest.map Prod.fst))
    (ends : ending.1 ∈ [.semicolon, .closeBrace, .endOfInput]) :
    (∀ parser : Parser, parser.upcoming = rest ++ₛ Stream'.cons ending later →
      parser.Consumed rest.length (Stream'.cons ending later)
        (Parse.skipToAny [.semicolon, .closeBrace] parser).2) ∧
    ∀ (parser : Parser) (keyword : Token) (place : Span), keyword ∈ unsupportedKeywords →
      parser.upcoming = Stream'.cons (keyword, place) (rest ++ₛ Stream'.cons ending later) →
        (∃ span, (topDecl parser).1 = .unsupported keyword span) ∧
          parser.Consumed (rest.length + 1) (Stream'.cons ending later) (topDecl parser).2 := by
  have isEnd : ending.1 = .endOfInput ∨ itemEnds.contains ending.1 = true := by
    simp only [List.mem_cons, List.not_mem_nil, or_false] at ends
    rcases ends with found | found | found
    · exact Or.inr (by rw [found]; rfl)
    · exact Or.inr (by rw [found]; rfl)
    · exact Or.inl found
  have skips : ∀ parser : Parser, parser.upcoming = rest ++ₛ Stream'.cons ending later →
      parser.skipToAny [.semicolon, .closeBrace] 0 = Parser.consume^[rest.length] parser :=
    fun parser upcoming =>
      have whole : IsItemRest (([] ++ rest).map Prod.fst) := item
      skipToAny_through whole isEnd rfl upcoming
  refine ⟨fun parser upcoming => ?_, fun parser keyword place known upcoming => ?_⟩
  · change parser.Consumed _ _ (parser.skipToAny [.semicolon, .closeBrace] 0)
    rw [skips parser upcoming]
    exact consumed_iterate upcoming
  · obtain ⟨here, upcomingLater⟩ := upcoming_eq_cons upcoming
    have ahead : parser.ahead = keyword := congrArg Prod.fst here
    rw [topDecl_of_unsupported (ahead ▸ known)]
    refine ⟨⟨_, by rw [← ahead]; rfl⟩, ?_⟩
    change parser.Consumed _ _ (parser.consume.skipToAny [.semicolon, .closeBrace] 0)
    rw [skips parser.consume upcomingLater, ← Function.iterate_succ_apply]
    have through : parser.upcoming = ((keyword, place) :: rest) ++ₛ Stream'.cons ending later :=
      upcoming
    exact consumed_iterate through

/-- A block inside a block, with separators in both, in front of the brace of the block around. -/
theorem skips_rest_of_item_nested :
    let found (entry : Token × Nat) : Token × Span := (entry.1, .slot entry.2)
    let rest := [(Token.kwWhere, 1), (.openBrace, 2), (.identifier, 3), (.semicolon, 4),
      (.openBrace, 5), (.semicolon, 6), (.closeBrace, 7), (.closeBrace, 8)].map found
    let parser := start (TokenStream.spaced [.kwInstance, .kwWhere, .openBrace, .identifier,
      .semicolon, .openBrace, .semicolon, .closeBrace, .closeBrace, .closeBrace, .semicolon]) {}
    IsItemRest (rest.map Prod.fst) ∧
      ∃ later, parser.Consumed 9 (Stream'.cons (.closeBrace, .slot 9) later) (topDecl parser).2 := by
  intro found rest parser
  have item : IsItemRest (rest.map Prod.fst) := by decide
  have upcoming : parser.upcoming = _ := upcoming_start _ _
  exact ⟨item, _, ((@skips_rest_of_item rest (.closeBrace, .slot 9) _ item (by decide)).2
    parser .kwInstance (.slot 0) (by decide) upcoming).2⟩

end Haskell.Grammar

end Offside
