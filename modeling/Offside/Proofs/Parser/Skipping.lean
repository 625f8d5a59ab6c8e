import Offside.Proofs.Parser.Ends

/-!
Skipping to the end of a block item, seen on the tokens that are left. An item whose braces are
balanced and that has no separator outside them is skipped exactly to its end from any place outside
its braces; from a place inside them the skip ends too early.
-/

namespace Offside.Parser

set_option autoImplicit false

def itemEnds : List Token := [.semicolon, .closeBrace]

/-- Inside some braces, tokens that close these and their own and have no item end outside all of
them. -/
def isClosed (depth : Nat) : List (Token × Span) → Bool
  | [] => depth = 0
  | found :: later =>
    !(depth = 0 && itemEnds.contains found.1) && isClosed (braceDepthAfter depth found.1) later

/-- What is left after skipping to an item end. -/
def skipped (depth : Nat) : List (Token × Span) → List (Token × Span)
  | [] => []
  | found :: later =>
    if depth = 0 ∧ itemEnds.contains found.1 then found :: later
    else skipped (braceDepthAfter depth found.1) later

def afterItem (tokens : List (Token × Span)) : List (Token × Span) :=
  (skipped 0 tokens).dropWhile fun found => found.1 = .semicolon

theorem rest_reportUnexpected (parser : Parser) : parser.reportUnexpected.rest = parser.rest := by
  rcases reportUnexpected_cases parser with same | reported
  · rw [same]
  · rw [reported]
    rfl

theorem rest_skipToAny (depth : Nat) (parser : Parser) :
    (parser.skipToAny itemEnds depth).rest = skipped depth parser.rest := by
  fun_induction Parser.skipToAny itemEnds depth parser with
  | case1 depth parser ended =>
    rw [(rest_eq_nil_iff parser).2 ended]
    rfl
  | case2 depth parser inner found =>
    rw [rest_consume (by simpa using inner), skipped, if_pos found]
  | case3 depth parser inner other fewer induction =>
    have front := rest_consume (by simpa using inner : parser.isAtEnd = false)
    rw [front, skipped, if_neg other, induction]

theorem rest_skipAll (token : Token) (parser : Parser) :
    (parser.skipAll token).rest = parser.rest.dropWhile fun found => found.1 = token := by
  fun_induction Parser.skipAll token parser with
  | case1 parser ended =>
    rw [(rest_eq_nil_iff parser).2 ended]
    rfl
  | case2 parser inner found fewer induction =>
    have front := rest_consume (by simpa using inner : parser.isAtEnd = false)
    rw [front, List.dropWhile_cons_of_pos (by simpa using found), induction]
  | case3 parser inner other =>
    rw [rest_consume (by simpa using inner), List.dropWhile_cons_of_neg]
    simpa using other

theorem skipped_of_closed {found : Token × Span} (ends : itemEnds.contains found.1 = true)
    (later : List (Token × Span)) (left : List (Token × Span)) (depth : Nat)
    (closed : isClosed depth left = true) :
    skipped depth (left ++ found :: later) = found :: later := by
  induction left generalizing depth with
  | nil =>
    have outside : depth = 0 := by simpa [isClosed] using closed
    rw [List.nil_append, skipped, if_pos ⟨outside, ends⟩]
  | cons first left induction =>
    simp only [isClosed, Bool.and_eq_true, Bool.not_eq_true', Bool.and_eq_false_iff] at closed
    have passed : ¬(depth = 0 ∧ itemEnds.contains first.1 = true) := by
      rintro ⟨outside, isEnd⟩
      rcases closed.1 with inside | other
      · simp [outside] at inside
      · rw [isEnd] at other
        cases other
    rw [List.cons_append, skipped, if_neg passed]
    exact induction _ closed.2

/-- From outside the braces of an item the skip reaches the next one. -/
theorem afterItem_of_closed {left next : List (Token × Span)} {separator : Span}
    (closed : isClosed 0 left = true) (other : ∀ found ∈ next.head?, found.1 ≠ .semicolon) :
    afterItem (left ++ (.semicolon, separator) :: next) = next := by
  rw [afterItem, skipped_of_closed rfl next left 0 closed, List.dropWhile_cons_of_pos rfl]
  cases next with
  | nil => rfl
  | cons found later =>
    rw [List.dropWhile_cons_of_neg]
    simpa using other found rfl

theorem braceDepthAfter_of_other {token : Token} (notOpening : token ≠ .openBrace)
    (notClosing : token ≠ .closeBrace) (depth : Nat) : braceDepthAfter depth token = depth := by
  unfold braceDepthAfter
  split
  · exact absurd rfl notOpening
  · exact absurd rfl notClosing
  · rfl

/-- Braces around do not change how braces are counted, as long as these are not closed. -/
theorem braceDepthAfter_add {depth : Nat} {token : Token} (outer : Nat)
    (inner : ¬(depth = 0 ∧ itemEnds.contains token = true)) :
    braceDepthAfter (depth + (outer + 1)) token = braceDepthAfter depth token + (outer + 1) := by
  by_cases isOpening : token = .openBrace
  · rw [isOpening]
    simp only [braceDepthAfter]
    omega
  · by_cases isClosing : token = .closeBrace
    · have positive : depth ≠ 0 := by
        intro outside
        exact inner ⟨outside, by rw [isClosing]; rfl⟩
      rw [isClosing]
      simp only [braceDepthAfter]
      omega
    · rw [braceDepthAfter_of_other isOpening isClosing, braceDepthAfter_of_other isOpening isClosing]

theorem skipped_inside {outer : Nat} (tail left : List (Token × Span)) (depth : Nat)
    (closed : isClosed (depth + (outer + 1)) left = true) :
    ∃ middle, isClosed (outer + 1) middle = true ∧
      skipped depth (left ++ tail) = middle ++ tail := by
  induction left generalizing depth with
  | nil => simp [isClosed] at closed
  | cons first left induction =>
    by_cases stops : depth = 0 ∧ itemEnds.contains first.1 = true
    · refine ⟨first :: left, ?_, ?_⟩
      · rw [stops.1, Nat.zero_add] at closed
        exact closed
      · rw [List.cons_append, skipped, if_pos stops]
    · simp only [isClosed, Bool.and_eq_true] at closed
      rw [braceDepthAfter_add outer stops] at closed
      rw [List.cons_append, skipped, if_neg stops]
      exact induction _ closed.2

theorem dropWhile_inside {outer : Nat} (tail middle : List (Token × Span))
    (closed : isClosed (outer + 1) middle = true) :
    ∃ left, left ≠ [] ∧
      (middle ++ tail).dropWhile (fun found => found.1 = .semicolon) = left ++ tail := by
  induction middle with
  | nil => simp [isClosed] at closed
  | cons first middle induction =>
    by_cases separates : first.1 = .semicolon
    · simp only [isClosed, Bool.and_eq_true, separates] at closed
      rw [List.cons_append, List.dropWhile_cons_of_pos (by simpa using separates)]
      exact induction closed.2
    · refine ⟨first :: middle, List.cons_ne_nil _ _, ?_⟩
      rw [List.cons_append, List.dropWhile_cons_of_neg (by simpa using separates)]

theorem afterItem_inside {outer : Nat} {left : List (Token × Span)} (tail : List (Token × Span))
    (closed : isClosed (outer + 1) left = true) :
    ∃ final, final ≠ [] ∧ afterItem (left ++ tail) = final ++ tail := by
  obtain ⟨middle, closedMiddle, stopped⟩ :=
    skipped_inside tail left 0 (by rwa [Nat.zero_add])
  rw [afterItem, stopped]
  exact dropWhile_inside tail middle closedMiddle

theorem length_skipped_le (tokens : List (Token × Span)) (depth : Nat) :
    (skipped depth tokens).length ≤ tokens.length := by
  induction tokens generalizing depth with
  | nil => exact Nat.le_refl _
  | cons first later induction =>
    rw [skipped]
    split
    · exact Nat.le_refl _
    · exact Nat.le_succ_of_le (induction _)

theorem length_afterItem_le (tokens : List (Token × Span)) :
    (afterItem tokens).length ≤ tokens.length :=
  Nat.le_trans (List.dropWhile_sublist _).length_le (length_skipped_le tokens 0)

/-- An item that starts with none of its ends does not survive the skip. -/
theorem length_afterItem_lt {found : Token × Span} (later : List (Token × Span))
    (goesOn : itemEnds.contains found.1 = false) :
    (afterItem (found :: later)).length < (found :: later).length := by
  have passed : ¬(0 = 0 ∧ itemEnds.contains found.1 = true) := by
    rintro ⟨_, isEnd⟩
    rw [goesOn] at isEnd
    cases isEnd
  have shorter := length_skipped_le later (braceDepthAfter 0 found.1)
  rw [afterItem, skipped, if_neg passed, List.length_cons]
  exact Nat.lt_succ_of_le (Nat.le_trans (List.dropWhile_sublist _).length_le shorter)

theorem isClosed_of_append {left : List (Token × Span)} (passed : List (Token × Span))
    (depth : Nat) (closed : isClosed depth (passed ++ left) = true) :
    ∃ inside, isClosed inside left = true := by
  induction passed generalizing depth with
  | nil => exact ⟨depth, closed⟩
  | cons first passed induction =>
    simp only [List.cons_append, isClosed, Bool.and_eq_true] at closed
    exact induction _ closed.2

/-- A state that has passed part of an item and all braces it opened there. -/
def StopsIn (item tail : List (Token × Span)) (parser : Parser) : Prop :=
  ∃ left, left <:+ item ∧ isClosed 0 left = true ∧ parser.rest = left ++ tail

/-- A skip reaches the next item exactly from within the item before it, outside its braces. -/
theorem stopsIn_iff {item next : List (Token × Span)} {separator : Span} {first : Token × Span}
    {parser : Parser} (closed : isClosed 0 item = true)
    (goesOn : itemEnds.contains first.1 = false)
    (reached : parser.rest <:+ item ++ (.semicolon, separator) :: first :: next) :
    parser.StopsIn item ((.semicolon, separator) :: first :: next) ↔
      afterItem parser.rest = first :: next := by
  constructor
  · rintro ⟨left, _, closedLeft, rest⟩
    rw [rest]
    apply afterItem_of_closed closedLeft
    intro found member isSeparator
    rw [← Option.some.inj member] at isSeparator
    rw [isSeparator] at goesOn
    cases goesOn
  · intro skips
    have beyond : ¬parser.rest <:+ first :: next := by
      intro later
      have shorter := length_afterItem_le parser.rest
      rw [skips] at shorter
      have same := later.eq_of_length_le shorter
      rw [same] at skips
      exact absurd (congrArg List.length skips) (Nat.ne_of_lt (length_afterItem_lt next goesOn))
    have inside : (.semicolon, separator) :: first :: next <:+ parser.rest := by
      rcases List.suffix_or_suffix_of_suffix reached (List.suffix_append item _) with shorter | longer
      · rcases List.suffix_cons_iff.1 shorter with same | later
        · exact ⟨[], same.symm⟩
        · exact absurd later beyond
      · exact longer
    obtain ⟨left, split⟩ := inside
    rw [← split, List.suffix_append_self_iff] at reached
    refine ⟨left, reached, ?_, split.symm⟩
    obtain ⟨passed, whole⟩ := reached
    rw [← whole] at closed
    obtain ⟨depth, closedLeft⟩ := isClosed_of_append passed 0 closed
    cases depth with
    | zero => exact closedLeft
    | succ outer =>
      -- A skip from inside the braces would leave part of the item.
      obtain ⟨final, nonempty, early⟩ :=
        afterItem_inside ((.semicolon, separator) :: first :: next) closedLeft
      rw [split, skips] at early
      have lengths := congrArg List.length early
      simp only [List.length_append, List.length_cons] at lengths
      omega

theorem ahead_skipToAny (tokens : List Token) (depth : Nat) (parser : Parser) :
    (parser.skipToAny tokens depth).ahead ∈ .endOfInput :: tokens := by
  fun_induction Parser.skipToAny tokens depth parser with
  | case1 depth parser ended => simp [of_decide_eq_true ended]
  | case2 depth parser inside found => simpa using Or.inr found.2
  | case3 depth parser inside absent fewer induction => exact induction

theorem ahead_skipAll_ne {token : Token} (inner : token ≠ .endOfInput) (parser : Parser) :
    (parser.skipAll token).ahead ≠ token := by
  fun_induction Parser.skipAll token parser with
  | case1 parser ended =>
    rw [of_decide_eq_true ended]
    exact inner.symm
  | case2 parser inside found fewer induction => exact induction
  | case3 parser inside absent => exact absent

theorem skipAll_of_ne {token : Token} {parser : Parser} (absent : parser.ahead ≠ token) :
    parser.skipAll token = parser := by
  rw [skipAll]
  split
  · rfl
  · rfl

theorem skipAll_of_eq {token : Token} {parser : Parser} (inner : token ≠ .endOfInput)
    (found : parser.ahead = token) : parser.skipAll token = parser.consume.skipAll token := by
  rw [skipAll, dif_neg (by simpa [isAtEnd, found] using inner), if_pos found]

end Offside.Parser
