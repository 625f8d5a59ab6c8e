import Mathlib.Tactic.ByContra
import Offside.Haskell.Scan

/-!
How far a scan looks. A token that is scanned without a defect does not depend on the text behind it,
as long as that goes on as before up to a line feed: no token but a closed comment or literal runs over
a line feed, and whatever is looked at behind a token is looked at no further than that.
-/

namespace Offside.Haskell

set_option autoImplicit false

open Offside.Lexical

/-- The second text goes on like the first up to a line feed of its own or to the end of both. -/
inductive Cuts : List Char → List Char → Prop where
  | nil : Cuts [] []
  | cut (before after : List Char) : Cuts before ('\n' :: after)
  | cons (character : Char) {before after : List Char} :
      Cuts before after → Cuts (character :: before) (character :: after)

namespace Cuts

variable {before after : List Char} {accepts : Char → Bool}

theorem append (text : List Char) (cuts : Cuts before after) :
    Cuts (text ++ before) (text ++ after) := by
  induction text with
  | nil => exact cuts
  | cons character text induction => exact .cons character induction

variable (cuts : Cuts before after) (stops : accepts '\n' = false)

include cuts stops

/-- What leads the second text leads the first, line feeds aside. -/
theorem leads (led : leads accepts after = true) : leads accepts before = true := by
  cases cuts with
  | nil => exact led
  | cut => simp [Lexical.leads, stops] at led
  | cons => exact led

theorem not_leads (free : Lexical.leads accepts before = false) :
    Lexical.leads accepts after = false := by
  rw [← Bool.not_eq_true] at free ⊢
  exact fun led => free (cuts.leads stops led)

/-- Past a character that leads both, the second text still goes on like the first. -/
theorem tail (led : Lexical.leads accepts after = true) :
    Cuts (before.drop 1) (after.drop 1) ∧ before.head? = after.head? := by
  cases cuts with
  | nil => exact ⟨.nil, rfl⟩
  | cut => simp [Lexical.leads, stops] at led
  | cons character rest => exact ⟨rest, rfl⟩

theorem leads_append {text : List Char} (free : text = [] → Lexical.leads accepts before = false) :
    Lexical.leads accepts (text ++ after) = Lexical.leads accepts (text ++ before) := by
  cases text with
  | nil =>
    rw [List.nil_append, List.nil_append, free rfl]
    exact cuts.not_leads stops (free rfl)
  | cons character text => rfl

/-- A run that ends within the common part ends there still. -/
theorem takeWhile {text : List Char}
    (within : ((text ++ before).takeWhile accepts).length ≤ text.length) :
    (text ++ after).takeWhile accepts = (text ++ before).takeWhile accepts := by
  induction text with
  | nil =>
    have free : Lexical.leads accepts before = false := by
      cases before with
      | nil => rfl
      | cons first rest =>
        by_cases accepted : accepts first = true
        · simp [accepted] at within
        · simpa [Lexical.leads] using accepted
    have none : ∀ text, Lexical.leads accepts text = false → text.takeWhile accepts = [] := by
      intro text led
      cases text with
      | nil => rfl
      | cons first rest =>
        have rejected : accepts first = false := led
        simp [rejected]
    rw [List.nil_append, List.nil_append, none _ free, none _ (cuts.not_leads stops free)]
  | cons character text induction =>
    by_cases accepted : accepts character = true
    · simp only [List.cons_append, List.takeWhile_cons, accepted, if_true, List.length_cons] at within ⊢
      rw [induction (by omega)]
    · simp [accepted]

end Cuts

theorem leads_takeWhile_end (accepts : Char → Bool) (text : List Char) :
    leads accepts (text.drop (text.takeWhile accepts).length) = false := by
  induction text with
  | nil => rfl
  | cons first rest induction =>
    by_cases accepted : accepts first = true
    · simpa [accepted] using induction
    · simp [accepted, leads]

/-- What follows a closed string makes no difference to it. -/
theorem stringBody_closed (text after : List Char) (closed : (stringBody text).2 = true) :
    stringBody (text.take (stringBody text).1 ++ after) = stringBody text := by
  fun_induction stringBody text with
  | case1 => cases closed
  | case2 => cases closed
  | case3 second rest width isClosed found induction =>
    rw [found] at induction
    simp only [List.take_succ_cons, List.cons_append, stringBody, induction closed]
  | case4 rest => simp [stringBody]
  | case5 => cases closed
  | case6 first rest alone escaping unquoted inLine width isClosed found induction =>
    rw [found] at induction
    have plain : first ≠ '\\' := by
      intro escape
      cases rest with
      | nil => exact alone escape rfl
      | cons second rest => exact escaping second rest escape rfl
    simp [stringBody, plain, unquoted, inLine, induction closed]

/-- What follows a closed comment makes no difference to it. -/
theorem commentBody_closed (depth : Nat) (text after : List Char)
    (closed : (commentBody depth text).2 = true) :
    1 < (commentBody depth text).1 ∧
      commentBody depth (text.take (commentBody depth text).1 ++ after) =
        commentBody depth text := by
  fun_induction commentBody depth text with
  | case1 => cases closed
  | case2 depth rest width isClosed found induction =>
    rw [found] at induction
    obtain ⟨wide, same⟩ := induction closed
    refine ⟨Nat.lt_add_right 2 wide, ?_⟩
    simp only [List.take_succ_cons, List.cons_append, commentBody, same]
  | case3 rest => simp [commentBody]
  | case4 depth rest width isClosed found induction =>
    rw [found] at induction
    obtain ⟨wide, same⟩ := induction closed
    refine ⟨Nat.lt_add_right 2 wide, ?_⟩
    simp only [List.take_succ_cons, List.cons_append, commentBody, same]
  | case5 depth first rest opens closes ends width isClosed found induction =>
    rw [found] at induction
    obtain ⟨wide, same⟩ := induction closed
    refine ⟨Nat.lt_add_right 1 wide, ?_⟩
    -- the comment is closed later on, so the next character is not the last of it
    obtain ⟨second, later, rfl⟩ : ∃ second later, rest = second :: later := by
      cases rest with
      | nil =>
        rw [commentBody] at found
        cases found
        cases wide
      | cons second later => exact ⟨second, later, rfl⟩
    obtain ⟨fewer, rfl⟩ := Nat.exists_eq_succ_of_ne_zero (Nat.ne_of_gt (Nat.lt_trans Nat.one_pos wide))
    simp only [List.take_succ_cons, List.cons_append] at same ⊢
    rw [commentBody, same]
    · intro tail isFirst isSecond
      exact opens later isFirst (by rw [(List.cons.inj isSecond).1])
    · intro tail outermost isFirst isSecond
      exact closes later outermost isFirst (by rw [(List.cons.inj isSecond).1])
    · intro outer tail inner isFirst isSecond
      exact ends outer later inner isFirst (by rw [(List.cons.inj isSecond).1])

/-- A run that ends before the end of a text does not depend on what follows. -/
theorem takeWhile_of_lt {accepts : Char → Bool} {text before : List Char} (after : List Char)
    (within : ((text ++ before).takeWhile accepts).length < text.length) :
    (text ++ after).takeWhile accepts = (text ++ before).takeWhile accepts := by
  induction text with
  | nil => cases within
  | cons character text induction =>
    by_cases accepted : accepts character = true
    · simp only [List.cons_append, List.takeWhile_cons, accepted, if_true,
        List.length_cons] at within ⊢
      rw [induction (by omega)]
    · simp [accepted]

theorem characterBody_closed {text before : List Char} (after : List Char)
    (within : characterBody (text ++ before) < text.length) :
    characterBody (text ++ after) = characterBody (text ++ before) := by
  cases text with
  | nil => cases within
  | cons first rest =>
    by_cases escape : first = '\\'
    · subst escape
      cases rest with
      | nil =>
        simp only [characterBody, List.cons_append, List.nil_append, List.length_singleton] at within
        omega
      | cons second later =>
        simp only [characterBody, List.cons_append, List.take_succ_cons, List.take_zero,
          List.drop_succ_cons, List.drop_zero, List.length_cons, List.length_nil] at within ⊢
        have shorter : ((later ++ before).takeWhile Char.isAlphanum).length <
            later.length := by omega
        rw [takeWhile_of_lt after shorter]
    · simp [characterBody, escape]

/-- The width of something at the start of a text does not change if the text goes on differently
behind it. -/
structure IsLocal (width : List Char → Nat) : Prop where
  same : ∀ (text : List Char) {before after : List Char}, Cuts before after →
    width (text ++ before) ≤ text.length → width (text ++ after) = width (text ++ before)

namespace IsLocal

theorem run {accepts : Char → Bool} (stops : accepts '\n' = false) :
    IsLocal fun text => (text.takeWhile accepts).length where
  same := fun _ _ _ cuts within => congrArg List.length (cuts.takeWhile stops within)

theorem add {first second : List Char → Nat} (one : IsLocal first) (other : IsLocal second) :
    IsLocal fun text => first text + second text where
  same := fun text before after cuts within => by
    rw [one.same text cuts (by omega), other.same text cuts (by omega)]

/-- A character in front of something that may be missing, and is nothing without it. -/
def marked (accepts : Char → Bool) (width : List Char → Nat) (text : List Char) : Nat :=
  if leads accepts text = true ∧ 0 < width (text.drop 1) then 1 + width (text.drop 1) else 0

theorem marked_local {accepts : Char → Bool} {width : List Char → Nat}
    (stops : accepts '\n' = false) (inner : IsLocal width) : IsLocal (marked accepts width) := by
  constructor
  intro text before after cuts within
  unfold marked at within ⊢
  cases text with
  | nil =>
    simp only [List.nil_append, List.length_nil, Nat.le_zero] at within ⊢
    have missing : ¬(leads accepts before = true ∧ 0 < width (before.drop 1)) := by
      intro found
      rw [if_pos found] at within
      omega
    rw [if_neg missing, if_neg]
    rintro ⟨led, positive⟩
    have led' := cuts.leads stops led
    obtain ⟨rest, -⟩ := cuts.tail stops led
    have none : width (before.drop 1) = 0 := by
      by_contra some
      exact missing ⟨led', Nat.pos_of_ne_zero some⟩
    have same := inner.same [] rest (by rw [List.nil_append, none]; exact Nat.le_refl _)
    rw [List.nil_append, List.nil_append, none] at same
    omega
  | cons first rest =>
    by_cases accepted : accepts first = true
    · have led : ∀ more, leads accepts (first :: more) = true := fun _ => accepted
      simp only [List.cons_append, List.drop_succ_cons, List.drop_zero, led, true_and,
        List.length_cons] at within ⊢
      have same := inner.same rest cuts (by
        by_contra beyond
        rw [if_pos (by omega)] at within
        omega)
      rw [same]
    · simp [leads, accepted]

end IsLocal

theorem pos_takeWhile_iff (accepts : Char → Bool) (text : List Char) :
    0 < (text.takeWhile accepts).length ↔ leads accepts text = true := by
  cases text with
  | nil => simp [leads]
  | cons first rest =>
    by_cases accepted : accepts first = true
    · simp [leads, accepted]
    · simp [leads, accepted]

theorem fractionWidth_eq :
    fractionWidth =
      IsLocal.marked (· == '.') fun text => (text.takeWhile Char.isDigit).length := by
  funext text
  simp only [fractionWidth, IsLocal.marked, pos_takeWhile_iff, Bool.and_eq_true]

theorem exponentWidth_eq :
    exponentWidth Char.isDigit =
      IsLocal.marked isExponentMark fun text =>
        IsLocal.marked isSign (fun text => (text.takeWhile Char.isDigit).length) text +
          (text.takeWhile Char.isDigit).length := by
  funext text
  cases text with
  | nil => rfl
  | cons first rest =>
    simp only [exponentWidth, IsLocal.marked, List.drop_succ_cons, List.drop_zero]
    by_cases mark : leads isExponentMark (first :: rest) = true
    · simp only [mark, if_true, true_and]
      by_cases sign : leads isSign rest = true
      · have unsigned : (rest.takeWhile Char.isDigit).length = 0 := by
          cases rest with
          | nil => rfl
          | cons second later =>
            have notDigit : second.isDigit = false := by
              have isSigned : isSign second = true := sign
              simp only [isSign, Bool.or_eq_true, beq_iff_eq] at isSigned
              rcases isSigned with rfl | rfl
              · rfl
              · rfl
            simp [notDigit]
        have further : (first :: rest).drop (1 + 1) = rest.drop 1 := rfl
        simp only [sign, if_true, true_and, further, unsigned, Nat.add_zero,
          ← pos_takeWhile_iff]
        split
        · rw [if_pos (by omega)]
          omega
        · rfl
      · have further : (first :: rest).drop (1 + 0) = rest := rfl
        simp only [sign, Bool.false_eq_true, if_false, false_and, further, Nat.zero_add,
          ← pos_takeWhile_iff, Nat.add_zero]
    · simp [mark]

theorem fractionWidth_local : IsLocal fractionWidth := by
  rw [fractionWidth_eq]
  exact IsLocal.marked_local (by decide) (IsLocal.run (by decide))

theorem exponentWidth_local : IsLocal (exponentWidth Char.isDigit) := by
  rw [exponentWidth_eq]
  have digits : IsLocal fun text => (text.takeWhile Char.isDigit).length := .run (by decide)
  have signed := IsLocal.marked_local (show isSign '\n' = false by decide) digits
  exact IsLocal.marked_local (by decide) (signed.add digits)

theorem drop_append_within {text : List Char} {count : Nat} (within : count ≤ text.length)
    (rest : List Char) : (text ++ rest).drop count = text.drop count ++ rest := by
  rw [List.drop_append_of_le_length within]

section

variable {text before after : List Char}

theorem scanDecimal_cut (cuts : Cuts before after)
    (width : (scanDecimal (text ++ before)).width = text.length) :
    scanDecimal (text ++ after) = scanDecimal (text ++ before) := by
  have digits : IsLocal fun text => (text.takeWhile Char.isDigit).length := .run (by decide)
  simp only [scanDecimal] at width ⊢
  have whole := digits.same text cuts (by omega)
  rw [whole]
  generalize ((text ++ before).takeWhile Char.isDigit).length = first at width ⊢
  have afterWhole : ∀ rest, (text ++ rest).drop first = text.drop first ++ rest :=
    drop_append_within (by omega)
  simp only [afterWhole] at width ⊢
  rw [fractionWidth_local.same (text.drop first) cuts (by rw [List.length_drop]; omega)]
  generalize fractionWidth (text.drop first ++ before) = second at width ⊢
  have afterFraction : ∀ rest, (text ++ rest).drop (first + second) =
      text.drop (first + second) ++ rest := drop_append_within (by omega)
  simp only [afterFraction] at width ⊢
  rw [exponentWidth_local.same (text.drop (first + second)) cuts (by rw [List.length_drop]; omega)]

theorem radixOf?_cut (cuts : Cuts before after) (remains : text ≠ [])
    (beyond : (radixOf? (text ++ before)).isSome = true → 2 ≤ text.length) :
    radixOf? (text ++ after) = radixOf? (text ++ before) := by
  obtain ⟨first, rest, rfl⟩ := List.exists_cons_of_ne_nil remains
  cases rest with
  | cons second rest =>
    by_cases zero : first = '0'
    · subst zero
      rfl
    · simp [radixOf?, zero]
  | nil =>
    have none : radixOf? (first :: before) = none := by
      cases found : radixOf? (first :: before) with
      | none => rfl
      | some radix =>
        have longer := beyond (by simp [found])
        simp at longer
    rw [List.singleton_append, List.singleton_append, none]
    by_cases zero : first = '0'
    · subst zero
      cases cuts with
      | nil => rfl
      | cut => rfl
      | cons letter rest => exact none
    · simp [radixOf?, zero]

theorem scanRadix_cut (cuts : Cuts before after) (radix : Text.Radix)
    (width : (scanRadix radix (text ++ before)).width = text.length) :
    scanRadix radix (text ++ after) = scanRadix radix (text ++ before) := by
  have stops : radix.isDigit '\n' = false := by cases radix <;> decide
  simp only [scanRadix] at width ⊢
  rw [drop_append_within (by omega)] at width
  have within : ((text.drop 2 ++ before).takeWhile radix.isDigit).length ≤
      (text.drop 2).length := by
    rw [List.length_drop]
    omega
  rw [drop_append_within (by omega), drop_append_within (by omega), cuts.takeWhile stops within]

theorem scanNumber_cut (cuts : Cuts before after) (remains : text ≠ [])
    (width : (scanNumber (text ++ before)).width = text.length) :
    scanNumber (text ++ after) = scanNumber (text ++ before) := by
  have same : radixOf? (text ++ after) = radixOf? (text ++ before) := by
    apply radixOf?_cut cuts remains
    intro announced
    obtain ⟨radix, found⟩ := Option.isSome_iff_exists.1 announced
    rw [scanNumber, found] at width
    rw [← width]
    exact Nat.le_add_right 2 _
  unfold scanNumber at width ⊢
  rw [same]
  cases found : radixOf? (text ++ before) with
  | some radix =>
    rw [found] at width
    exact scanRadix_cut cuts radix width
  | none =>
    rw [found] at width
    exact scanDecimal_cut cuts width

theorem scanString_cut (after : List Char)
    (width : (scanString (text ++ before)).width = text.length + 1)
    (sound : (scanString (text ++ before)).defect = none) :
    scanString (text ++ after) = scanString (text ++ before) := by
  have closed : (stringBody (text ++ before)).2 = true := by
    by_contra cutOff
    simp [scanString, cutOff] at sound
  have same := stringBody_closed (text ++ before) after closed
  have length : (stringBody (text ++ before)).1 = text.length := by
    simp only [scanString] at width
    omega
  rw [length, List.take_left] at same
  unfold scanString
  rw [same]

theorem scanBlockComment_cut (after : List Char)
    (width : (scanBlockComment (text ++ before)).width = text.length + 2)
    (sound : (scanBlockComment (text ++ before)).defect = none) :
    scanBlockComment (text ++ after) = scanBlockComment (text ++ before) := by
  have closed : (commentBody 0 (text ++ before)).2 = true := by
    by_contra cutOff
    simp [scanBlockComment, cutOff] at sound
  have same := (commentBody_closed 0 (text ++ before) after closed).2
  have length : (commentBody 0 (text ++ before)).1 = text.length := by
    simp only [scanBlockComment] at width
    omega
  rw [length, List.take_left] at same
  unfold scanBlockComment
  rw [same]

theorem scanCharacter_cut (after : List Char)
    (width : (scanCharacter (text ++ before)).width = text.length + 1)
    (sound : (scanCharacter (text ++ before)).defect = none) :
    scanCharacter (text ++ after) = scanCharacter (text ++ before) := by
  simp only [scanCharacter] at width sound ⊢
  split at sound
  · rename_i closed
    rw [if_pos closed] at width
    have within : characterBody (text ++ before) < text.length := by omega
    have body := characterBody_closed after within
    have led : ∀ (accepts : Char → Bool) (count : Nat), count < text.length →
        leads accepts ((text ++ after).drop count) = leads accepts ((text ++ before).drop count) := by
      intro accepts count inside
      have nonempty : text.drop count ≠ [] := by
        rw [ne_eq, List.drop_eq_nil_iff]
        omega
      obtain ⟨first, rest, found⟩ := List.exists_cons_of_ne_nil nonempty
      rw [drop_append_within (by omega), drop_append_within (by omega), found]
      rfl
    have start := led (· == '\n') 0 (by omega)
    rw [List.drop_zero, List.drop_zero] at start
    rw [body, start, led _ _ within]
  · cases sound

theorem scanVariable_cut (cuts : Cuts before after)
    (width : (scanVariable (text ++ before)).width = text.length) :
    scanVariable (text ++ after) = scanVariable (text ++ before) := by
  have stops : continuesWord '\n' = false := by decide
  have run := cuts.takeWhile stops (Nat.le_of_eq width)
  unfold scanVariable
  rw [run]

theorem scanConstructor_cut (cuts : Cuts before after)
    (width : (scanConstructor (text ++ before)).width = text.length) :
    scanConstructor (text ++ after) = scanConstructor (text ++ before) := by
  have stops : continuesWord '\n' = false := by decide
  have run := cuts.takeWhile stops (Nat.le_of_eq width)
  unfold scanConstructor
  rw [run]

theorem leads_of_operator (width : (scanOperator (text ++ before)).width = text.length) :
    leads isSymbol before = false := by
  have ended := leads_takeWhile_end isSymbol (text ++ before)
  have length : ((text ++ before).takeWhile isSymbol).length = text.length := width
  rw [length, List.drop_left] at ended
  exact ended

theorem scanOperator_cut (cuts : Cuts before after)
    (width : (scanOperator (text ++ before)).width = text.length) :
    scanOperator (text ++ after) = scanOperator (text ++ before) := by
  have stops : isSymbol '\n' = false := by decide
  have run := cuts.takeWhile stops (Nat.le_of_eq width)
  unfold scanOperator
  rw [run]

theorem scanLineComment_cut (cuts : Cuts before after)
    (width : (scanLineComment (text ++ before)).width = text.length) :
    scanLineComment (text ++ after) = scanLineComment (text ++ before) := by
  have within : ((text ++ before).takeWhile (· != '\n')).length ≤ text.length :=
    Nat.le_of_eq width
  have run : (text ++ after).takeWhile (· != '\n') = (text ++ before).takeWhile (· != '\n') :=
    cuts.takeWhile rfl within
  unfold scanLineComment
  rw [run]

/-- Whether a comment starts depends on its dashes and the character behind them. -/
theorem startsLineComment_cut (cuts : Cuts before after)
    (dashes : ((text ++ before).takeWhile (· == '-')).length ≤ text.length)
    (free : ((text ++ before).takeWhile (· == '-')).length = text.length →
      leads isSymbol before = false) :
    startsLineComment (text ++ after) = startsLineComment (text ++ before) := by
  have run := cuts.takeWhile (show ('\n' == '-') = false by decide) dashes
  simp only [startsLineComment, run]
  generalize ((text ++ before).takeWhile (· == '-')).length = count at dashes free ⊢
  have behind : leads isSymbol ((text ++ after).drop count) =
      leads isSymbol ((text ++ before).drop count) := by
    rw [drop_append_within dashes, drop_append_within dashes]
    apply cuts.leads_append (by decide)
    intro none
    apply free
    rw [List.drop_eq_nil_iff] at none
    omega
  rw [behind]

theorem length_takeWhile_le {fewer more : Char → Bool}
    (weaker : ∀ character, fewer character = true → more character = true) (text : List Char) :
    (text.takeWhile fewer).length ≤ (text.takeWhile more).length := by
  induction text with
  | nil => exact Nat.le_refl _
  | cons first rest induction =>
    by_cases accepted : fewer first = true
    · simpa [accepted, weaker first accepted] using induction
    · simp [accepted]

theorem scan_dash (afterProper : Bool) {rest : List Char}
    (operator : startsLineComment ('-' :: rest) = false) :
    scan afterProper ('-' :: rest) = scanOperator ('-' :: rest) := by
  have unlisted : Token.spelled? delimiters ['-'] = none := by decide
  have lower : Text.isLowercase '-' = false := by decide
  have upper : Text.isUppercase '-' = false := by decide
  have symbol : isSymbol '-' = true := by decide
  simp only [scan, operator, unlisted, lower, upper, symbol]
  rfl

theorem scan_startsLineComment (cuts : Cuts before after) (afterProper : Bool) {first : Char}
    (width : (scan afterProper (first :: (text ++ before))).width = text.length + 1) :
    startsLineComment (first :: (text ++ after)) =
      startsLineComment (first :: (text ++ before)) := by
  by_cases dash : first = '-'
  · subst dash
    change startsLineComment (('-' :: text) ++ after) = startsLineComment (('-' :: text) ++ before)
    by_cases comment : startsLineComment ('-' :: (text ++ before)) = true
    · have ended : (scanLineComment ('-' :: (text ++ before))).width = text.length + 1 := by
        rw [← width, scan]
        simp [comment]
      apply startsLineComment_cut cuts
      · have inLine : ∀ character : Char, (character == '-') = true → (character != '\n') = true := by
          intro character isDash
          rw [eq_of_beq isDash]
          rfl
        exact Nat.le_trans (length_takeWhile_le inLine _) (Nat.le_of_eq ended)
      · intro all
        simp only [startsLineComment, Bool.and_eq_true, Bool.not_eq_true'] at comment
        rw [← List.cons_append, all, List.drop_left] at comment
        exact comment.2
    · have operator : startsLineComment ('-' :: (text ++ before)) = false := by simpa using comment
      have ended : (scanOperator (('-' :: text) ++ before)).width = ('-' :: text).length := by
        rw [scan_dash afterProper operator] at width
        exact width
      apply startsLineComment_cut cuts
      · have symbols : ∀ character : Char, (character == '-') = true → isSymbol character = true := by
          intro character isDash
          rw [eq_of_beq isDash]
          decide
        exact Nat.le_trans (length_takeWhile_le symbols _) (Nat.le_of_eq ended)
      · exact fun _ => leads_of_operator ended
  · simp [startsLineComment, dash]

/-- Whether a dot qualifies what follows depends on the next two characters. -/
theorem qualifies_cut (cuts : Cuts before after)
    (free : text = [] ∨ text = ['.'] → leads isSymbol before = false) :
    qualifies (text ++ after) = qualifies (text ++ before) := by
  match text with
  | [] =>
    have ended := free (.inl rfl)
    have endedAfter := cuts.not_leads (by decide) ended
    have noDot : ∀ rest, leads isSymbol rest = false → leads (· == '.') rest = false := by
      intro rest plain
      cases rest with
      | nil => rfl
      | cons first rest =>
        have differs : first ≠ '.' := by
          rintro rfl
          have symbol : isSymbol '.' = true := by decide
          rw [show isSymbol '.' = false from plain] at symbol
          cases symbol
        simp [leads, differs]
    simp only [List.nil_append, qualifies, noDot _ ended, noDot _ endedAfter, ended, endedAfter]
    rfl
  | [first] =>
    by_cases dot : first = '.'
    · subst dot
      have ended := free (.inr rfl)
      have endedAfter := cuts.not_leads (by decide) ended
      simp [qualifies, leads] at ended endedAfter ⊢
      rw [ended, endedAfter]
    · simp [qualifies, leads, dot]
  | first :: second :: rest => rfl

/-- A scan of the given width without a defect comes out again. -/
def Recurs (width : Nat) (left right : Scan) : Prop :=
  left.width = width → left.defect = none → right = left

theorem Recurs.ite {width : Nat} {condition : Prop} [Decidable condition] {left right : Scan}
    {leftElse rightElse : Scan} (yes : condition → Recurs width left right)
    (no : ¬condition → Recurs width leftElse rightElse) :
    Recurs width (if condition then left else leftElse)
      (if condition then right else rightElse) := by
  by_cases holds : condition
  · rw [if_pos holds, if_pos holds]
    exact yes holds
  · rw [if_neg holds, if_neg holds]
    exact no holds

theorem scan_opening (cuts : Cuts before after) (afterProper : Bool) {first : Char}
    (width : (scan afterProper (first :: (text ++ before))).width = text.length + 1) :
    (first == '{' && leads (· == '-') (text ++ after)) =
      (first == '{' && leads (· == '-') (text ++ before)) := by
  by_cases brace : first = '{'
  · have same : leads (· == '-') (text ++ after) = leads (· == '-') (text ++ before) := by
      apply cuts.leads_append (by decide)
      rintro rfl
      by_contra led
      have opens : (first == '{' && leads (· == '-') before) = true := by simpa [brace] using led
      simp only [List.nil_append, scan, opens, if_true, scanBlockComment, List.length_nil] at width
      omega
    rw [same]
  · rw [beq_false_of_ne brace]
    rfl

theorem scanOpened_cut (text before after : List Char) :
    Recurs (text.length + 1) (scanBlockComment ((text ++ before).drop 1))
      (scanBlockComment ((text ++ after).drop 1)) := by
  intro width sound
  cases text with
  | nil =>
    simp only [scanBlockComment, List.length_nil] at width
    omega
  | cons dash text => exact scanBlockComment_cut after width sound

/-- The last kinds of token: a dot that qualifies, an operator, or nothing that is known. -/
theorem scanSymbol_cut (cuts : Cuts before after) (afterProper : Bool) (first : Char)
    (qualified : afterProper = true → first :: text = ['.'] → qualifies before = true →
      qualifies after = true) :
    Recurs (text.length + 1)
      (if first == '.' && afterProper && qualifies (text ++ before) then
        { token := .dot, width := 1 }
      else if isSymbol first then scanOperator (first :: (text ++ before))
      else { token := .invalid, width := 1, defect := some ⟨.unexpectedCharacter, 1⟩ })
      (if first == '.' && afterProper && qualifies (text ++ after) then
        { token := .dot, width := 1 }
      else if isSymbol first then scanOperator (first :: (text ++ after))
      else { token := .invalid, width := 1, defect := some ⟨.unexpectedCharacter, 1⟩ }) := by
  intro width sound
  by_cases dot : (first == '.' && afterProper && qualifies (text ++ before)) = true
  · rw [if_pos dot] at width ⊢
    have none : text = [] := List.eq_nil_of_length_eq_zero (by simp only at width; omega)
    subst none
    simp only [List.nil_append, Bool.and_eq_true, beq_iff_eq] at dot
    obtain ⟨⟨rfl, proper⟩, qualifying⟩ := dot
    have qualifying' := qualified proper rfl qualifying
    simp [proper, qualifying']
  · rw [if_neg dot] at width sound ⊢
    by_cases symbol : isSymbol first = true
    · rw [if_pos symbol] at width ⊢
      have same : (first == '.' && afterProper && qualifies (text ++ after)) =
          (first == '.' && afterProper && qualifies (text ++ before)) := by
        rw [qualifies_cut cuts fun _ => @leads_of_operator (first :: text) _ width]
      rw [same, if_neg dot, if_pos symbol]
      exact @scanOperator_cut (first :: text) _ _ cuts width
    · rw [if_neg symbol] at sound
      cases sound

/-- A token that was scanned without a defect is scanned again if what follows it goes on as before up
to a line feed. A dot that qualifies an operator has to be followed by one still. -/
theorem scan_cut (cuts : Cuts before after) (afterProper : Bool) {first : Char}
    (width : (scan afterProper (first :: (text ++ before))).width = text.length + 1)
    (sound : (scan afterProper (first :: (text ++ before))).defect = none)
    (qualified : afterProper = true → first :: text = ['.'] → qualifies before = true →
      qualifies after = true) :
    scan afterProper (first :: (text ++ after)) = scan afterProper (first :: (text ++ before)) := by
  have lineComment := scan_startsLineComment cuts afterProper width
  have opening := scan_opening cuts afterProper width
  have recurs : Recurs (text.length + 1) (scan afterProper (first :: (text ++ before)))
      (scan afterProper (first :: (text ++ after))) := by
    unfold scan
    simp only [lineComment, opening]
    refine .ite (fun _ => scanOpened_cut text before after) fun _ =>
      .ite (fun _ width _ => ?_) fun _ => ?_
    · exact @scanLineComment_cut (first :: text) _ _ cuts width
    · cases Token.spelled? delimiters [first] with
      | some token => exact fun _ _ => rfl
      | none =>
        refine .ite (fun _ => scanString_cut after) fun _ =>
          .ite (fun _ => scanCharacter_cut after) fun _ => .ite (fun _ width _ => ?_) fun _ =>
          .ite (fun _ width _ => ?_) fun _ => .ite (fun _ width _ => ?_) fun _ => ?_
        · exact @scanNumber_cut (first :: text) _ _ cuts (by simp) width
        · exact @scanVariable_cut (first :: text) _ _ cuts width
        · exact @scanConstructor_cut (first :: text) _ _ cuts width
        · exact scanSymbol_cut cuts afterProper first qualified
  exact recurs width sound

end

end Offside.Haskell
