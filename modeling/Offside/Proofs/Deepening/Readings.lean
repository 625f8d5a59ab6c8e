import Offside.Proofs.Layout.Braced
import Offside.Proofs.Layout.Joined
import Offside.Proofs.Rendering.Words

/-!
Texts that go on with a capital. What stands in front of a word that starts with a capital is scanned
in the same way whichever such word it is: a token that would run into the word does not end in front of
it, and whatever else is looked at behind a token is no letter. Only a number that touches the word may
take in its first letter, as an exponent or a digit.
-/

namespace Offside.Haskell

set_option autoImplicit false

open Offside.Lexical

abbrev IsCapital (text : List Char) : Prop := leads Text.isUppercase text = true

def RejectsCapitals (accepts : Char → Bool) : Prop :=
  ∀ character, Text.isUppercase character = true → accepts character = false

section Rejecting

variable {accepts : Char → Bool}

theorem rejects_symbol : RejectsCapitals isSymbol := by
  intro character upper
  by_contra symbol
  rw [Bool.not_eq_false] at symbol
  have lower := (symbols_apart character (List.contains_iff_mem.1 symbol)).2.2.2.2.2.2.1
  rw [upper] at lower
  cases lower

theorem rejects_digit : RejectsCapitals Char.isDigit := by
  intro character upper
  exact Core.digit_of_startsWord (by rw [Core.startsWord, upper, Bool.or_true])

theorem rejects_of_symbol (known : ∀ character, accepts character = true →
    isSymbol character = true) : RejectsCapitals accepts := by
  intro character upper
  by_contra accepted
  have symbol := known character (by simpa using accepted)
  rw [rejects_symbol character upper] at symbol
  cases symbol

theorem rejects_beq {symbol : Char} (known : isSymbol symbol = true) :
    RejectsCapitals (· == symbol) := by
  refine rejects_of_symbol fun character same => ?_
  rw [eq_of_beq same]
  exact known

theorem rejects_sign : RejectsCapitals isSign := by
  refine rejects_of_symbol fun character sign => ?_
  rcases Bool.or_eq_true _ _ ▸ sign with plus | minus
  · rw [eq_of_beq plus]
    decide
  · rw [eq_of_beq minus]
    decide

variable {after : List Char}

theorem RejectsCapitals.stops (rejects : RejectsCapitals accepts) (capital : IsCapital after) :
    leads accepts after = false := by
  obtain ⟨first, rest, rfl, upper⟩ := Core.exists_cons_of_leads capital
  exact rejects first upper

theorem capital_word (capital : IsCapital after) : leads continuesWord after = true := by
  obtain ⟨first, rest, rfl, upper⟩ := Core.exists_cons_of_leads capital
  exact continuesWord_of_isUppercase upper

theorem capital_inLine (capital : IsCapital after) : leads (· != '\n') after = true := by
  obtain ⟨first, rest, rfl, upper⟩ := Core.exists_cons_of_leads capital
  have inLine : first ≠ '\n' := by
    rintro rfl
    have blank : Text.isUppercase '\n' = false := by decide +kernel
    rw [blank] at upper
    cases upper
  simpa [leads] using inLine

end Rejecting

/-- Counts characters at the start of a text, and counts the same when a capital follows it. -/
def IsFirm (width : List Char → Nat) : Prop :=
  ∀ text after, IsCapital after → width (text ++ after) = width text

section Firm

variable {accepts : Char → Bool} {width : List Char → Nat}

theorem firm_run (rejects : RejectsCapitals accepts) :
    IsFirm fun text => (text.takeWhile accepts).length := by
  intro text after capital
  simp only [Core.takeWhile_append (rejects.stops capital)]

theorem firm_add {first second : List Char → Nat} (one : IsFirm first) (other : IsFirm second) :
    IsFirm fun text => first text + second text := by
  intro text after capital
  simp only [one text after capital, other text after capital]

/-- Behind a character at least the mark may be a letter. -/
theorem marked_append (inner : IsFirm width) {text after : List Char} (some : text ≠ [])
    (capital : IsCapital after) :
    IsLocal.marked accepts width (text ++ after) = IsLocal.marked accepts width text := by
  obtain ⟨first, rest, rfl⟩ := List.exists_cons_of_ne_nil some
  have same := inner rest after capital
  simp only [IsLocal.marked, List.cons_append, List.drop_succ_cons, List.drop_zero, same]
  rfl

theorem firm_marked (rejects : RejectsCapitals accepts) (inner : IsFirm width) :
    IsFirm (IsLocal.marked accepts width) := by
  intro text after capital
  by_cases none : text = []
  · subst none
    simp [IsLocal.marked, rejects.stops capital, show leads accepts [] = false from rfl]
  · exact marked_append inner none capital

theorem firm_digits : IsFirm fun text => (text.takeWhile Char.isDigit).length :=
  firm_run rejects_digit

theorem firm_fraction : IsFirm fractionWidth := by
  rw [fractionWidth_eq]
  exact firm_marked (rejects_beq (by decide)) firm_digits

theorem exponent_append {text after : List Char} (some : text ≠ []) (capital : IsCapital after) :
    exponentWidth Char.isDigit (text ++ after) = exponentWidth Char.isDigit text := by
  rw [exponentWidth_eq]
  exact marked_append (firm_add (firm_marked rejects_sign firm_digits) firm_digits) some capital

end Firm

section Scans

variable {text middle before after : List Char}

/-- A run that ends with the text ends there still: what would go on does so into any capital. -/
theorem takeWhile_capital {accepts : Char → Bool}
    (ends : ((text ++ (middle ++ before)).takeWhile accepts).length = text.length)
    (runs : middle = [] → leads accepts before = true) :
    (text ++ (middle ++ after)).takeWhile accepts =
      (text ++ (middle ++ before)).takeWhile accepts := by
  have stopped := leads_takeWhile_end accepts (text ++ (middle ++ before))
  rw [ends, List.drop_left] at stopped
  have some : middle ≠ [] := by
    intro none
    rw [none, List.nil_append, runs none] at stopped
    cases stopped
  have longer := List.length_pos_iff.2 some
  rw [← List.append_assoc] at ends
  rw [← List.append_assoc, ← List.append_assoc]
  exact takeWhile_of_lt after (by rw [ends, List.length_append]; omega)

variable (one : IsCapital before) (other : IsCapital after)

include one other

theorem takeWhile_rejecting {accepts : Char → Bool} (rejects : RejectsCapitals accepts)
    (text : List Char) : (text ++ after).takeWhile accepts = (text ++ before).takeWhile accepts := by
  rw [Core.takeWhile_append (rejects.stops other), Core.takeWhile_append (rejects.stops one)]

theorem leads_rejecting {accepts : Char → Bool} (rejects : RejectsCapitals accepts)
    (text : List Char) : leads accepts (text ++ after) = leads accepts (text ++ before) := by
  rw [Core.leads_append (rejects.stops other), Core.leads_append (rejects.stops one)]

theorem qualifies_capital (text : List Char) :
    qualifies (text ++ after) = qualifies (text ++ before) := by
  have dot := leads_rejecting one other (rejects_beq (show isSymbol '.' = true by decide)) text
  have symbol := leads_rejecting one other rejects_symbol
  cases text with
  | nil =>
    have none := (rejects_beq (show isSymbol '.' = true by decide)).stops one
    rw [List.nil_append, List.nil_append] at dot
    simp only [List.nil_append, qualifies, dot, none, Bool.false_eq_true, if_false]
    exact symbol []
  | cons first rest =>
    have second := symbol rest
    rw [qualifies, qualifies, dot, symbol (first :: rest)]
    simp only [List.cons_append, List.drop_succ_cons, List.drop_zero, second]

theorem startsLineComment_capital (text : List Char) :
    startsLineComment (text ++ after) = startsLineComment (text ++ before) := by
  have dash : RejectsCapitals (· == '-') := rejects_beq (by decide)
  have within := length_takeWhile_le_length (· == '-') text
  simp only [startsLineComment, Core.takeWhile_append (dash.stops other),
    Core.takeWhile_append (dash.stops one), drop_append_within within,
    leads_rejecting one other rejects_symbol]

theorem scanDecimal_capital (some : middle ≠ [])
    (width : (scanDecimal (text ++ (middle ++ before))).width = text.length) :
    scanDecimal (text ++ (middle ++ after)) = scanDecimal (text ++ (middle ++ before)) := by
  have longer := List.length_pos_iff.2 some
  rw [← List.append_assoc] at width ⊢
  rw [← List.append_assoc]
  have length : (text ++ middle).length = text.length + middle.length := List.length_append
  generalize text ++ middle = body at width length ⊢
  simp only [scanDecimal, firm_digits body _ one, firm_digits body _ other] at width ⊢
  generalize (body.takeWhile Char.isDigit).length = whole at width ⊢
  have afterWhole : ∀ rest, (body ++ rest).drop whole = body.drop whole ++ rest :=
    drop_append_within (by omega)
  simp only [afterWhole, firm_fraction _ _ one, firm_fraction _ _ other] at width ⊢
  generalize fractionWidth (body.drop whole) = fraction at width ⊢
  have afterFraction : ∀ rest, (body ++ rest).drop (whole + fraction) =
      body.drop (whole + fraction) ++ rest := drop_append_within (by omega)
  have remains : body.drop (whole + fraction) ≠ [] := by
    rw [ne_eq, List.drop_eq_nil_iff]
    omega
  simp only [afterFraction, exponent_append remains one, exponent_append remains other]

theorem scanNumber_capital (here : text ≠ []) (some : middle ≠ [])
    (width : (scanNumber (text ++ (middle ++ before))).width = text.length) :
    scanNumber (text ++ (middle ++ after)) = scanNumber (text ++ (middle ++ before)) := by
  have announced : radixOf? (text ++ (middle ++ after)) = radixOf? (text ++ (middle ++ before)) := by
    obtain ⟨first, rest, rfl⟩ := List.exists_cons_of_ne_nil here
    obtain ⟨second, later, found⟩ := List.exists_cons_of_ne_nil (List.append_ne_nil_of_right_ne_nil rest some)
    simp only [List.cons_append, ← List.append_assoc, found]
    by_cases zero : first = '0'
    · subst zero
      rfl
    · simp [radixOf?, zero]
  unfold scanNumber at width ⊢
  rw [announced]
  split at width
  · rename_i radix found
    simp only [scanRadix] at width ⊢
    have inside : 2 ≤ text.length := by omega
    rw [drop_append_within inside] at width
    have run := @takeWhile_capital (text.drop 2) middle before after radix.isDigit
      (by rw [List.length_drop]; omega) fun none => absurd none some
    rw [drop_append_within inside, drop_append_within inside, run]
  · exact scanDecimal_capital one other some width

/-- A token in front of a capital is scanned again whatever word the capital starts, unless it is a
number that touches the word. -/
theorem scan_capital (afterProper : Bool) {first : Char}
    (width : (scan afterProper (first :: (text ++ (middle ++ before)))).width = text.length + 1)
    (sound : (scan afterProper (first :: (text ++ (middle ++ before)))).defect = none)
    (apart : middle = [] → first.isDigit = false) :
    scan afterProper (first :: (text ++ (middle ++ after))) =
      scan afterProper (first :: (text ++ (middle ++ before))) := by
  have lineComment := startsLineComment_capital one other (first :: (text ++ middle))
  have opening := leads_rejecting one other (rejects_beq (show isSymbol '-' = true by decide))
    (text ++ middle)
  have qualified := qualifies_capital one other (text ++ middle)
  simp only [List.cons_append, List.append_assoc] at lineComment opening qualified
  have recurs : Recurs (text.length + 1)
      (scan afterProper (first :: (text ++ (middle ++ before))))
      (scan afterProper (first :: (text ++ (middle ++ after)))) := by
    unfold scan
    simp only [lineComment, opening, qualified]
    refine .ite (fun _ => scanOpened_cut text (middle ++ before) (middle ++ after)) fun _ =>
      .ite (fun _ width _ => ?_) fun _ => ?_
    · have run := @takeWhile_capital (first :: text) middle _ after _ width
        fun _ => capital_inLine one
      rw [List.cons_append, List.cons_append] at run
      unfold scanLineComment
      rw [run]
    · cases Token.spelled? delimiters [first] with
      | some token => exact fun _ _ => rfl
      | none =>
        refine .ite (fun _ => scanString_cut (middle ++ after)) fun _ =>
          .ite (fun _ => scanCharacter_cut (middle ++ after)) fun _ =>
          .ite (fun digit width _ => ?_) fun _ =>
          .ite (fun _ width _ => ?_) fun _ => .ite (fun _ width _ => ?_) fun _ =>
          .ite (fun _ _ _ => rfl) fun _ => .ite (fun _ _ _ => ?_) fun _ _ _ => rfl
        · have some : middle ≠ [] := by
            intro none
            rw [apart none] at digit
            cases digit
          exact @scanNumber_capital (first :: text) _ _ _ one other (by simp) some width
        · have run := @takeWhile_capital (first :: text) middle _ after _ width
            fun _ => capital_word one
          rw [List.cons_append, List.cons_append] at run
          unfold scanVariable
          rw [run]
        · have run := @takeWhile_capital (first :: text) middle _ after _ width
            fun _ => capital_word one
          rw [List.cons_append, List.cons_append] at run
          unfold scanConstructor
          rw [run]
        · have run := takeWhile_rejecting one other rejects_symbol (first :: (text ++ middle))
          simp only [List.cons_append, List.append_assoc] at run
          unfold scanOperator
          rw [run]
  exact recurs width sound

end Scans

end Offside.Haskell

/-!
The tokens in front of a word that starts with a capital. If the word is exchanged for another such
word, and the text behind it too, these tokens are read as before, up to the one at which the word
starts. Only a number must not touch the word.
-/

namespace Offside

set_option autoImplicit false

open Offside.Lexical

namespace Cursor

def facing (text : List Char) (cursor : Cursor) : Cursor := { cursor with ahead := text }

theorem skip_facing {front before : List Char} {cursor : Cursor} (ahead : cursor.ahead = front ++ before)
    {count : Nat} (within : count ≤ front.length) (after : List Char) :
    (cursor.facing (front ++ after)).skip count =
      (cursor.skip count).facing (front.drop count ++ after) := by
  induction count generalizing front cursor with
  | zero => rfl
  | succ count induction =>
    cases front with
    | nil => cases within
    | cons character front =>
      have moved : (cursor.facing (character :: front ++ after)).advance =
          cursor.advance.facing (front ++ after) := by
        rw [List.cons_append] at ahead
        simp only [advance, facing, List.cons_append, ahead]
      have next : cursor.advance.ahead = front ++ before := by
        rw [ahead_advance, ahead]
        rfl
      rw [skip, moved, induction next (Nat.le_of_succ_le_succ within), skip]
      rfl

end Cursor

namespace Haskell

def isNumber (token : Token) : Bool := token = .integer ∨ token = .float

theorem number_of_digit (afterProper : Bool) {first : Char} (digit : first.isDigit = true)
    (rest : List Char) : isNumber (scan afterProper (first :: rest)).token = true := by
  rw [Core.scan_of_digit afterProper digit, scanNumber]
  split
  · rfl
  · simp only [scanDecimal]
    split <;> rfl

theorem rejects_blank : RejectsCapitals Text.isBlank := by
  intro character upper
  exact Core.blank_of_startsWord (by rw [Core.startsWord, upper, Bool.or_true])

namespace Lexer

def facing (text : List Char) (lexer : Lexer) : Lexer :=
  { lexer with cursor := lexer.cursor.facing text }

/-- Two lexers of which the second reads the next token as the first does. -/
structure Resembles (upper lower : Lexer) : Prop where
  written : ∀ file, lower.nextWritten file = upper.nextWritten file
  scanned : lower.nextScan = upper.nextScan
  text : lower.nextText = upper.nextText

theorem length_place_le (lexer : Lexer) :
    ∀ visit ∈ lexer.visits, visit.place.ahead.length ≤ lexer.cursor.ahead.length := by
  have own : ∀ lexer : Lexer, lexer.place.ahead.length ≤ lexer.cursor.ahead.length := fun lexer =>
    Cursor.length_ahead_skipWhile_le Text.isBlank lexer.cursor
  fun_induction Lexer.visits lexer with
  | case1 lexer ended => simpa using own lexer
  | case2 lexer inner shorter induction =>
    refine List.forall_mem_cons.2 ⟨own lexer, fun visit later => ?_⟩
    exact Nat.le_trans (induction visit later) (Nat.le_of_lt shorter)

section Facing

variable {before after front : List Char} {lexer : Lexer}

theorem place_facing (one : IsCapital before) (other : IsCapital after)
    (ahead : lexer.cursor.ahead = front ++ before) :
    let blanks := (front.takeWhile Text.isBlank).length
    lexer.place.ahead = front.drop blanks ++ before ∧
      (lexer.facing (front ++ after)).place = lexer.place.facing (front.drop blanks ++ after) := by
  have within := length_takeWhile_le_length Text.isBlank front
  constructor
  · rw [place, Cursor.skipWhile, Cursor.ahead_skip, ahead,
      Core.takeWhile_append (rejects_blank.stops one), drop_append_within within]
  · change (lexer.cursor.facing (front ++ after)).skip
      ((front ++ after).takeWhile Text.isBlank).length = (lexer.cursor.skip _).facing _
    rw [ahead, Core.takeWhile_append (rejects_blank.stops one),
      Core.takeWhile_append (rejects_blank.stops other), Cursor.skip_facing ahead within]

/-- The next token is read as before if it does not reach beyond the front, and the lexer goes on with
the rest of the front. -/
theorem next_facing (one : IsCapital before) (other : IsCapital after)
    (ahead : lexer.cursor.ahead = front ++ before) (inner : lexer.nextScan.token ≠ .endOfInput)
    (sound : lexer.nextScan.defect = none)
    (within : before.length ≤ lexer.pastNext.cursor.ahead.length)
    (apart : lexer.pastNext.cursor.ahead = before → isNumber lexer.nextScan.token = false) :
    lexer.Resembles (lexer.facing (front ++ after)) ∧
      ∃ rest, lexer.pastNext.cursor.ahead = rest ++ before ∧
        (lexer.facing (front ++ after)).pastNext = lexer.pastNext.facing (rest ++ after) := by
  obtain ⟨here, place⟩ := place_facing one other ahead
  obtain ⟨first, text, found⟩ := exists_nextText inner
  have split := lexer.nextText_append
  have width := lexer.length_nextText
  rw [found, List.length_cons] at width
  generalize front.drop (front.takeWhile Text.isBlank).length = body at here place
  -- what is left of the front behind the token
  obtain ⟨middle, rfl, rest⟩ : ∃ middle, body = lexer.nextText ++ middle ∧
      lexer.pastNext.cursor.ahead = middle ++ before := by
    rw [here] at split
    rcases List.append_eq_append_iff.1 split with ⟨middle, body, rest⟩ | ⟨further, next, rest⟩
    · exact ⟨middle, body, rest⟩
    · have none : further = [] := by
        rw [rest, List.length_append] at within
        exact List.eq_nil_of_length_eq_zero (by omega)
      subst none
      exact ⟨[], by rw [next]; simp, by rw [rest]; rfl⟩
  rw [found] at here place
  have again : scan (lexer.properEnd == some lexer.place.position)
      (first :: (text ++ (middle ++ after))) = lexer.nextScan := by
    have own : lexer.nextScan = scan (lexer.properEnd == some lexer.place.position)
        (first :: (text ++ (middle ++ before))) := by
      rw [nextScan, here]
      simp only [List.cons_append, List.append_assoc]
    rw [own]
    refine scan_capital one other _ (by rw [← own, width]) (by rw [← own, sound]) fun none => ?_
    rw [Bool.eq_false_iff]
    intro digit
    have number := number_of_digit (lexer.properEnd == some lexer.place.position) digit
      (text ++ (middle ++ before))
    rw [← own, apart (by rw [rest, none]; rfl)] at number
    cases number
  have sameScan : (lexer.facing (front ++ after)).nextScan = lexer.nextScan := by
    rw [nextScan, place, ← again]
    simp only [List.cons_append, List.append_assoc]
    rfl
  have moved : (lexer.facing (front ++ after)).place.skip lexer.nextScan.width =
      (lexer.place.skip lexer.nextScan.width).facing (middle ++ after) := by
    have drop : (first :: text ++ middle).drop lexer.nextScan.width = middle := by
      rw [← width, List.cons_append, List.drop_succ_cons, List.drop_left]
    rw [place, Cursor.skip_facing here (by rw [← width]; simp), drop]
  refine ⟨⟨fun file => ?_, sameScan, ?_⟩, middle, rest, ?_⟩
  · unfold nextWritten spanAhead
    rw [sameScan, moved, place]
    rfl
  · rw [nextText, sameScan, nextText, place, here]
    simp only [Cursor.facing, ← width, List.cons_append, List.append_assoc, List.take_succ_cons,
      List.take_left]
  · unfold pastNext
    rw [sameScan, moved, place]
    split <;> rfl

/-- By induction on the tokens in front of the word: each is read again, and the last of them leads to
the word in both texts. -/
theorem visits_facing (one : IsCapital before) (other : IsCapital after) (lexer : Lexer)
    (ahead : lexer.cursor.ahead = front ++ before) {fork : Lexer} (reached : fork ∈ lexer.visits)
    (here : fork.place.ahead = before)
    (sound : ∀ visit ∈ lexer.visits, visit.nextScan.defect = none)
    (apart : ∀ visit ∈ lexer.visits, visit.pastNext.cursor.ahead = before →
      isNumber visit.nextScan.token = false) :
    ∃ (fronts fronts' : List Lexer) (fork' : Lexer), lexer.visits = fronts ++ fork.visits ∧
      (lexer.facing (front ++ after)).visits = fronts' ++ fork'.visits ∧
      List.Forall₂ Resembles fronts fronts' ∧
      (∀ visit ∈ fronts, visit.nextScan.token ≠ .endOfInput) ∧
      fork'.place = fork.place.facing after ∧ fork'.lastLine = fork.lastLine := by
  have atFork : ∀ {front : List Char}, fork.cursor.ahead = front ++ before →
      (fork.facing (front ++ after)).place = fork.place.facing after := by
    intro front ahead
    obtain ⟨place, placed⟩ := place_facing one other ahead
    rw [here] at place
    rw [placed, List.self_eq_append_left.1 place]
    rfl
  fun_induction Lexer.visits lexer generalizing front with
  | case1 lexer ended =>
    obtain rfl := List.mem_singleton.1 reached
    exact ⟨[], [], _, (visits_of_ended ended).symm, rfl, .nil, by simp, atFork ahead, rfl⟩
  | case2 lexer inner shorter induction =>
    rcases List.mem_cons.1 reached with rfl | later
    · exact ⟨[], [], _, (visits_of_inner inner).symm, rfl, .nil, by simp, atFork ahead, rfl⟩
    · rw [List.forall_mem_cons] at sound apart
      have within : before.length ≤ lexer.pastNext.cursor.ahead.length := by
        rw [← here]
        exact length_place_le lexer.pastNext fork later
      obtain ⟨resembles, rest, remains, goesOn⟩ :=
        next_facing one other ahead inner sound.1 within apart.1
      obtain ⟨fronts, fronts', fork', visits, visits', alike, inners, place, line⟩ :=
        induction remains later sound.2 apart.2
      have inner' : (lexer.facing (front ++ after)).nextScan.token ≠ .endOfInput := by
        rw [resembles.scanned]
        exact inner
      refine ⟨lexer :: fronts, lexer.facing (front ++ after) :: fronts', fork', ?_, ?_,
        .cons resembles alike, List.forall_mem_cons.2 ⟨inner, inners⟩, place, line⟩
      · rw [visits, List.cons_append]
      · rw [visits_of_inner inner', goesOn, visits', List.cons_append]

end Facing

end Lexer

end Haskell

/-!
How a qualifier is read. Each of its segments is a proper identifier, whatever was read before, and the
dot behind it a dot: between two segments because no symbol goes on, and behind the last one because it
qualifies an operator. All of them touch, and stand on one line.
-/

namespace Haskell

def dotted (segments : List (List Char)) : List Char := segments.flatMap (· ++ ['.'])

@[simp] theorem dotted_nil : dotted [] = [] := rfl

@[simp] theorem dotted_cons (segment : List Char) (later : List (List Char)) :
    dotted (segment :: later) = segment ++ '.' :: dotted later := by
  simp [dotted]

def tower (file : FileId) : Position → List (List Char) → List (Token × Span)
  | _, [] => []
  | start, segment :: later =>
    let stop := start.afterAll segment
    (.properIdentifier, ⟨file, start, stop⟩) :: (.dot, ⟨file, stop, stop.after '.'⟩) ::
      tower file (stop.after '.') later

theorem capital_of_constructor {segment : List Char} (spelled : Core.isConstructorText segment = true)
    (rest : List Char) : IsCapital (segment ++ rest) := by
  rw [Core.isConstructorText, Bool.and_eq_true] at spelled
  obtain ⟨first, later, rfl, upper⟩ := Core.exists_cons_of_leads spelled.1
  exact upper

namespace Lexer

variable {lexer : Lexer} {segment rest : List Char}

/-- A token that touches what was read before stands where the lexer is. -/
theorem place_eq_cursor {accepts : Char → Bool} (visible : ∀ character, accepts character = true →
    Text.isBlank character = false) (led : leads accepts lexer.cursor.ahead = true) :
    lexer.place = lexer.cursor := by
  apply place_of_gap
  obtain ⟨first, later, found, accepted⟩ := Core.exists_cons_of_leads led
  rw [gap, found]
  simp [visible first accepted]

theorem place_of_capital (capital : IsCapital lexer.cursor.ahead) : lexer.place = lexer.cursor :=
  place_eq_cursor rejects_blank capital

structure Climbs (segment rest : List Char) (lexer : Lexer) : Prop where
  visits : lexer.visits = lexer :: lexer.pastNext :: lexer.pastNext.pastNext.visits
  located : ∀ file, [lexer, lexer.pastNext].map (fun visit => (visit.nextWritten file).located) =
    tower file lexer.place.position [segment]
  sound : ∀ visit ∈ [lexer, lexer.pastNext], visit.nextScan.defect = none
  dotLine : lexer.pastNext.lastLine = some lexer.pastNext.place.position.line
  cursor : lexer.pastNext.pastNext.cursor = lexer.place.skip (segment.length + 1)
  ahead : lexer.pastNext.pastNext.cursor.ahead = rest
  start : lexer.pastNext.pastNext.cursor.position =
    (lexer.place.position.afterAll segment).after '.'
  lastLine : lexer.pastNext.pastNext.lastLine = some lexer.pastNext.pastNext.cursor.position.line
  properEnd : lexer.pastNext.pastNext.properEnd = none

theorem climbs_segment (ahead : lexer.place.ahead = segment ++ '.' :: rest)
    (spelled : Core.isConstructorText segment = true)
    (goesOn : qualifies rest = true ∨ leads isSymbol rest = false) :
    lexer.Climbs segment rest := by
  have stops : leads continuesWord ('.' :: rest) = false := by
    have dot : continuesWord '.' = false := by decide +kernel
    exact dot
  obtain ⟨proper, width, sound⟩ : Core.Takes lexer.nextScan .properIdentifier segment := by
    rw [nextScan, ahead]
    exact Core.takes_constructor _ spelled stops
  have cursor : lexer.pastNext.cursor = lexer.place.skip segment.length := by
    rw [cursor_pastNext, width]
  have behind : lexer.pastNext.cursor.ahead = '.' :: rest := by
    rw [cursor, Cursor.ahead_skip, ahead, List.drop_left]
  have stop : lexer.pastNext.cursor.position = lexer.place.position.afterAll segment := by
    rw [cursor, Cursor.position_skip, ahead, List.take_left]
  have place : lexer.pastNext.place = lexer.pastNext.cursor := by
    apply place_eq_cursor (fun _ => blank_of_symbol)
    rw [behind]
    rfl
  obtain ⟨dot, dotWidth, dotSound⟩ : Core.Takes lexer.pastNext.nextScan .dot ['.'] := by
    rw [nextScan, place, behind]
    apply Core.takes_dot
    refine goesOn.imp_left fun qualifying => ⟨?_, qualifying⟩
    rw [properEnd_pastNext, if_neg (by rw [proper]; decide), if_pos proper]
    exact beq_self_eq_true _
  have further : lexer.pastNext.pastNext.cursor = lexer.pastNext.cursor.skip 1 := by
    rw [cursor_pastNext, place, dotWidth]
    rfl
  have start : lexer.pastNext.pastNext.cursor.position = lexer.pastNext.cursor.position.after '.' := by
    rw [further, Cursor.position_skip, behind]
    rfl
  have line : lexer.pastNext.cursor.position.line = lexer.place.position.line := by
    rw [stop]
    exact Position.line_afterAll (Core.constructor_inLine spelled) _
  exact
    { visits := by
        rw [visits_of_inner (by rw [proper]; decide), visits_of_inner (by rw [dot]; decide)]
      located := fun file => by
        simp only [List.map_cons, List.map_nil, tower, Written.located, nextWritten, proper, dot,
          spanAhead, width, dotWidth, ← cursor, ← stop, place, List.length_singleton]
        rw [← start, further]
      sound := by simpa using And.intro sound dotSound
      dotLine := by rw [lastLine_pastNext (by rw [proper]; decide), place, line]
      cursor := by rw [further, cursor, Cursor.skip_add]
      ahead := by
        rw [further, Cursor.ahead_skip, behind]
        rfl
      start := by rw [start, stop]
      lastLine := by
        rw [lastLine_pastNext (by rw [dot]; decide), place, start]
        rfl
      properEnd := by
        rw [properEnd_pastNext, if_neg (by rw [dot]; decide), if_neg (by rw [dot]; decide)] }

structure InLine (lexer : Lexer) : Prop where
  lastLine : lexer.lastLine = some lexer.place.position.line

theorem InLine.firstOnLine (inLine : lexer.InLine) (file : FileId) :
    (lexer.nextWritten file).firstOnLine = false := by
  change (lexer.lastLine != some lexer.place.position.line) = false
  rw [inLine.lastLine]
  exact bne_self_eq_false _

structure Reads (segments : List (List Char)) (lexer : Lexer) (others : List Lexer)
    (final : Lexer) : Prop where
  visits : lexer.visits = lexer :: (others ++ final.visits)
  located : ∀ file, (lexer :: others).map (fun visit => (visit.nextWritten file).located) =
    tower file lexer.place.position segments
  sound : ∀ visit ∈ lexer :: others, visit.nextScan.defect = none
  inLine : ∀ visit ∈ others, visit.InLine
  cursor : final.cursor = lexer.place.skip (dotted segments).length
  lastLine : final.lastLine = some final.cursor.position.line
  properEnd : final.properEnd = none

/-- By induction on the segments: the dots between them are read as dots since capitals follow. -/
theorem exists_reads {segments : List (List Char)} (some : segments ≠ []) (back : List Char)
    (spelled : ∀ segment ∈ segments, Core.isConstructorText segment = true)
    (qualifying : qualifies back = true) (lexer : Lexer)
    (ahead : lexer.place.ahead = dotted segments ++ back) :
    ∃ others final, lexer.Reads segments others final := by
  induction segments generalizing lexer with
  | nil => exact absurd rfl some
  | cons segment later induction =>
    rw [List.forall_mem_cons] at spelled
    rw [dotted_cons, List.append_assoc, List.cons_append] at ahead
    have goesOn : qualifies (dotted later ++ back) = true ∨
        leads isSymbol (dotted later ++ back) = false := by
      cases later with
      | nil => exact .inl qualifying
      | cons next later =>
        rw [dotted_cons, List.append_assoc]
        exact .inr (rejects_symbol.stops
          (capital_of_constructor (spelled.2 next List.mem_cons_self) _))
    have climbs := climbs_segment ahead spelled.1 goesOn
    by_cases none : later = []
    · subst none
      refine ⟨[lexer.pastNext], lexer.pastNext.pastNext, climbs.visits, climbs.located,
        climbs.sound, ?_, ?_, climbs.lastLine, climbs.properEnd⟩
      · simpa using InLine.mk climbs.dotLine
      · rw [climbs.cursor]
        simp
    · have capital : IsCapital lexer.pastNext.pastNext.cursor.ahead := by
        obtain ⟨next, further, rfl⟩ := List.exists_cons_of_ne_nil none
        rw [climbs.ahead, dotted_cons, List.append_assoc]
        exact capital_of_constructor (spelled.2 next List.mem_cons_self) _
      have place := place_of_capital capital
      obtain ⟨others, final, reads⟩ := induction none spelled.2 lexer.pastNext.pastNext
        (by rw [place, climbs.ahead])
      refine ⟨lexer.pastNext :: lexer.pastNext.pastNext :: others, final, ?_, ?_, ?_, ?_, ?_,
        reads.lastLine, reads.properEnd⟩
      · rw [climbs.visits, reads.visits]
        rfl
      · intro file
        have below := reads.located file
        rw [place, climbs.start] at below
        have both := congrArg₂ (· ++ ·) (climbs.located file) below
        exact both
      · exact List.forall_mem_append.2 ⟨climbs.sound, reads.sound⟩
      · have next : lexer.pastNext.pastNext.InLine := ⟨by rw [climbs.lastLine, place]⟩
        simpa [InLine.mk climbs.dotLine, next] using reads.inLine
      · have length : (dotted (segment :: later)).length =
            segment.length + 1 + (dotted later).length := by
          rw [dotted_cons, List.length_append, List.length_cons]
          omega
        rw [reads.cursor, place, climbs.cursor, ← Cursor.skip_add, length]

end Lexer

end Haskell

end Offside
