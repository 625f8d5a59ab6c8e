import Offside.Proofs.Parser.Repetition

/-!
What holds of every production because it holds of each thing that a production does to a parser: a
conduct relates a state to the later ones that may be reached from it. Two productions agree under a
conduct when from every state they do the same and keep to it; a rule for each way to build productions
follows, so that productions agree when their parts do. Nothing is asked of the value of a step.
-/

namespace Offside

set_option autoImplicit false

/-- A relation of states to later ones that is kept by all that a grammar does to a parser, entering a
level and leaving it apart. -/
structure Conduct where
  /-- The states from which it is kept. -/
  starts : Parser → Prop
  leads : Parser → Parser → Prop
  /-- In these a lookahead may be reported after it was passed. -/
  fresh : Parser → Prop
  onward : ∀ {before after}, leads before after → starts before → starts after
  refl : ∀ parser, leads parser parser
  trans : ∀ {first second third}, leads first second → leads second third → leads first third
  consume : ∀ parser, leads parser parser.consume
  putBy : ∀ parser, leads parser (parser.fill 1)
  reportUnexpected : ∀ parser, leads parser parser.reportUnexpected
  raise : ∀ parser fault, leads parser (parser.raise fault)
  fresh_consume : ∀ {parser}, starts parser → fresh parser.consume
  reportPassed : ∀ {parser : Parser}, fresh parser → leads parser
    { parser.consume with
      context := parser.consume.context.report .unexpectedToken parser.aheadSpan }

namespace Conduct

variable (kind : Conduct)

theorem fail (parser : Parser) : kind.leads parser parser.fail := by
  refine kind.trans (kind.reportUnexpected parser) ?_
  unfold Parser.fail Parser.consumeInner
  split
  · exact kind.refl _
  · exact kind.consume _

theorem peek (distance : Nat) (parser : Parser) : kind.leads parser (parser.peek distance).2 := by
  have fill : ∀ count parser, kind.leads parser (parser.fill count) := by
    intro count
    induction count with
    | zero => exact kind.refl
    | succ count induction => exact fun parser => kind.trans (kind.putBy parser) (induction _)
  unfold Parser.peek
  split
  · exact fill _ parser
  · exact kind.raise parser _

theorem skipTo (token : Token) (parser : Parser) : kind.leads parser (parser.skipTo token) := by
  fun_induction Parser.skipTo token parser with
  | case1 parser ended => exact kind.refl parser
  | case2 parser inner found => exact kind.refl parser
  | case3 parser inner other fewer induction => exact kind.trans (kind.consume parser) induction

theorem skipToAny (tokens : List Token) (depth : Nat) (parser : Parser) :
    kind.leads parser (parser.skipToAny tokens depth) := by
  fun_induction Parser.skipToAny tokens depth parser with
  | case1 depth parser ended => exact kind.refl parser
  | case2 depth parser inner found => exact kind.refl parser
  | case3 depth parser inner other fewer induction =>
    exact kind.trans (kind.consume parser) induction

theorem skipAll (token : Token) (parser : Parser) : kind.leads parser (parser.skipAll token) := by
  fun_induction Parser.skipAll token parser with
  | case1 parser ended => exact kind.refl parser
  | case2 parser inner found fewer induction => exact kind.trans (kind.consume parser) induction
  | case3 parser inner other => exact kind.refl parser

end Conduct

namespace Parse

variable {α β : Type} {kind : Conduct}

/-- From a state two productions do the same and keep to the conduct. -/
def AgreesAt (kind : Conduct) (first second : Parse α) (parser : Parser) : Prop :=
  first parser = second parser ∧ kind.leads parser (first parser).2

def Agrees (kind : Conduct) (first second : Parse α) : Prop :=
  ∀ parser, kind.starts parser → AgreesAt kind first second parser

/-- A production agrees with itself: it keeps to the conduct. -/
abbrev Stays (kind : Conduct) (production : Parse α) : Prop := Agrees kind production production

def StaysFresh (kind : Conduct) (production : Parse α) : Prop :=
  ∀ parser, kind.starts parser → kind.fresh parser → AgreesAt kind production production parser

def Peeks (production : Parse α) : Prop := ∀ parser, (production parser).2 = parser

theorem stays_of_leads {production : Parse α}
    (leads : ∀ parser, kind.leads parser (production parser).2) : Stays kind production :=
  fun parser _ => ⟨rfl, leads parser⟩

theorem Peeks.stays {production : Parse α} (peeks : Peeks production) : Stays kind production :=
  stays_of_leads fun parser => by rw [peeks]; exact kind.refl parser

theorem Peeks.ahead {next : Token → Parse β} (later : ∀ token, Peeks (next token)) :
    Peeks (Parse.ahead >>= next) :=
  fun parser => later parser.ahead parser

theorem AgreesAt.bind {first second : Parse α} {next other : α → Parse β} {parser : Parser}
    (agrees : AgreesAt kind first second parser) (starts : kind.starts parser)
    (later : ∀ value, Agrees kind (next value) (other value)) :
    AgreesAt kind (first >>= next) (second >>= other) parser := by
  obtain ⟨same, leads⟩ := agrees
  obtain ⟨sameLater, leadsLater⟩ :=
    later (first parser).1 (first parser).2 (kind.onward leads starts)
  unfold AgreesAt
  rw [bind_apply, bind_apply, ← same]
  exact ⟨sameLater, kind.trans leads leadsLater⟩

theorem AgreesAt.map {first second : Parse α} {change : α → β} {parser : Parser}
    (agrees : AgreesAt kind first second parser) :
    AgreesAt kind (change <$> first) (change <$> second) parser :=
  ⟨congrArg (Prod.map change id) agrees.1, agrees.2⟩

/-- A step that only looks at the state, which is known. -/
theorem AgreesAt.look {read : Parser → α} {next other : α → Parse β} {parser : Parser}
    (later : AgreesAt kind (next (read parser)) (other (read parser)) parser) :
    AgreesAt kind ((fun parser => (read parser, parser)) >>= next)
      ((fun parser => (read parser, parser)) >>= other) parser :=
  later

namespace Agrees

variable {first second : Parse α} {next other : α → Parse β}

theorem bind (agrees : Agrees kind first second)
    (later : ∀ value, Agrees kind (next value) (other value)) :
    Agrees kind (first >>= next) (second >>= other) :=
  fun parser starts => (agrees parser starts).bind starts later

theorem pure (value : α) : Stays kind (pure value : Parse α) := stays_of_leads kind.refl

/-- A step that only looks at the state. -/
theorem look {read : Parser → α} (later : ∀ value, Agrees kind (next value) (other value)) :
    Agrees kind ((fun parser => (read parser, parser)) >>= next)
      ((fun parser => (read parser, parser)) >>= other) :=
  fun parser => later (read parser) parser

theorem map {change : α → β} (agrees : Agrees kind first second) :
    Agrees kind (change <$> first) (change <$> second) :=
  fun parser starts => (agrees parser starts).map

theorem ite {condition : Prop} [Decidable condition] {missed otherwise : Parse α}
    (taken : Agrees kind first second) (left : Agrees kind missed otherwise) :
    Agrees kind (if condition then first else missed) (if condition then second else otherwise) := by
  split
  · exact taken
  · exact left

theorem consume : Stays kind Parse.consume := stays_of_leads kind.consume

theorem reportUnexpected : Stays kind Parse.reportUnexpected := stays_of_leads kind.reportUnexpected

theorem fail : Stays kind Parse.fail := stays_of_leads kind.fail

theorem raise (fault : Fault) : Stays kind (Parse.raise fault) := stays_of_leads (kind.raise · fault)

theorem peek (distance : Nat) : Stays kind (Parse.peek distance) := stays_of_leads (kind.peek distance)

theorem peekSpan (distance : Nat) : Stays kind (Parse.peekSpan distance) :=
  stays_of_leads (kind.peek distance)

theorem skipTo (token : Token) : Stays kind (Parse.skipTo token) := stays_of_leads (kind.skipTo token)

theorem skipToAny (tokens : List Token) : Stays kind (Parse.skipToAny tokens) :=
  stays_of_leads (kind.skipToAny tokens 0)

theorem skipAll (token : Token) : Stays kind (Parse.skipAll token) :=
  stays_of_leads (kind.skipAll token)

theorem orRaise [Inhabited α] (result : Except Fault α) : Stays kind (Parse.orRaise result) := by
  cases result with
  | ok value => exact pure value
  | error fault => exact (raise fault).bind fun _ => pure default

theorem join (start final : Span) : Stays kind (Parse.join start final) := orRaise _

theorem expect (token : Token) : Stays kind (Parse.expect token) :=
  .ite ((raise _).bind fun _ => .pure false) <|
    .look fun _ => .ite (consume.bind fun _ => .pure true) (fail.bind fun _ => .pure false)

theorem accept (token : Token) : Stays kind (Parse.accept token) :=
  .ite ((raise _).bind fun _ => .pure false) <|
    .look fun _ => .ite (consume.bind fun _ => .pure true) (.pure false)

theorem acceptWord (word : String) : Stays kind (Parse.acceptWord word) :=
  .look fun _ => .ite (consume.bind fun _ => .pure true) (.pure false)

theorem expectOrSkipTo (token : Token) : Stays kind (Parse.expectOrSkipTo token) :=
  (expect token).bind fun _ => .ite (.pure true) <| .ite (.pure false) <|
    (skipTo token).bind fun _ => (accept token).bind fun _ => .pure false

/-- A repetition whose item starts only from states of one kind, those in which more is asked for. -/
theorem repeatUntil_from (start : Parser → Prop) {more asks : Parse Bool}
    {item each : Parse (α ⊕ β)} (asked : Agrees kind more asks)
    (called : ∀ parser, kind.starts parser → (more parser).1 = true → start (more parser).2)
    (made : ∀ parser, kind.starts parser → start parser → AgreesAt kind item each parser) :
    Agrees kind (Parse.repeatUntil more item) (Parse.repeatUntil asks each) := by
  intro parser starts
  unfold AgreesAt Parse.repeatUntil
  generalize parser.remaining = bound
  induction bound using Nat.strong_induction_on generalizing parser with
  | _ bound induction =>
    obtain ⟨same, leads⟩ := asked parser starts
    have ready := called parser starts
    rw [repeatBelow, repeatBelow, ← same]
    generalize more parser = answer at leads ready ⊢
    obtain ⟨goes, going⟩ := answer
    cases goes with
    | false => exact ⟨rfl, leads⟩
    | true =>
      have startsGoing := kind.onward leads starts
      obtain ⟨sameItem, leadsItem⟩ := made going startsGoing (ready rfl)
      dsimp only
      rw [← sameItem]
      generalize item going = answer at leadsItem ⊢
      obtain ⟨found, after⟩ := answer
      have reached := kind.trans leads leadsItem
      cases found with
      | inr last => exact ⟨rfl, reached⟩
      | inl value =>
        dsimp only
        by_cases progress : after.remaining < bound
        · obtain ⟨sameLater, leadsLater⟩ :=
            induction after.remaining progress after (kind.onward leadsItem startsGoing)
          rw [if_pos progress, if_pos progress, sameLater]
          exact ⟨rfl, kind.trans reached (sameLater ▸ leadsLater)⟩
        · rw [if_neg progress, if_neg progress]
          exact ⟨rfl, kind.trans reached (kind.raise after .stalled)⟩

theorem repeatUntil {more asks : Parse Bool} {item each : Parse (α ⊕ β)}
    (asked : Agrees kind more asks) (made : Agrees kind item each) :
    Agrees kind (Parse.repeatUntil more item) (Parse.repeatUntil asks each) :=
  repeatUntil_from (fun _ => True) asked (fun _ _ _ => trivial) fun parser starts _ =>
    made parser starts

theorem many_from (start : Parser → Prop) {more asks : Parse Bool} (asked : Agrees kind more asks)
    (called : ∀ parser, kind.starts parser → (more parser).1 = true → start (more parser).2)
    (made : ∀ parser, kind.starts parser → start parser → AgreesAt kind first second parser) :
    Agrees kind (Parse.many more first) (Parse.many asks second) := by
  have rounds : Agrees kind (Parse.repeatUntil more (Sum.inl <$> first : Parse (α ⊕ Empty)))
      (Parse.repeatUntil asks (Sum.inl <$> second)) :=
    repeatUntil_from start asked called fun parser starts ready =>
      (made parser starts ready).map
  exact rounds.bind fun _ => pure _

theorem many {more asks : Parse Bool} (asked : Agrees kind more asks)
    (made : Agrees kind first second) :
    Agrees kind (Parse.many more first) (Parse.many asks second) :=
  many_from (fun _ => True) asked (fun _ _ _ => trivial) fun parser starts _ => made parser starts

theorem separated {separator : Token} (made : Agrees kind first second) :
    Agrees kind (Parse.separated separator first) (Parse.separated separator second) :=
  made.bind fun _ => (many (accept separator) made).bind fun _ => .pure _

theorem consume_bind {next : Unit → Parse β} (later : StaysFresh kind (next ())) :
    Stays kind (Parse.consume >>= next) := by
  intro parser starts
  have consumed := kind.consume parser
  obtain ⟨-, leads⟩ := later parser.consume (kind.onward consumed starts) (kind.fresh_consume starts)
  exact ⟨rfl, kind.trans consumed leads⟩

end Agrees

namespace StaysFresh

variable {production : Parse α} {next : α → Parse β}

theorem of_stays (stays : Stays kind production) : StaysFresh kind production :=
  fun parser starts _ => stays parser starts

theorem bind (first : StaysFresh kind production) (later : ∀ value, Stays kind (next value)) :
    StaysFresh kind (production >>= next) :=
  fun parser starts fresh => (first parser starts fresh).bind starts later

theorem look {read : Parser → α} (later : ∀ value, StaysFresh kind (next value)) :
    StaysFresh kind ((fun parser => (read parser, parser)) >>= next) :=
  fun parser => later (read parser) parser

theorem ite {condition : Prop} [Decidable condition] {first second : Parse α}
    (taken : StaysFresh kind first) (missed : StaysFresh kind second) :
    StaysFresh kind (if condition then first else second) := by
  split
  · exact taken
  · exact missed

theorem reportPassed {next : Parse α} (stays : Stays kind next) :
    StaysFresh kind (do
      let start ← Parse.aheadSpan
      Parse.consume
      modify fun parser =>
        { parser with context := parser.context.report .unexpectedToken start }
      next) := by
  intro parser starts fresh
  have passed := kind.reportPassed fresh
  exact ⟨rfl, kind.trans passed (stays _ (kind.onward passed starts)).2⟩

end StaysFresh

end Parse

end Offside
