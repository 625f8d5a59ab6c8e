import Offside.Proofs.Parser.Log
import Offside.Proofs.Rendering.Rules

/-!
Rules for productions that report nothing. What is known of a production here is only what follows from
its end: if nothing is reported by then, it has read a number of words that are told. A production that
reports somewhere never ends so, and a production after it takes nothing back.
-/

namespace Offside

set_option autoImplicit false

open Offside.Lexical

namespace Parser

/-- Nothing is reported yet, and no lookahead counts as reported. -/
structure Silent (parser : Parser) : Prop where
  diagnostics : parser.context.diagnostics = #[]
  unreported : parser.reportedAt = none

variable {before after : Parser}

theorem Silent.settled (silent : before.Silent) : before.Settled := by
  intro index reported
  rw [silent.unreported] at reported
  cases reported

/-- Nothing that the log adds is taken back. -/
theorem Logged.continues {log : List LogEntry} (logged : Logged before log after) :
    before.context.Continues after.context := by
  induction logged with
  | refl parser => exact .refl _
  | trans _ _ first second => exact first.trans second
  | consume parser => exact context_consume parser
  | putBy parser => exact pullFrom_continues parser.input parser.context
  | aside parser depth fault => exact .refl _
  | report fresh => exact .report _ _ _
  | reportPassed fresh => exact (context_consume _).trans (.report _ _ _)
  | refuse parser => exact .report _ _ _

theorem diagnostics_of_report {parser : Parser} {problem : Problem} {span : Span}
    {context : Context} (reported : parser.context = context.report problem span) :
    parser.context.diagnostics ≠ #[] := by
  intro empty
  have member := context.mem_report problem span
  rw [← reported, empty] at member
  simp at member

theorem not_silent_of_report {parser : Parser} {problem : Problem} {span : Span} {context : Context}
    (reported : parser.context = context.report problem span) : ¬parser.Silent :=
  fun silent => diagnostics_of_report reported silent.diagnostics

/-- A state in which nothing is reported comes from such states only. -/
theorem Logged.silent {log : List LogEntry} (logged : Logged before log after)
    (silent : after.Silent) : before.Silent := by
  induction logged with
  | refl parser => exact silent
  | trans _ _ first second => exact first (second silent)
  | consume parser =>
    exact ⟨(context_consume parser).diagnostics_eq_empty silent.diagnostics,
      (consume_keeps parser).2.2.2.symm.trans silent.unreported⟩
  | putBy parser =>
    exact ⟨(pullFrom_continues parser.input parser.context).diagnostics_eq_empty
      silent.diagnostics, silent.unreported⟩
  | aside parser depth fault => exact ⟨silent.diagnostics, silent.unreported⟩
  | report fresh => exact absurd silent (not_silent_of_report rfl)
  | reportPassed fresh => exact absurd silent (not_silent_of_report rfl)
  | refuse parser => exact absurd silent (not_silent_of_report rfl)

/-- Where nothing is reported in the end, the last report is none. -/
theorem Logged.unreported {log : List LogEntry} (logged : Logged before log after)
    (fresh : before.reportedAt = none) (silent : after.context.diagnostics = #[]) :
    after.reportedAt = none := by
  induction logged with
  | refl parser => exact fresh
  | trans _ later first second =>
    exact second (first fresh (later.continues.diagnostics_eq_empty silent)) silent
  | consume parser => exact (consume_keeps parser).2.2.2.trans fresh
  | putBy parser => exact fresh
  | aside parser depth fault => exact fresh
  | report _ => exact absurd silent (diagnostics_of_report rfl)
  | reportPassed _ => exact absurd silent (diagnostics_of_report rfl)
  | refuse parser => exact absurd silent (diagnostics_of_report rfl)

theorem Logs.silent (logs : before.Logs after) (silent : after.Silent) : before.Silent := by
  obtain ⟨log, logged⟩ := logs
  exact logged.silent silent

end Parser

namespace Parse

open Offside.Parser

variable {α β : Type}

theorem Logs.settled {production : Parse α} (logs : Logs production) {parser : Parser}
    (settled : parser.Settled) : (production parser).2.Settled := by
  obtain ⟨log, logged⟩ := logs.onward settled
  exact logged.settled settled

def Reports (production : Parse α) : Prop :=
  ∀ parser : Parser, parser.Silent → ¬(production parser).2.Silent

theorem Reports.bind {first : Parse α} {next : α → Parse β} (reports : Reports first)
    (logs : Logs first) (later : ∀ value, Logs (next value)) : Reports (first >>= next) := by
  intro parser silent final
  have settled := logs.settled silent.settled
  exact reports parser silent (((later _).onward settled).silent final)

/-- A step that only looks at the state. -/
theorem Reports.look {read : Parser → α} {next : α → Parse β}
    (later : ∀ value, Reports (next value)) :
    Reports ((fun parser => (read parser, parser)) >>= next) :=
  fun parser silent => later (read parser) parser silent

theorem Reports.ite {condition : Prop} [Decidable condition] {first second : Parse α}
    (taken : Reports first) (missed : Reports second) :
    Reports (if condition then first else second) := by
  split
  · exact taken
  · exact missed

theorem reportUnexpected_reports : Reports reportUnexpected := by
  intro parser silent final
  have fresh : ¬(parser.reportedAt = some parser.consumed ∨ parser.endAlreadyReported) := by
    rw [silent.unreported]
    simp [endAlreadyReported, silent.diagnostics]
  have reported : (reportUnexpected parser).2.context =
      parser.context.report .unexpectedToken parser.aheadSpan := by
    change parser.reportUnexpected.context = _
    rw [Parser.reportUnexpected, if_neg fresh]
  exact not_silent_of_report reported final

theorem fail_reports : Reports fail := fun parser silent final =>
  reportUnexpected_reports parser silent ((Parser.Logs.consumeInner _).silent final)

theorem refuseNesting_reports (parser : Parser) : ¬parser.refuseNesting.2.Silent := fun final =>
  not_silent_of_report rfl ((Parser.Logs.consumeInner _).silent final :
    ({ parser with context := parser.context.report .nestingTooDeep parser.aheadSpan } :
      Parser).Silent)

theorem nested_free {refused : Span → α} {production : Parse α} {parser : Parser}
    (final : (nested refused production parser).2.Silent) : parser.depth < nestingLimit := by
  by_contra full
  have refuses : enterNesting parser = (some parser.refuseNesting.1, parser.refuseNesting.2) := by
    change parser.enterNesting = _
    rw [Parser.enterNesting, if_neg full]
  rw [nested, bind_apply, refuses] at final
  exact refuseNesting_reports parser final

theorem refuse_reports (refused : Span → α) : Reports (refuse refused) :=
  fun parser _ => refuseNesting_reports parser

end Parse

namespace Haskell.Core

open Offside.Parser Offside.Parse

/-- If a production before some words reports nothing, it has read a number of them. -/
def Finds {α : Type} (file : FileId) (source : List Char) (before : List Word)
    (production : Parse α) (holds : List Word → List Word → Prop) : Prop :=
  ∀ parser, Facing file source 0 before parser → parser.Silent → (production parser).2.Silent →
    ∃ passed after, before = passed ++ after ∧
      Advances file source 0 before parser after (production parser).2 ∧ holds passed after

section Rules

variable {α β : Type} {file : FileId} {source : List Char} {words before middle passed : List Word}
  {word : Word} {token : Token} {holds : List Word → List Word → Prop}

theorem Advances.silent {room : Nat} {parser final : Parser}
    (advances : Advances file source room before parser middle final) (silent : parser.Silent) :
    final.Silent where
  diagnostics := advances.diagnostics.trans silent.diagnostics
  unreported := advances.reportedAt.trans silent.unreported

namespace Finds

variable {first : Parse α} {next : α → Parse β}

theorem of_reports {production : Parse α} (reports : Reports production) :
    Finds file source before production holds :=
  fun parser _ silent final => absurd final (reports parser silent)

theorem mono {production : Parse α} {weaker : List Word → List Word → Prop}
    (finds : Finds file source before production holds)
    (imply : ∀ passed after, before = passed ++ after → holds passed after → weaker passed after) :
    Finds file source before production weaker := by
  intro parser facing silent final
  obtain ⟨passed, after, split, advances, held⟩ := finds parser facing silent final
  exact ⟨passed, after, split, advances, imply passed after split held⟩

theorem pure {value : α} (held : holds [] before) :
    Finds file source before (Pure.pure value) holds :=
  fun _ facing _ _ => ⟨[], before, rfl, Advances.refl facing, held⟩

theorem assoc {γ : Type} {middle : α → Parse γ} {last : γ → Parse β}
    (finds : Finds file source before (first >>= fun value => middle value >>= last) holds) :
    Finds file source before ((first >>= middle) >>= last) holds :=
  finds

theorem after {known : α → Prop} (parses : Parses file source 0 before first middle known)
    (split : before = passed ++ middle)
    (later : ∀ value, known value →
      Finds file source middle (next value) fun more rest => holds (passed ++ more) rest) :
    Finds file source before (first >>= next) holds := by
  intro parser facing silent final
  obtain ⟨held, advances⟩ := parses parser facing
  obtain ⟨more, rest, parts, goesOn, found⟩ :=
    later _ held _ advances.facing (advances.silent silent) final
  exact ⟨passed ++ more, rest, by rw [split, parts, List.append_assoc], advances.trans goesOn, found⟩

/-- A production that only looks at the words. -/
theorem look {found : α} (parses : Parses file source 0 before first before (· = found))
    (later : Finds file source before (next found) holds) :
    Finds file source before (first >>= next) holds :=
  after parses (show before = [] ++ before from rfl) fun _ same => same ▸ later

theorem parses {known : α → Prop} (parses : Parses file source 0 before first middle known)
    (split : before = passed ++ middle) (held : holds passed middle) :
    Finds file source before first holds := by
  intro parser facing silent final
  exact ⟨passed, middle, split, (parses parser facing).2, held⟩

theorem bind {read : List Word → List Word → Prop} (finds : Finds file source before first read)
    (logsFirst : Logs first) (logs : ∀ value, Logs (next value))
    (later : ∀ value passed after, before = passed ++ after → read passed after →
      Finds file source after (next value) fun more rest => holds (passed ++ more) rest) :
    Finds file source before (first >>= next) holds := by
  intro parser facing silent final
  have between := ((logs _).onward (logsFirst.settled silent.settled)).silent final
  obtain ⟨passed, middle, split, advances, held⟩ := finds parser facing silent between
  obtain ⟨more, rest, parts, goesOn, found⟩ :=
    later _ passed middle split held _ advances.facing between final
  exact ⟨passed ++ more, rest, by rw [split, parts, List.append_assoc], advances.trans goesOn, found⟩

theorem start {next : Span → Parse β}
    (later : ∀ span, Finds file source before (next span) holds) :
    Finds file source before (aheadSpan >>= next) holds :=
  fun parser facing silent final => later parser.aheadSpan parser facing silent final

theorem spanFrom {start : Span} {next : Span → Parse β}
    (later : ∀ span, Finds file source before (next span) holds) :
    Finds file source before (Parse.spanFrom start >>= next) holds :=
  fun parser facing silent final => later (parser.spanFrom start) parser facing silent final

theorem ahead {next : Token → Parse β} (later : Finds file source before (next (aheadOf before)) holds) :
    Finds file source before (Parse.ahead >>= next) holds := by
  intro parser facing silent final
  have same : (Parse.ahead >>= next) parser = next (aheadOf before) parser := by
    rw [← facing.ahead]
    rfl
  rw [same] at final ⊢
  exact later parser facing silent final

theorem consume {next : Unit → Parse β}
    (later : Finds file source words (next ()) fun more rest => holds (word :: more) rest) :
    Finds file source (word :: words) (Parse.consume >>= next) holds := by
  have passes : Parses file source 0 (word :: words) Parse.consume words fun _ => True :=
    fun _ facing => ⟨trivial, facing.consume⟩
  exact after passes (show word :: words = [word] ++ words from rfl) fun _ _ => later

/-- A token that is due is there, since one that is missing is reported. -/
theorem due {expects : Parse Bool} {next : Bool → Parse β} (inner : token ≠ .endOfInput)
    (reads : ∀ word words, word.token = token →
      Parses file source 0 (word :: words) expects words (· = true))
    (reports : ∀ parser, parser.ahead ≠ token → parser.Silent → ¬(expects parser).2.Silent)
    (logsExpects : Logs expects) (logs : ∀ found, Logs (next found))
    (later : ∀ word words, before = word :: words → word.token = token →
      Finds file source words (next true) fun more rest => holds (word :: more) rest) :
    Finds file source before (expects >>= next) holds := by
  by_cases found : aheadOf before = token
  · cases before with
    | nil => exact absurd found.symm inner
    | cons word words =>
      exact after (reads word words found) (show word :: words = [word] ++ words from rfl)
        fun _ same => same ▸ later word words rfl found
  · intro parser facing silent final
    have between := ((logs _).onward (logsExpects.settled silent.settled)).silent final
    exact absurd between (reports parser (by rwa [facing.ahead]) silent)

theorem expect {next : Bool → Parse β} (inner : token ≠ .endOfInput)
    (logs : ∀ found, Logs (next found))
    (later : ∀ word words, before = word :: words → word.token = token →
      Finds file source words (next true) fun more rest => holds (word :: more) rest) :
    Finds file source before (Parse.expect token >>= next) holds := by
  refine due inner (fun _ _ => parses_expect inner) (fun parser other silent => ?_) (Agrees.expect token)
    logs later
  rw [expect_apply inner, if_neg other]
  exact fail_reports parser silent

theorem expectOrSkipTo {next : Bool → Parse β} (inner : token ≠ .endOfInput)
    (logs : ∀ found, Logs (next found))
    (later : ∀ word words, before = word :: words → word.token = token →
      Finds file source words (next true) fun more rest => holds (word :: more) rest) :
    Finds file source before (Parse.expectOrSkipTo token >>= next) holds := by
  refine due inner (fun _ _ => parses_expectOrSkipTo inner) (fun parser other silent final => ?_)
    (Agrees.expectOrSkipTo token) logs later
  rw [expectOrSkipTo_apply inner, if_neg other] at final
  have skips : Logs (do skipTo token; let _ ← Parse.accept token) :=
    (Agrees.skipTo token).bind fun _ => (Agrees.accept token).bind fun _ => .pure _
  exact Reports.bind fail_reports .fail (fun _ => skips) parser silent final

theorem accept {next : Bool → Parse β} (inner : token ≠ .endOfInput)
    (found : ∀ word words, before = word :: words → word.token = token →
      Finds file source words (next true) fun more rest => holds (word :: more) rest)
    (missing : aheadOf before ≠ token → Finds file source before (next false) holds) :
    Finds file source before (Parse.accept token >>= next) holds := by
  by_cases same : aheadOf before = token
  · cases before with
    | nil => exact absurd same.symm inner
    | cons word words =>
      exact after (parses_accept inner same) (show word :: words = [word] ++ words from rfl)
        fun _ known => known ▸ found word words rfl same
  · exact look (parses_accept_other inner same) (missing same)

theorem nested {refused : Span → α} (finds : Finds file source before first holds) :
    Finds file source before (Parse.nested refused first) holds := by
  intro parser facing silent final
  have free := nested_free final
  have entered : Facing file source 0 before { parser with depth := parser.depth + 1 } :=
    { facing with room := free }
  rw [nested_apply free] at final ⊢
  obtain ⟨passed, after, split, advances, held⟩ :=
    finds _ entered ⟨silent.diagnostics, silent.unreported⟩
      ((Parser.Logs.leaveNesting _).silent final)
  exact ⟨passed, after, split, advances.leave facing.room, held⟩

theorem many_step {more : Parse Bool} {item : Parse α} {each : List Word → List Word → Prop}
    (goes : Parses file source 0 before more middle (· = true)) (split : before = passed ++ middle)
    (logsMore : Logs more) (logsItem : Logs item) (round : Finds file source middle item each)
    (fewer : ∀ own after, middle = own ++ after → each own after → after.length < before.length)
    (later : ∀ own after, middle = own ++ after → each own after →
      Finds file source after (Parse.many more item)
        fun further rest => holds (passed ++ own ++ further) rest) :
    Finds file source before (Parse.many more item) holds := by
  intro parser facing silent final
  obtain ⟨asked, advances⟩ := goes parser facing
  rw [many_unroll, if_pos asked] at final ⊢
  have going := advances.silent silent
  have settled := logsItem.settled going.settled
  have between : (item (more parser).2).2.Silent := by
    split at final
    · exact (Logs.onward (Agrees.many logsMore logsItem) settled).silent final
    · exact (Parser.Logs.raise _ _).silent final
  obtain ⟨own, after, parts, goesOn, held⟩ := round _ advances.facing going between
  have progress : (item (more parser).2).2.remaining < parser.remaining := by
    have bound := (advances.trans goesOn).remaining
    have shorter := fewer own after parts held
    omega
  rw [if_pos progress] at final ⊢
  obtain ⟨further, rest, pieces, whole, found⟩ :=
    later own after parts held _ goesOn.facing between final
  exact ⟨passed ++ own ++ further, rest, by rw [split, parts, pieces]; simp only [List.append_assoc],
    (advances.trans goesOn).trans whole, found⟩

theorem many_stop {more : Parse Bool} {item : Parse α}
    (stops : Parses file source 0 before more before (· = false)) (held : holds [] before) :
    Finds file source before (Parse.many more item) holds :=
  parses (parses_many_stop stops) (show before = [] ++ before from rfl) held

/-- By induction on the number of words: what the rounds of a repetition read. -/
theorem many {more : Parse Bool} {item : Parse α} {leads : List Word → Bool}
    {collects : List Word → Prop} (logsMore : Logs more) (logsItem : Logs item)
    (stops : ∀ words, leads words = false → Parses file source 0 words more words (· = false))
    (goes : ∀ words, leads words = true → ∃ front middle, words = front ++ middle ∧
      Parses file source 0 words more middle (· = true) ∧
        Finds file source middle item fun own _ => front ++ own ≠ [] ∧
          ∀ further, collects further → collects (front ++ own ++ further))
    (none : collects []) (words : List Word) :
    Finds file source words (Parse.many more item) fun passed after =>
      collects passed ∧ leads after = false := by
  generalize size : words.length = count
  induction count using Nat.strong_induction_on generalizing words with
  | _ count induction =>
    cases leading : leads words with
    | false => exact many_stop (stops words leading) ⟨none, leading⟩
    | true =>
      obtain ⟨front, middle, split, asks, round⟩ := goes words leading
      have shorter : ∀ own after, middle = own ++ after → front ++ own ≠ [] →
          after.length < words.length := by
        intro own after parts some
        have longer := List.length_pos_iff.2 some
        rw [split, parts]
        simp only [List.length_append] at longer ⊢
        omega
      refine many_step asks split logsMore logsItem round
        (fun own after parts held => shorter own after parts held.1) ?_
      rintro own after parts ⟨some, adds⟩
      have fewer : after.length < count := size ▸ shorter own after parts some
      exact (induction after.length fewer after rfl).mono fun further rest _ held =>
        ⟨adds further held.1, held.2⟩

/-- Only a closing brace is last. -/
theorem closed (finds : (∀ last ∈ before.getLast?, last.token = .closeBrace) →
    Finds file source before first holds) : Finds file source before first holds :=
  fun parser facing => finds facing.closed parser facing

end Finds

def Owes {α : Type} (file : FileId) (source : List Char) (room : Nat) (before : List Word)
    (production : Parse α) (known : Prop) : Prop :=
  ∀ parser, Facing file source room before parser → parser.Silent →
    (production parser).2.Silent → known

namespace Owes

variable {first : Parse α} {next : α → Parse β} {known : Prop} {room : Nat}

theorem mono {production : Parse α} {weaker : Prop}
    (owes : Owes file source room before production known) (imply : known → weaker) :
    Owes file source room before production weaker :=
  fun parser facing silent final => imply (owes parser facing silent final)

theorem of_reports {production : Parse α} (reports : Reports production) :
    Owes file source room before production known :=
  fun parser _ silent final => absurd final (reports parser silent)

theorem after {read : α → Prop} (parses : Parses file source room before first middle read)
    (later : ∀ value, read value → Owes file source room middle (next value) known) :
    Owes file source room before (first >>= next) known := by
  intro parser facing silent final
  obtain ⟨held, advances⟩ := parses parser facing
  exact later _ held _ advances.facing (advances.silent silent) final

theorem decided {found : α} (parses : Parses file source room before first middle (· = found))
    (later : Owes file source room middle (next found) known) :
    Owes file source room before (first >>= next) known :=
  after parses fun _ same => same ▸ later

theorem bind {read : List Word → List Word → Prop} (finds : Finds file source before first read)
    (logsFirst : Logs first) (logs : ∀ value, Logs (next value))
    (later : ∀ value passed after, before = passed ++ after → read passed after →
      Owes file source 0 after (next value) known) :
    Owes file source room before (first >>= next) known := by
  intro parser facing silent final
  have between := ((logs _).onward (logsFirst.settled silent.settled)).silent final
  have within : Facing file source 0 before parser :=
    { facing with room := Nat.le_of_add_right_le facing.room }
  obtain ⟨passed, middle, split, advances, held⟩ := finds parser within silent between
  exact later _ passed middle split held _ advances.facing between final

theorem prior (owes : Owes file source room before first known) (logsFirst : Logs first)
    (logs : ∀ value, Logs (next value)) : Owes file source room before (first >>= next) known :=
  fun parser facing silent final =>
    owes parser facing silent (((logs _).onward (logsFirst.settled silent.settled)).silent final)

theorem start {next : Span → Parse β}
    (later : ∀ span, Owes file source room before (next span) known) :
    Owes file source room before (aheadSpan >>= next) known :=
  fun parser facing silent final => later parser.aheadSpan parser facing silent final

theorem ahead {next : Token → Parse β} (same : aheadOf before = token)
    (later : Owes file source room before (next token) known) :
    Owes file source room before (Parse.ahead >>= next) known := by
  intro parser facing silent final
  have applied : (Parse.ahead >>= next) parser = next token parser := by
    rw [← same, ← facing.ahead]
    rfl
  rw [applied] at final
  exact later parser facing silent final

theorem consume {next : Unit → Parse β} (later : Owes file source room words (next ()) known) :
    Owes file source room (word :: words) (Parse.consume >>= next) known := by
  have passes : Parses file source room (word :: words) Parse.consume words fun _ => True :=
    fun _ facing => ⟨trivial, facing.consume⟩
  exact after passes fun _ _ => later

theorem nested {refused : Span → α} (owes : Owes file source room before first known) :
    Owes file source (room + 1) before (Parse.nested refused first) known := by
  intro parser facing silent final
  have bound := facing.room
  have entered : Facing file source room before { parser with depth := parser.depth + 1 } :=
    { facing with
      room := by
        change parser.depth + 1 + room ≤ _
        omega }
  rw [nested_apply (by omega)] at final
  exact owes _ entered ⟨silent.diagnostics, silent.unreported⟩
    ((Parser.Logs.leaveNesting _).silent final)

theorem many {more : Parse Bool} {item : Parse α}
    (goes : Parses file source room before more middle (· = true)) (logsMore : Logs more)
    (logsItem : Logs item) (owes : Owes file source room middle item known) :
    Owes file source room before (Parse.many more item) known := by
  intro parser facing silent final
  obtain ⟨asked, advances⟩ := goes parser facing
  have going := advances.silent silent
  have settled := logsItem.settled going.settled
  rw [many_unroll, if_pos asked] at final
  refine owes _ advances.facing going ?_
  split at final
  · exact (Logs.onward (Agrees.many logsMore logsItem) settled).silent final
  · exact (Parser.Logs.raise _ _).silent final

end Owes

end Rules

end Haskell.Core

end Offside
