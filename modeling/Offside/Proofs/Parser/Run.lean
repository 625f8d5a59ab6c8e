import Offside.Parser.State
import Mathlib.Data.List.TakeWhile
import Mathlib.Tactic.Common

/-!
Runs of a parser: what any production may do to the state, as a sequence of legal moves. A run passes
tokens in front of the end of input and never the end itself, it peeks within reach, it leaves every
nesting level that it entered, and it is at fault only when it joined spans of two files. The effect
of each move is stated once, and what a whole run keeps follows by induction.
-/

namespace Offside

set_option autoImplicit false

open Offside.Lexical

namespace Lexical.TokenStream

/-- The tokens of a stream that a parser is shown, which are all but the comments. -/
def visible (stream : TokenStream) : List (Token × Span) :=
  (stream.items.filter fun item => !item.isComment).map fun item => (item.token, item.span)

structure Within (files : FileId → Prop) (stream : TokenStream) : Prop where
  items : ∀ item ∈ stream.items, files item.span.file
  finish : files stream.finish.file

theorem visible_afterComments (stream : TokenStream) :
    stream.afterComments.visible = stream.visible := by
  have split := List.takeWhile_append_dropWhile (p := Lexed.isComment) (l := stream.items)
  have dropped : (stream.items.takeWhile Lexed.isComment).filter (fun item => !item.isComment) =
      [] := by
    rw [List.filter_eq_nil_iff]
    intro item member
    simp [List.mem_takeWhile_imp member]
  unfold visible
  rw [items_afterComments]
  conv_rhs => rw [← split, List.filter_append, dropped, List.nil_append]

theorem within_drop {files : FileId → Prop} {stream : TokenStream} (within : stream.Within files)
    (count : Nat) : (stream.drop count).Within files :=
  ⟨fun item member => within.items item (List.mem_of_mem_drop member), within.finish⟩

theorem within_next {files : FileId → Prop} {stream : TokenStream} (within : stream.Within files) :
    files stream.next.1.span.file ∧ stream.next.2.Within files := by
  unfold next
  split
  · exact ⟨within.finish, within⟩
  · rename_i item later found
    refine ⟨within.items item ?_, within_drop within 1⟩
    rw [found]
    exact List.mem_cons_self

end Lexical.TokenStream

namespace Context

theorem recordEntry_keeps (context : Context) (entry : Entry) :
    (context.recordEntry entry).diagnostics = context.diagnostics ∧
      (context.recordEntry entry).program = context.program := by
  unfold recordEntry
  split <;> exact ⟨rfl, rfl⟩

theorem foldl_recordEntry_keeps (entries : List Entry) (context : Context) :
    (entries.foldl recordEntry context).diagnostics = context.diagnostics ∧
      (entries.foldl recordEntry context).program = context.program := by
  induction entries generalizing context with
  | nil => exact ⟨rfl, rfl⟩
  | cons entry later induction =>
    have first := recordEntry_keeps context entry
    rw [List.foldl_cons, (induction _).1, (induction _).2]
    exact first

/-- One context continues another: it holds all its diagnostics and the same tree. -/
structure Continues (earlier later : Context) : Prop where
  diagnostics : ∀ diagnostic ∈ earlier.diagnostics, diagnostic ∈ later.diagnostics
  program : later.program = earlier.program

namespace Continues

theorem refl (context : Context) : Continues context context :=
  ⟨fun _ member => member, rfl⟩

theorem trans {first second third : Context} (before : Continues first second)
    (after : Continues second third) : Continues first third :=
  ⟨fun diagnostic member => after.diagnostics diagnostic (before.diagnostics diagnostic member),
    after.program.trans before.program⟩

theorem report (context : Context) (problem : Problem) (span : Span) :
    Continues context (context.report problem span) :=
  ⟨fun _ member => Array.mem_push.2 (Or.inl member), rfl⟩

theorem absorb (context : Context) (item : Lexed) : Continues context (context.absorb item) := by
  have kept := foldl_recordEntry_keeps item.entries
    { context with diagnostics := context.diagnostics ++ item.reports }
  refine ⟨fun diagnostic member => ?_, kept.2⟩
  unfold Context.absorb
  rw [kept.1, Array.mem_def]
  simp [Array.mem_def.1 member]

theorem absorbAll (items : List Lexed) (context : Context) :
    Continues context (context.absorbAll items) := by
  induction items generalizing context with
  | nil => exact refl context
  | cons item later induction => exact (absorb context item).trans (induction (context.absorb item))

end Continues

theorem mem_report (context : Context) (problem : Problem) (span : Span) :
    ⟨problem, span⟩ ∈ (context.report problem span).diagnostics :=
  Array.mem_push.2 (Or.inr rfl)

end Context

namespace Parser

def rest (parser : Parser) : List (Token × Span) :=
  ((parser.ahead, parser.aheadSpan) :: (parser.buffered ++ parser.input.visible)).takeWhile
    fun found => isInner found.1

/-- A state in which every span in sight belongs to one of the given files, and in which a lookahead
that counts as reported is. -/
structure Valid (files : FileId → Prop) (parser : Parser) : Prop where
  ahead : files parser.aheadSpan.file
  buffered : ∀ found ∈ parser.buffered, files found.2.file
  input : parser.input.Within files
  reported_le : ∀ count, parser.reportedAt = some count → count ≤ parser.consumed
  reported : parser.reportedAt = some parser.consumed →
    ⟨.unexpectedToken, parser.aheadSpan⟩ ∈ parser.context.diagnostics

inductive Run (files : FileId → Prop) : Parser → List (Token × Span) → Parser → Prop where
  | refl (parser : Parser) : Run files parser [] parser
  | trans {first second third : Parser} {passed later : List (Token × Span)} :
      Run files first passed second → Run files second later third →
      Run files first (passed ++ later) third
  | consume {parser : Parser} : parser.isAtEnd = false →
      Run files parser [(parser.ahead, parser.aheadSpan)] parser.consume
  | fill {parser : Parser} : parser.buffered.length < reach → Run files parser [] (parser.fill 1)
  | report (parser : Parser) : Run files parser [] parser.reportUnexpected
  /-- A token is consumed, and reported although it was passed. -/
  | consumeReporting {parser : Parser} : parser.isAtEnd = false →
      Run files parser [(parser.ahead, parser.aheadSpan)]
        { parser.consume with
          context := parser.consume.context.report .unexpectedToken parser.aheadSpan }
  | refuse {parser : Parser} : parser.depth = nestingLimit →
      Run files parser []
        { parser with context := parser.context.report .nestingTooDeep parser.aheadSpan }
  /-- A nesting level is entered and left again at the end of what is done in it. -/
  | nested {parser final : Parser} {passed : List (Token × Span)} : parser.depth < nestingLimit →
      Run files { parser with depth := parser.depth + 1 } passed final →
      Run files parser passed final.leaveNesting
  | raise {parser : Parser} {left right : FileId} : files left → files right → left ≠ right →
      Run files parser [] (parser.raise (.filesDiffer left right))

structure Effect (files : FileId → Prop) (before : Parser) (passed : List (Token × Span))
    (after : Parser) : Prop where
  rest : before.rest = passed ++ after.rest
  depth : after.depth = before.depth
  consumed : after.consumed = before.consumed + passed.length
  remaining : passed.length + after.remaining ≤ before.remaining
  still : passed = [] → after.ahead = before.ahead ∧ after.aheadSpan = before.aheadSpan
  context : before.context.Continues after.context
  fault : after.fault = none → before.fault = none
  valid : before.Valid files → after.Valid files

theorem rest_eq_nil_iff (parser : Parser) : parser.rest = [] ↔ parser.isAtEnd = true := by
  simp [rest, isInner, isAtEnd, List.takeWhile_cons]

variable {parser : Parser}

theorem rest_of_inner (inner : parser.isAtEnd = false) :
    parser.rest = (parser.ahead, parser.aheadSpan) ::
      (parser.buffered ++ parser.input.visible).takeWhile fun found => isInner found.1 := by
  have ahead : isInner parser.ahead = true := by
    simpa [isInner, isAtEnd] using inner
  simp [rest, ahead]

theorem finish_pullFrom (stream : TokenStream) (context : Context) :
    (pullFrom stream context).2.1.finish = stream.finish := by
  unfold pullFrom TokenStream.next
  split <;> rfl

/-- The next token is taken off the front of what is visible, or nothing is visible any more. -/
theorem pullFrom_visible (stream : TokenStream) (context : Context) :
    stream.visible = (pullFrom stream context).1 :: (pullFrom stream context).2.1.visible ∨
      stream.visible = [] ∧ (pullFrom stream context).1.1 = .endOfInput ∧
        (pullFrom stream context).2.1.visible = [] := by
  have items := stream.items_afterComments
  have visible := stream.visible_afterComments
  unfold pullFrom
  simp only [TokenStream.next]
  cases found : stream.afterComments.items with
  | nil =>
    right
    refine ⟨?_, rfl, ?_⟩
    · rw [← visible, TokenStream.visible, found]
      rfl
    · rw [TokenStream.visible, found]
      rfl
  | cons item later =>
    left
    have written : item.isComment = false := by
      have first := List.head?_dropWhile_not Lexed.isComment stream.items
      rw [← items, found] at first
      simpa using first
    rw [← visible]
    simp [TokenStream.visible, TokenStream.drop, found, written]

theorem takeWhile_pullFrom (stream : TokenStream) (context : Context) :
    stream.visible.takeWhile (fun found => isInner found.1) =
      ((pullFrom stream context).1 :: (pullFrom stream context).2.1.visible).takeWhile
        fun found => isInner found.1 := by
  rcases pullFrom_visible stream context with taken | ⟨none, final, after⟩
  · rw [taken]
  · simp [none, final, isInner]

theorem pullFrom_within {files : FileId → Prop} {stream : TokenStream}
    (within : stream.Within files) (context : Context) :
    files (pullFrom stream context).1.2.file ∧ (pullFrom stream context).2.1.Within files :=
  TokenStream.within_next (TokenStream.within_drop within stream.comments.length)

theorem pullFrom_continues (stream : TokenStream) (context : Context) :
    context.Continues (pullFrom stream context).2.2 :=
  (Context.Continues.absorbAll stream.comments context).trans
    (Context.Continues.absorb _ stream.afterComments.next.1)

theorem rest_consume (inner : parser.isAtEnd = false) :
    parser.rest = (parser.ahead, parser.aheadSpan) :: parser.consume.rest := by
  rw [rest_of_inner inner]
  unfold consume
  cases found : parser.buffered with
  | nil => exact congrArg _ (takeWhile_pullFrom parser.input parser.context)
  | cons next later => rfl

theorem consume_keeps (parser : Parser) :
    parser.consume.consumed = parser.consumed + 1 ∧ parser.consume.depth = parser.depth ∧
      parser.consume.fault = parser.fault ∧ parser.consume.reportedAt = parser.reportedAt := by
  unfold consume
  cases parser.buffered with
  | nil => exact ⟨rfl, rfl, rfl, rfl⟩
  | cons next later => exact ⟨rfl, rfl, rfl, rfl⟩

theorem context_consume (parser : Parser) : parser.context.Continues parser.consume.context := by
  unfold consume
  cases parser.buffered with
  | nil => exact pullFrom_continues parser.input parser.context
  | cons next later => exact Context.Continues.refl parser.context

theorem valid_consume {files : FileId → Prop} (valid : parser.Valid files) :
    parser.consume.Valid files := by
  have fresh : ∀ count, parser.consume.reportedAt = some count → count < parser.consume.consumed := by
    intro count found
    rw [(consume_keeps parser).2.2.2] at found
    rw [(consume_keeps parser).1]
    exact Nat.lt_succ_of_le (valid.reported_le count found)
  have located : files parser.consume.aheadSpan.file ∧
      (∀ found ∈ parser.consume.buffered, files found.2.file) ∧
        parser.consume.input.Within files := by
    have members := valid.buffered
    unfold consume
    cases found : parser.buffered with
    | nil =>
      have pulled := pullFrom_within valid.input parser.context
      exact ⟨pulled.1, by simp [pull], pulled.2⟩
    | cons next later =>
      rw [found] at members
      exact ⟨members next List.mem_cons_self,
        fun next member => members next (List.mem_cons_of_mem _ member), valid.input⟩
  exact
    { ahead := located.1
      buffered := located.2.1
      input := located.2.2
      reported_le := fun count found => Nat.le_of_lt (fresh count found)
      reported := fun found => absurd (fresh _ found) (Nat.lt_irrefl _) }

theorem rest_fill (parser : Parser) : (parser.fill 1).rest = parser.rest := by
  have moved := takeWhile_pullFrom parser.input parser.context
  simp only [fill, pull, rest, List.append_assoc, List.singleton_append]
  rw [List.takeWhile_cons, List.takeWhile_cons]
  split
  · congr 1
    rw [List.takeWhile_append, List.takeWhile_append, moved]
  · rfl

theorem remaining_fill_le (parser : Parser) : (parser.fill 1).remaining ≤ parser.remaining := by
  have pulled := pullFrom_size parser.input parser.context
  simp only [fill, pull, remaining, List.countP_append, List.countP_singleton]
  cases inner : isInner (pullFrom parser.input parser.context).1.1 <;>
    simp only [inner, Bool.toNat_true, Bool.toNat_false, if_true, if_false, Bool.false_eq_true]
      at pulled ⊢ <;>
    omega

theorem valid_fill {files : FileId → Prop} (valid : parser.Valid files) :
    (parser.fill 1).Valid files := by
  have pulled := pullFrom_within valid.input parser.context
  have continued := pullFrom_continues parser.input parser.context
  refine
    { ahead := valid.ahead
      buffered := ?_
      input := pulled.2
      reported_le := valid.reported_le
      reported := fun found => continued.diagnostics _ (valid.reported found) }
  intro found member
  rcases List.mem_append.1 member with buffered | new
  · exact valid.buffered found buffered
  · rw [List.mem_singleton.1 new]
    exact pulled.1

/-- Reporting changes only the context and the memory of the report. -/
theorem reportUnexpected_cases (parser : Parser) :
    parser.reportUnexpected = parser ∨
      parser.reportUnexpected =
        { parser with
          reportedAt := some parser.consumed
          context := parser.context.report .unexpectedToken parser.aheadSpan } := by
  unfold reportUnexpected
  split
  · exact Or.inl rfl
  · exact Or.inr rfl

/-- A change to the context alone that only adds diagnostics. -/
theorem valid_of_continues {files : FileId → Prop} {context : Context} (valid : parser.Valid files)
    (continued : parser.context.Continues context) :
    ({ parser with context } : Parser).Valid files :=
  { valid with reported := fun found => continued.diagnostics _ (valid.reported found) }

namespace Effect

variable {files : FileId → Prop}

theorem refl (parser : Parser) : Effect files parser [] parser where
  rest := rfl
  depth := rfl
  consumed := rfl
  remaining := Nat.le_of_eq (Nat.zero_add _)
  still := fun _ => ⟨rfl, rfl⟩
  context := Context.Continues.refl parser.context
  fault := id
  valid := id

theorem trans {first second third : Parser} {passed later : List (Token × Span)}
    (before : Effect files first passed second) (after : Effect files second later third) :
    Effect files first (passed ++ later) third where
  rest := by rw [before.rest, after.rest, List.append_assoc]
  depth := after.depth.trans before.depth
  consumed := by rw [after.consumed, before.consumed, List.length_append, Nat.add_assoc]
  remaining := by
    have earlier := before.remaining
    have later := after.remaining
    rw [List.length_append]
    omega
  still := by
    intro none
    obtain ⟨first, second⟩ := List.append_eq_nil_iff.1 none
    have earlier := before.still first
    have later := after.still second
    exact ⟨later.1.trans earlier.1, later.2.trans earlier.2⟩
  context := before.context.trans after.context
  fault := fun unharmed => before.fault (after.fault unharmed)
  valid := fun valid => after.valid (before.valid valid)

theorem consume (inner : parser.isAtEnd = false) :
    Effect files parser [(parser.ahead, parser.aheadSpan)] parser.consume where
  rest := rest_consume inner
  depth := (consume_keeps parser).2.1
  consumed := (consume_keeps parser).1
  remaining := by
    have fewer := remaining_consume_lt inner
    rw [List.length_singleton]
    omega
  still := by simp
  context := context_consume parser
  fault := fun unharmed => (consume_keeps parser).2.2.1.symm.trans unharmed
  valid := valid_consume

theorem fill (parser : Parser) : Effect files parser [] (parser.fill 1) where
  rest := (rest_fill parser).symm
  depth := rfl
  consumed := rfl
  remaining := by simpa using remaining_fill_le parser
  still := fun _ => ⟨rfl, rfl⟩
  context := pullFrom_continues parser.input parser.context
  fault := id
  valid := valid_fill

/-- Only the context changes, and it grows. -/
theorem grow {context : Context} (continued : parser.context.Continues context) :
    Effect files parser [] { parser with context } where
  rest := rfl
  depth := rfl
  consumed := rfl
  remaining := Nat.le_of_eq (Nat.zero_add _)
  still := fun _ => ⟨rfl, rfl⟩
  context := continued
  fault := id
  valid := fun valid => valid_of_continues valid continued

theorem report (parser : Parser) : Effect files parser [] parser.reportUnexpected := by
  rcases reportUnexpected_cases parser with same | reported
  · rw [same]
    exact refl parser
  · rw [reported]
    have continued := Context.Continues.report parser.context .unexpectedToken parser.aheadSpan
    exact
      { rest := rfl
        depth := rfl
        consumed := rfl
        remaining := Nat.le_of_eq (Nat.zero_add _)
        still := fun _ => ⟨rfl, rfl⟩
        context := continued
        fault := id
        valid := fun valid =>
          { valid with
            reported_le := fun count found => Nat.le_of_eq (Option.some.inj found).symm
            reported := fun _ => parser.context.mem_report .unexpectedToken parser.aheadSpan } }

theorem nested {parser final : Parser} {passed : List (Token × Span)}
    (inside : Effect files { parser with depth := parser.depth + 1 } passed final) :
    Effect files parser passed final.leaveNesting := by
  have entered : final.depth = parser.depth + 1 := inside.depth
  have left : final.leaveNesting = { final with depth := parser.depth } := by
    simp [leaveNesting, entered]
  rw [left]
  exact
    { rest := inside.rest
      depth := rfl
      consumed := inside.consumed
      remaining := inside.remaining
      still := inside.still
      context := inside.context
      fault := inside.fault
      valid := fun valid => { inside.valid { valid with } with } }

theorem raise (parser : Parser) (fault : Fault) : Effect files parser [] (parser.raise fault) where
  rest := rfl
  depth := rfl
  consumed := rfl
  remaining := Nat.le_of_eq (Nat.zero_add _)
  still := fun _ => ⟨rfl, rfl⟩
  context := Context.Continues.refl parser.context
  fault := by
    intro unharmed
    cases found : parser.fault with
    | none => rfl
    | some earlier => simp [Parser.raise, found] at unharmed
  valid := fun valid => { valid with }

end Effect

namespace Run

variable {files : FileId → Prop} {before after : Parser} {passed : List (Token × Span)}

theorem effect (run : Run files before passed after) : Effect files before passed after := by
  induction run with
  | refl parser => exact Effect.refl parser
  | trans _ _ first second => exact first.trans second
  | consume inner => exact Effect.consume inner
  | fill _ => exact Effect.fill _
  | report parser => exact Effect.report parser
  | @consumeReporting parser inner =>
    have reported := Context.Continues.report parser.consume.context .unexpectedToken
      parser.aheadSpan
    exact (Effect.consume inner).trans (Effect.grow reported)
  | refuse _ => exact Effect.grow (Context.Continues.report _ _ _)
  | nested _ _ inside => exact inside.nested
  | raise _ _ _ => exact Effect.raise _ _

theorem fault_of_single {file : FileId} (run : Run (· = file) before passed after) :
    after.fault = before.fault := by
  induction run with
  | refl parser => rfl
  | trans _ _ first second => exact second.trans first
  | consume _ => exact (consume_keeps _).2.2.1
  | fill _ => rfl
  | report parser =>
    rcases reportUnexpected_cases parser with same | reported
    · rw [same]
    · rw [reported]
  | consumeReporting _ => exact (consume_keeps _).2.2.1
  | refuse _ => rfl
  | @nested parser final passed _ run inside =>
    have entered : final.depth = parser.depth + 1 := run.effect.depth
    rw [← inside]
    simp [leaveNesting, entered]
  | raise left right differ => exact absurd (left.trans right.symm) differ

theorem fill_many {count : Nat} (room : parser.buffered.length + count ≤ reach) :
    Run files parser [] (parser.fill count) := by
  induction count generalizing parser with
  | zero => exact Run.refl parser
  | succ count induction =>
    have first : Run files parser [] (parser.fill 1) := Run.fill (by omega)
    have grown : (parser.fill 1).buffered.length = parser.buffered.length + 1 := by
      simp [Parser.fill, pull]
    exact first.trans (induction (by omega))

end Run

end Parser

end Offside
