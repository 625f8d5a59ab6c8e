import Mathlib.Data.List.Infix
import Offside.Proofs.Parser.Log

/-!
What a parse does, act by act, and what each act does to the nesting budget. Two acts change the depth:
a level is entered, or left. Beyond the limit an entry is refused instead, which is the only act that
reports nesting as too deep.

A round trip returns to the level from which it set out: each level entered on the way is left again,
and a refusal enters none. So the depth after it is the depth before it, and on the way the depth stays
between that and the limit.
-/

namespace Offside

set_option autoImplicit false

open Offside.Lexical

namespace Parser

/-- One thing that a grammar does to a parser. -/
inductive Act where
  | consume
  /-- The next token is pulled and put by. -/
  | putBy
  /-- The lookahead is reported as unexpected. -/
  | report
  /-- A place is reported as unexpected. -/
  | reportAt (span : Span)
  | raise (fault : Fault)
  | enter
  | leave

namespace Act

def perform : Act → Parser → Parser
  | consume, parser => parser.consume
  | putBy, parser => parser.fill 1
  | report, parser => parser.reportUnexpected
  | reportAt span, parser =>
    { parser with context := parser.context.report .unexpectedToken span }
  | raise fault, parser => parser.raise fault
  | enter, parser => parser.enterNesting.2
  | leave, parser => parser.leaveNesting

def IsLevel : Act → Prop
  | enter | leave => False
  | _ => True

/-- Where an entry is refused, if the act is one. -/
def refused (parser : Parser) : Act → List Span
  | enter => if parser.depth < nestingLimit then [] else [parser.aheadSpan]
  | _ => []

end Act

def performed : List Act → Parser → Parser
  | [], parser => parser
  | act :: later, parser => performed later (act.perform parser)

def refusals : List Act → Parser → List Span
  | [], _ => []
  | act :: later, parser => act.refused parser ++ refusals later (act.perform parser)

@[simp] theorem performed_append (acts later : List Act) (parser : Parser) :
    performed (acts ++ later) parser = performed later (performed acts parser) := by
  induction acts generalizing parser with
  | nil => rfl
  | cons act acts induction => exact induction (act.perform parser)

/-- The diagnostics of a parser and the reports that its stream will bring. -/
def foreseen (parser : Parser) : List Diagnostic :=
  parser.context.diagnostics.toList ++ reportsOf parser.input.items

theorem foreseen_report (parser : Parser) (problem : Problem) (span : Span) :
    ({ parser with context := parser.context.report problem span } : Parser).foreseen.Perm
      (⟨problem, span⟩ :: parser.foreseen) := by
  simp only [foreseen, Context.report, Array.toList_push, List.append_assoc, List.singleton_append]
  exact List.perm_middle

theorem foreseen_consume (parser : Parser) : parser.consume.foreseen = parser.foreseen := by
  rw [foreseen, Logged.diagnostics_consume, List.append_assoc, ← Logged.input_consume]
  rfl

theorem foreseen_consumeInner (parser : Parser) :
    parser.consumeInner.foreseen = parser.foreseen := by
  unfold consumeInner
  split
  · rfl
  · exact foreseen_consume parser

theorem foreseen_fill (parser : Parser) : (parser.fill 1).foreseen = parser.foreseen := by
  have split := reportsOf_pullFrom parser.input parser.context
  simp [foreseen, fill, pull, diagnostics_pullFrom, split, pulledReports]

/-- An act reports nesting as too deep exactly where it is an entry that is refused. -/
theorem Act.count_foreseen (act : Act) (parser : Parser) (span : Span) :
    (act.perform parser).foreseen.count ⟨.nestingTooDeep, span⟩ =
      parser.foreseen.count ⟨.nestingTooDeep, span⟩ + (act.refused parser).count span := by
  cases act with
  | consume => rw [perform, foreseen_consume]; rfl
  | putBy => rw [perform, foreseen_fill]; rfl
  | report =>
    rcases reportUnexpected_cases parser with same | reported
    · rw [perform, same]
      rfl
    · rw [perform, reported]
      exact (foreseen_report parser .unexpectedToken _).count_eq _
  | reportAt span => exact (foreseen_report parser .unexpectedToken span).count_eq _
  | raise fault => rfl
  | enter =>
    by_cases room : parser.depth < nestingLimit
    · rw [perform, enterNesting, if_pos room, refused, if_pos room]
      rfl
    · have reported := (foreseen_report parser .nestingTooDeep parser.aheadSpan).count_eq
        ⟨.nestingTooDeep, span⟩
      rw [perform, enterNesting, if_neg room, refused, if_neg room]
      simp only [refuseNesting, foreseen_consumeInner]
      rw [reported]
      simp [List.count_cons]
  | leave =>
    rw [perform, leaveNesting]
    split
    · rfl
    · rfl

/-- Whatever is done, the reports of nesting that is too deep are those of the stream and one for each
entry that is refused, where it is refused. -/
theorem count_foreseen_performed (acts : List Act) (parser : Parser) (span : Span) :
    (performed acts parser).foreseen.count ⟨.nestingTooDeep, span⟩ =
      parser.foreseen.count ⟨.nestingTooDeep, span⟩ + (refusals acts parser).count span := by
  induction acts generalizing parser with
  | nil => rfl
  | cons act later induction =>
    rw [performed, refusals, induction, act.count_foreseen, List.count_append, Nat.add_assoc]

theorem depth_perform {act : Act} (level : act.IsLevel) (parser : Parser) :
    (act.perform parser).depth = parser.depth := by
  cases act with
  | consume => exact (consume_keeps parser).2.1
  | putBy => rfl
  | report =>
    rcases reportUnexpected_cases parser with same | reported
    · rw [Act.perform, same]
    · rw [Act.perform, reported]
  | reportAt span => rfl
  | raise fault => rfl
  | enter => exact level.elim
  | leave => exact level.elim

theorem depth_enter {parser : Parser} (room : parser.depth < nestingLimit) :
    (Act.enter.perform parser).depth = parser.depth + 1 := by
  rw [Act.perform, enterNesting, if_pos room]

theorem depth_enter_refused {parser : Parser} (full : ¬ parser.depth < nestingLimit) :
    (Act.enter.perform parser).depth = parser.depth := by
  rw [Act.perform, enterNesting, if_neg full]
  simp only [refuseNesting, consumeInner]
  split
  · rfl
  · exact (consume_keeps _).2.1

theorem depth_leave {parser : Parser} (entered : 0 < parser.depth) :
    (Act.leave.perform parser).depth + 1 = parser.depth := by
  rw [Act.perform, leaveNesting, if_pos entered]
  exact Nat.sub_add_cancel entered

inductive RoundTrip : Parser → List Act → Parser → Prop
  | stay (parser : Parser) : RoundTrip parser [] parser
  | trans {first second third : Parser} {acts later : List Act} :
      RoundTrip first acts second → RoundTrip second later third →
        RoundTrip first (acts ++ later) third
  | single (act : Act) (parser : Parser) : act.IsLevel → RoundTrip parser [act] (act.perform parser)
  /-- At the limit an entry is refused, and there is nothing to leave. -/
  | refused {parser : Parser} : parser.depth = nestingLimit →
      RoundTrip parser [.enter] (Act.enter.perform parser)
  /-- A level is entered, and left at the end of what is done in it. -/
  | within {parser final : Parser} {acts : List Act} : parser.depth < nestingLimit →
      RoundTrip (Act.enter.perform parser) acts final →
        RoundTrip parser (.enter :: (acts ++ [.leave])) (Act.leave.perform final)

namespace RoundTrip

variable {before after : Parser} {acts : List Act}

theorem reaches (trip : RoundTrip before acts after) : performed acts before = after := by
  induction trip with
  | stay parser => rfl
  | trans _ _ first second => rw [performed_append, first, second]
  | single act parser level => rfl
  | refused full => rfl
  | within room _ inside =>
    rw [performed, performed_append, inside]
    rfl

theorem depth (trip : RoundTrip before acts after) : after.depth = before.depth := by
  induction trip with
  | stay parser => rfl
  | trans _ _ first second => exact second.trans first
  | single act parser level => exact depth_perform level parser
  | refused full => exact depth_enter_refused (Nat.not_lt.2 (Nat.le_of_eq full.symm))
  | @within parser final acts room _ inside =>
    rw [depth_enter room] at inside
    have left : (Act.leave.perform final).depth + 1 = final.depth := depth_leave (by omega)
    omega

theorem bounds_single {act : Act} {earlier : List Act}
    (kept : (act.perform before).depth = before.depth) (shallow : before.depth ≤ nestingLimit)
    (reached : earlier <+: [act]) :
    before.depth ≤ (performed earlier before).depth ∧
      (performed earlier before).depth ≤ nestingLimit := by
  rcases List.prefix_cons_iff.1 reached with rfl | ⟨inner, rfl, none⟩
  · exact ⟨Nat.le_refl _, shallow⟩
  · rw [List.prefix_nil.1 none, performed, performed, kept]
    exact ⟨Nat.le_refl _, shallow⟩

/-- On the way the depth is never below that at either end, and never above the limit. -/
theorem depth_bounds (trip : RoundTrip before acts after) (shallow : before.depth ≤ nestingLimit)
    {earlier : List Act} (reached : earlier <+: acts) :
    before.depth ≤ (performed earlier before).depth ∧
      (performed earlier before).depth ≤ nestingLimit := by
  induction trip generalizing earlier with
  | stay parser =>
    rw [List.prefix_nil.1 reached]
    exact ⟨Nat.le_refl _, shallow⟩
  | @trans start middle final acts later leg next first second =>
    have level := leg.depth
    obtain ⟨rest, split⟩ := reached
    rcases List.append_eq_append_iff.1 split with ⟨further, whole, -⟩ | ⟨further, whole, rest⟩
    · exact first shallow ⟨further, whole.symm⟩
    · rw [whole, performed_append, leg.reaches, ← level]
      exact second (level ▸ shallow) ⟨_, rest.symm⟩
  | single act parser level => exact bounds_single (depth_perform level parser) shallow reached
  | refused full =>
    exact bounds_single (depth_enter_refused (Nat.not_lt.2 (Nat.le_of_eq full.symm))) shallow
      reached
  | @within parser final acts room inside bounds =>
    have whole := (within room inside).depth
    have entered := depth_enter room
    rcases List.prefix_cons_iff.1 reached with rfl | ⟨inner, rfl, later⟩
    · exact ⟨Nat.le_refl _, shallow⟩
    · rcases List.prefix_concat_iff.1 later with rfl | reached
      · rw [performed, performed_append, inside.reaches]
        exact ⟨Nat.le_of_eq whole.symm, whole ▸ shallow⟩
      · have deeper := bounds (by omega) reached
        rw [performed]
        omega

end RoundTrip

def Returns (before after : Parser) : Prop := ∃ acts, RoundTrip before acts after

namespace Returns

variable {first second third : Parser}

theorem refl (parser : Parser) : parser.Returns parser := ⟨[], .stay parser⟩

theorem trans (leg : first.Returns second) (next : second.Returns third) : first.Returns third := by
  obtain ⟨acts, leg⟩ := leg
  obtain ⟨later, next⟩ := next
  exact ⟨acts ++ later, leg.trans next⟩

theorem depth (returns : first.Returns second) : second.depth = first.depth := by
  obtain ⟨acts, trip⟩ := returns
  exact trip.depth

end Returns

end Parser

/-- A grammar makes round trips from the states of a depth, the entering and leaving of levels apart. -/
def Conduct.nesting (depth : Nat) : Conduct where
  starts parser := parser.depth = depth
  leads := Parser.Returns
  fresh _ := True
  onward returns level := returns.depth.trans level
  refl := .refl
  trans := .trans
  consume parser := ⟨_, .single .consume parser trivial⟩
  putBy parser := ⟨_, .single .putBy parser trivial⟩
  reportUnexpected parser := ⟨_, .single .report parser trivial⟩
  raise parser fault := ⟨_, .single (.raise fault) parser trivial⟩
  fresh_consume _ := trivial
  reportPassed {parser} _ := ⟨_, .trans (.single .consume parser trivial)
    (.single (.reportAt parser.aheadSpan) parser.consume trivial)⟩

/-!
Productions that agree in this keep the depth. At the limit a nested production agrees with any other
that refuses alike, since it is not run.
-/

namespace Parse.Agrees

open Offside.Parser

variable {α : Type} {depth : Nat} {first second : Parse α}

theorem nested {refused : Span → α} (room : depth < nestingLimit)
    (agrees : Agrees (.nesting (depth + 1)) first second) :
    Agrees (.nesting depth) (Parse.nested refused first) (Parse.nested refused second) := by
  rintro parser rfl
  obtain ⟨same, acts, inside⟩ := agrees (Act.enter.perform parser) (depth_enter room)
  have applied (production : Parse α) : Parse.nested refused production parser =
      ((production (Act.enter.perform parser)).1,
        Act.leave.perform (production (Act.enter.perform parser)).2) := by
    have entered : Parse.enterNesting parser = (none, Act.enter.perform parser) := by
      change parser.enterNesting = (none, parser.enterNesting.2)
      rw [Parser.enterNesting, if_pos room]
    unfold Parse.nested
    rw [bind_apply, entered]
    rfl
  unfold AgreesAt
  rw [applied first, applied second, ← same]
  exact ⟨rfl, _, .within room inside⟩

theorem refuse {refused : Span → α} (production : Parse α) :
    Agrees (.nesting nestingLimit) (Parse.refuse refused) (Parse.nested refused production) := by
  intro parser (full : parser.depth = nestingLimit)
  have entered : Parse.enterNesting parser =
      (some parser.aheadSpan, parser.refuseNesting.2) := by
    change parser.enterNesting = _
    rw [Parser.enterNesting, if_neg (by omega)]
    rfl
  have reached : Act.enter.perform parser = (Parse.refuse refused parser).2 :=
    congrArg Prod.snd entered
  refine ⟨?_, [.enter], reached ▸ RoundTrip.refused full⟩
  unfold Parse.nested
  rw [bind_apply, entered]
  rfl

end Parse.Agrees

end Offside
