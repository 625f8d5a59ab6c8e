import Offside.Proofs.Deepening.Modules
import Offside.Proofs.Deepening.Sights
import Offside.Proofs.Naming.Spellings

/-!
The depth of a qualifier is no matter to a parse. If a text is parsed without a report and one of its
operators is qualified by a single segment, more segments may stand in its place: the tree stays the
same but for its places and the segments of that name. Where an operator is looked for by two tokens
alone, behind a block and in patterns, this does not hold.
-/

namespace Offside

set_option autoImplicit false

open Offside.Lexical

def Name.isSymbol : Name → Bool
  | .operator _ | .special _ => true
  | _ => false

/-- Operands are joined by a symbol that the segment at a place qualifies. -/
def Node.joins (place : Span) : Node → Bool
  | .expr (.binary _ (.qualified [.simple span, last] _) _ _) => span = place && last.isSymbol
  | _ => false

theorem Node.exists_name_of_joins {place : Span} {node : Node} (joins : node.joins place = true) :
    ∃ last span, .name (.qualified [.simple place, last] span) ∈ node.children ∧
      last.isSymbol = true ∧ node.isTerm = true := by
  unfold Node.joins at joins
  split at joins
  · simp only [Bool.and_eq_true, decide_eq_true_eq] at joins
    obtain ⟨rfl, symbol⟩ := joins
    exact ⟨_, _, List.mem_cons_of_mem _ List.mem_cons_self, symbol, rfl⟩
  · cases joins

def Span.ofText (file : FileId) (front text : List Char) : Span :=
  ⟨file, Position.origin.afterAll front, Position.origin.afterAll (front ++ text)⟩

namespace Haskell

variable {source front qualifier back : List Char} {context : Context}

/-- Where a token is shown that layout does not add, the lexer came by. -/
theorem exists_visit_of_shown {token : Token} {span : Span}
    (shown : context.Shows source (token, span)) (firm : isFirm token = true) :
    ∃ visit ∈ (Lexer.start source).visits,
      (visit.nextWritten context.file).located = (token, span) := by
  obtain ⟨lexed, wide⟩ := shown firm
  have read := ((stream_accounts context.file source).wide (token, span) wide).1 (mem_lex.1 lexed).1
  rw [sourceReadings, Lexer.readings_eq_visits, List.map_map] at read
  exact List.mem_map.1 read

namespace Lexer

variable {visit other : Lexer}

theorem visit_unique (member : visit ∈ (start source).visits) (among : other ∈ (start source).visits)
    (same : visit.place.position = other.place.position) : visit = other := by
  have increasing := scanned_increasing ⟨0⟩ (start source)
  rw [scanned_eq_visits, List.pairwise_map] at increasing
  have apart : ((start source).visits.map fun visit => visit.place.position).Nodup :=
    List.pairwise_map.2 (increasing.imp fun before => Position.ne_of_lt before)
  exact List.inj_on_of_nodup_map apart member among same

theorem stands_place (member : visit ∈ (start source).visits) : visit.place.Stands source := by
  have step : ∀ lexer, Passed source lexer → Passed source lexer.pastNext := fun _ => Passed.pastNext
  exact (mem_visits step _ (passed_start source) visit member).stands.skipWhile _

theorem ahead_place (member : visit ∈ (start (front ++ back)).visits)
    (place : visit.place.position = Position.origin.afterAll front) : visit.place.ahead = back := by
  have reached := (Cursor.stands_ofText (front ++ back)).skip front.length
  have ahead : ((Cursor.ofText (front ++ back)).skip front.length).ahead = back := by
    rw [Cursor.ahead_skip]
    exact List.drop_left
  have position : ((Cursor.ofText (front ++ back)).skip front.length).position =
      Position.origin.afterAll front := by
    rw [Cursor.position_skip]
    exact congrArg _ List.take_left
  rw [← ahead]
  exact (stands_place member).ahead_eq reached (place.trans position.symm)

end Lexer

/-- A dot in front of a symbol is read by itself because it qualifies what the symbol starts. -/
theorem qualifies_of_dot {afterProper : Bool}
    (dot : (scan afterProper ('.' :: back)).token = .dot) (led : leads isSymbol back = true) :
    qualifies back = true := by
  rw [← Bool.not_eq_false]
  intro other
  have unqualified : scan afterProper ('.' :: back) = scan false ('.' :: back) := by
    unfold scan
    simp only [other, Bool.and_false]
  have plain : scan false ('.' :: back) = scanOperator ('.' :: back) := by
    rw [scan_of_symbol rfl]
    rfl
  have taken := take_of_dot dot
  rw [unqualified, plain] at taken
  obtain ⟨first, rest, rfl, symbol⟩ := Core.exists_cons_of_leads led
  have run : ('.' :: first :: rest).takeWhile isSymbol = '.' :: first :: rest.takeWhile isSymbol := by
    rw [List.takeWhile_cons_of_pos rfl, List.takeWhile_cons_of_pos symbol]
  rw [scanOperator, run] at taken
  cases taken

theorem leads_of_symbol {afterProper : Bool}
    (operator : (scan afterProper back).token.isOperator = true) : leads isSymbol back = true := by
  cases back with
  | nil => cases operator
  | cons first rest =>
    have wide := scan_width_pos afterProper (List.cons_ne_nil first rest)
    rcases operator_of_scan operator with symbols | ⟨-, dot⟩
    · rw [symbols] at wide
      cases symbol : isSymbol first with
      | true => exact symbol
      | false =>
        rw [scanOperator, List.takeWhile_cons_of_neg (by rw [symbol]; simp)] at wide
        cases wide
    · have isDot : first = '.' := beq_iff_eq.1 dot
      rw [isDot]
      rfl

/-- Between two segments there is a dot, and nothing else. -/
theorem exists_dot {known : Token × Span → Prop} {first last : Name} {start stop : Position}
    (dotted : Name.Dotted known [first, last] start stop) :
    ∃ dot, known (.dot, dot) ∧ first.span.stop = dot.start ∧ dot.stop = last.span.start := by
  cases dotted with
  | dot shown touches later => exact ⟨_, shown, touches, later.start_eq⟩

structure Spots (file : FileId) (source : List Char) (place : Span) (proper point final : Lexer) :
    Prop where
  reached : proper ∈ (Lexer.start source).visits
  here : proper.place.position = place.start
  passed : point ∈ (Lexer.start source).visits
  dot : point.nextScan.token = .dot
  touches : point.place.position = place.stop
  ended : final ∈ (Lexer.start source).visits
  symbol : final.nextScan.token.isOperator = true
  behind : final.place.position = (point.nextWritten file).span.stop

theorem exists_spots {place span : Span} {last : Name}
    (written : (Name.qualified [.simple place, last] span).Written (context.Shows source))
    (linked : (Name.qualified [.simple place, last] span).Linked (context.Shows source))
    (symbol : last.isSymbol = true) :
    ∃ proper point final, Spots context.file source place proper point final := by
  obtain ⟨dot, shownDot, touches, onwards⟩ := exists_dot linked
  cases written with
  | token own => exact own.elim
  | segments each =>
    obtain ⟨token, shown, kind⟩ := each _ List.mem_cons_self
    obtain ⟨operator, shownLast, isOperator⟩ : ∃ token, context.Shows source (token, last.span) ∧
        token.isOperator = true := by
      have own := each last (by simp)
      cases last with
      | operator span =>
        obtain ⟨token, shown, operator⟩ := own
        exact ⟨token, shown, by rw [Token.isOperator, operator, Bool.true_or]⟩
      | special span =>
        obtain ⟨token, shown, operator⟩ := own
        exact ⟨token, shown, by rw [Token.isOperator, operator, Bool.or_true]⟩
      | _ => cases symbol
    have firm : isFirm token = true := by rcases kind with rfl | rfl <;> rfl
    have firmLast : isFirm operator = true := by
      cases operator <;> first | rfl | cases isOperator
    obtain ⟨proper, reached, located⟩ := exists_visit_of_shown shown firm
    obtain ⟨point, passed, locatedDot⟩ := exists_visit_of_shown shownDot rfl
    obtain ⟨final, ended, locatedLast⟩ := exists_visit_of_shown shownLast firmLast
    rw [Written.located, Prod.mk.injEq] at located locatedDot locatedLast
    have start : ∀ visit : Lexer, (visit.nextWritten context.file).span.start =
      visit.place.position := fun _ => rfl
    refine ⟨proper, point, final, reached, ?_, passed, locatedDot.1, ?_, ended, ?_, ?_⟩
    · rw [← start, located.2]
    · rw [← start, locatedDot.2]
      exact touches.symm
    · rw [← locatedLast.1] at isOperator
      exact isOperator
    · rw [← start, locatedLast.2, locatedDot.2]
      exact onwards.symm

namespace Spots

variable {file : FileId} {proper point final : Lexer}
  (spots : Spots file (front ++ (dotted [qualifier] ++ back)) (.ofText file front qualifier)
    proper point final)

include spots

theorem ahead_point : point.place.ahead = '.' :: back := by
  have passed := spots.passed
  have split : front ++ (dotted [qualifier] ++ back) = front ++ qualifier ++ '.' :: back := by simp
  rw [split] at passed
  exact Lexer.ahead_place passed spots.touches

theorem stop_point : (point.nextWritten file).span.stop =
    Position.origin.afterAll (front ++ dotted [qualifier]) := by
  have taken := take_of_dot spots.dot
  change (point.place.skip point.nextScan.width).position = _
  rw [Cursor.position_skip, spots.touches, Lexer.nextScan, taken, Span.ofText, dotted_cons,
    dotted_nil, ← List.append_assoc, Position.afterAll_append _ (front ++ qualifier)]

theorem ahead_final : final.place.ahead = back := by
  have ended := spots.ended
  rw [← List.append_assoc] at ended
  exact Lexer.ahead_place ended (spots.behind.trans spots.stop_point)

theorem forked (spelled : Core.isConstructorText qualifier = true)
    (sound : ∀ visit ∈ (Lexer.start (front ++ (dotted [qualifier] ++ back))).visits,
      visit.nextScan.defect = none)
    (apart : ∀ written ∈ scannedTokens file (front ++ (dotted [qualifier] ++ back)),
      written.span.stop = Position.origin.afterAll front → isNumber written.token = false) :
    Fork front qualifier back proper where
  spelled := spelled
  qualifying := by
    have dot := spots.dot
    have symbol := spots.symbol
    rw [Lexer.nextScan, spots.ahead_point] at dot
    rw [Lexer.nextScan, spots.ahead_final] at symbol
    exact qualifies_of_dot dot (leads_of_symbol symbol)
  reached := spots.reached
  here := Lexer.ahead_place spots.reached spots.here
  sound := sound
  apart := by
    intro visit member ahead
    have stands := (Lexer.stands_place member).skip visit.nextScan.width
    rw [← Lexer.cursor_pastNext] at stands
    have front : visit.pastNext.cursor.behind.reverse = front := by
      have text : visit.pastNext.cursor.behind.reverse ++ visit.pastNext.cursor.ahead = _ :=
        stands.text
      rw [ahead] at text
      exact List.append_cancel_right text
    refine apart (visit.nextWritten file) ?_ ?_
    · rw [scannedTokens, Lexer.scanned_eq_visits]
      exact List.mem_map_of_mem member
    · have position := stands.position
      rw [front, Lexer.cursor_pastNext] at position
      exact position

end Spots

theorem Lexer.Reads.span_eq {lexer final : Lexer} {others : List Lexer}
    (reads : lexer.Reads [qualifier] others final) (file : FileId) :
    (lexer.nextWritten file).span =
      ⟨file, lexer.place.position, lexer.place.position.afterAll qualifier⟩ := by
  have located := reads.located file
  rw [List.map_cons, tower, List.cons.injEq] at located
  exact congrArg Prod.snd located.1

theorem Spots.final_eq {segments : List (List Char)} {fork : Lexer}
    (deepened : Deepened front qualifier back segments fork) {file : FileId} {point final : Lexer}
    (spots : Spots file (front ++ (dotted [qualifier] ++ back)) (.ofText file front qualifier)
      fork point final)
    (forked : Fork front qualifier back fork) : deepened.final = final := by
  have here : fork.place.position = Position.origin.afterAll front := spots.here
  obtain ⟨later, visits⟩ := Lexer.exists_visits deepened.final
  refine Lexer.visit_unique (deepened.mem_visits (.inr (by rw [visits]; exact List.mem_cons_self)))
    spots.ended ?_
  rw [deepened.place_final forked, deepened.reads.position_final forked.here, spots.behind,
    spots.stop_point, here, Position.afterAll_append]

/-- Where a text is parsed without a report and one segment qualifies a symbol in it, a text is parsed
without a report too that has several segments in place of the one, and to the same tree up to places
and the segments of that name. The symbol must not be looked for by two tokens alone, no number may
touch the qualifier, since it could go on into another one, and layout must add the same. -/
theorem deeper_qualifier_parsed {segments : List (List Char)} {program : Program} {owner : Node}
    {last : Name} {span : Span}
    (parsed : (parseText (front ++ (dotted [qualifier] ++ back)) context).1 = some program)
    (silent : (parseText (front ++ (dotted [qualifier] ++ back)) context).2.diagnostics = #[])
    (inside : owner.Inside (.program program)) (kind : owner.isTerm = true)
    (child : .name (.qualified [.simple (.ofText context.file front qualifier), last] span) ∈
      owner.children)
    (symbol : last.isSymbol = true)
    (spares : (Node.program program).Spares (.ofText context.file front qualifier))
    (spelled : Core.isConstructorText qualifier = true)
    (apart : ∀ written ∈ scannedTokens context.file (front ++ (dotted [qualifier] ++ back)),
      written.span.stop = Position.origin.afterAll front → isNumber written.token = false)
    (several : 1 < segments.length)
    (deeper : ∀ segment ∈ segments, Core.isConstructorText segment = true)
    (keeps : KeepsLayout context.file (.ofText context.file front qualifier)
      (2 * (segments.length - 1)) (front ++ (dotted [qualifier] ++ back))
      (front ++ (dotted segments ++ back))) :
    ∃ other, (parseText (front ++ (dotted segments ++ back)) context).1 = some other ∧
      (parseText (front ++ (dotted segments ++ back)) context).2.diagnostics = #[] ∧
      other.sketch Name.bare =
        program.sketch (.deepened (.ofText context.file front qualifier) segments.length) := by
  obtain ⟨found, same⟩ := parseText_eq_some parsed
  -- The tokens of the name in the first text
  have formed : (Node.program program).WellFormed (context.Shows _) :=
    parseTokens_formed found stream_shown
  obtain ⟨fork, point, final, spots⟩ := exists_spots (formed.of_inside (inside.child child)).traced
    (Node.linked_of_traced kind (formed.of_inside inside).traced child) symbol
  obtain ⟨unreported, reports⟩ := silent_of_parse silent
  rw [stream_reports] at reports
  have forked := spots.forked spelled (sound_of_silent reports) apart
  obtain ⟨deepened⟩ := forked.deepened (List.ne_nil_of_length_pos (Nat.lt_of_succ_lt several)) deeper
  -- The parsers of both texts
  have place : (deepened.detour context several).fork = .ofText context.file front qualifier := by
    have here : fork.place.position = Position.origin.afterAll front := spots.here
    rw [Deepened.detour, Span.ofText, here, Position.afterAll_append]
  have own : (fork.nextWritten context.file).span = .ofText context.file front qualifier :=
    (deepened.reads.span_eq context.file).trans place
  have twin := deepened.twin context several forked
    (by rw [spots.final_eq deepened forked]; exact spots.symbol) unreported
    (by rw [own]; exact keeps)
  rw [same] at silent
  have clean := parseTokens_clean (stream_within context.file _) silent
  have inner : (parserOf (front ++ (dotted [qualifier] ++ back)) context).isAtEnd = false := by
    cases ended : (parserOf (front ++ (dotted [qualifier] ++ back)) context).isAtEnd with
    | false => rfl
    | true =>
      rw [parseTokens_of_ended ended] at found
      cases found
  have inner' : (parserOf (front ++ (dotted segments ++ back)) context).isAtEnd = false := by
    rw [twin.isAtEnd, inner]
  rw [parseTokens_program inner] at found
  rw [parseTokens_final inner] at clean
  cases found
  -- Their runs
  obtain ⟨-, meets⟩ := (Grammar.program_trails _ _).forward clean (by rw [place]; exact spares)
  have meeting := meets twin trivial
  obtain ⟨found', same'⟩ := parseText_eq (front ++ (dotted segments ++ back)) context
  rw [parseTokens_program inner', ← parserOf] at found'
  rw [parseTokens_final inner', ← parserOf] at same'
  refine ⟨_, found', same'.trans meeting.steps.twin.calm.clean.diagnostics, ?_⟩
  rw [← place]
  exact meeting.value

theorem deeper_qualifier_parsed_sum :
    let source := "x = f y M.+ z".toList
    let deeper := "x = f y M.N.P.+ z".toList
    let place : Span := ⟨.single, ⟨0, 8⟩, ⟨0, 9⟩⟩
    ∃ program other, (parseText source {}).1 = some program ∧
      (parseText source {}).2.diagnostics = #[] ∧ (Node.program program).Spares place ∧
      (parseText deeper {}).1 = some other ∧ (parseText deeper {}).2.diagnostics = #[] ∧
      other.sketch Name.bare = program.sketch (.deepened place 3) := by
  intro source deeper place
  have silent : (parseText source {}).2.diagnostics = #[] := by decide +kernel
  have found : (parseText source {}).1.any (fun program =>
      (Node.program program).everyTo (Node.sparesTo place 9) 9 &&
        ((Node.program program).below [0, 1, 0]).any (Node.joins place)) = true := by
    decide +kernel
  obtain ⟨program, parsed, known⟩ := (Option.any_eq_true _ _).1 found
  rw [Bool.and_eq_true, Option.any_eq_true] at known
  obtain ⟨spared, owner, reached, joins⟩ := known
  obtain ⟨last, span, child, symbol, kind⟩ := Node.exists_name_of_joins joins
  have spares := Node.spares_of_test spared
  have front : Span.ofText .single "x = f y ".toList "M".toList = place := by decide +kernel
  obtain ⟨other, parsed', silent', same⟩ :=
    @deeper_qualifier_parsed "x = f y ".toList "M".toList "+ z".toList {}
      ["M".toList, "N".toList, "P".toList] program owner last span parsed silent
      (Node.inside_of_below reached) kind (by rw [front]; exact child) symbol
      (by rw [front]; exact spares) (by decide +kernel) (by decide +kernel) (by decide)
      (by decide +kernel) (by decide +kernel)
  exact ⟨program, other, parsed, silent, spares, parsed', silent', by rw [← front]; exact same⟩

/-- A text of which nothing is reported, with operands that are joined by a symbol which the segment at
a place qualifies. -/
structure IsJoined (source : List Char) (place : Span) : Prop where
  silent : (parseText source {}).2.diagnostics = #[]
  joined : ∃ (program : Program) (owner : Node), (parseText source {}).1 = some program ∧
    owner.Inside (.program program) ∧ owner.joins place = true

theorem isJoined_of_below {place : Span} (path : List Nat)
    (silent : (parseText source {}).2.diagnostics = #[])
    (found : (parseText source {}).1.any (fun program =>
      ((Node.program program).below path).any (Node.joins place)) = true) :
    IsJoined source place := by
  obtain ⟨program, parsed, known⟩ := (Option.any_eq_true _ _).1 found
  obtain ⟨owner, reached, joins⟩ := (Option.any_eq_true _ _).1 known
  exact ⟨silent, program, owner, parsed, Node.inside_of_below reached, joins⟩

/-- Behind a block and in a pattern the operator is looked for by two tokens alone: with one segment
more it is reported. -/
theorem deeper_qualifier_reported :
    let block := "x = do { y } M.+ z".toList
    let deeperBlock := "x = do { y } M.N.+ z".toList
    let pattern := "f (x M.: y) = x".toList
    let deeperPattern := "f (x M.N.: y) = x".toList
    let behindBlock : Span := ⟨.single, ⟨0, 13⟩, ⟨0, 14⟩⟩
    let inPattern : Span := ⟨.single, ⟨0, 5⟩, ⟨0, 6⟩⟩
    IsJoined block behindBlock ∧ KeepsLayout .single behindBlock 2 block deeperBlock ∧
      (parseText deeperBlock {}).2.diagnostics = #[⟨.unexpectedToken, behindBlock⟩] ∧
      IsJoined pattern inPattern ∧ KeepsLayout .single inPattern 2 pattern deeperPattern ∧
      (parseText deeperPattern {}).2.diagnostics = #[⟨.unexpectedToken, inPattern⟩] :=
  ⟨isJoined_of_below [0, 1, 0] (by decide +kernel) (by decide +kernel), by decide +kernel,
    by decide +kernel, isJoined_of_below [0, 1, 0] (by decide +kernel) (by decide +kernel),
    by decide +kernel, by decide +kernel⟩

end Haskell

end Offside
