import Offside.Proofs.Deepening.Texts
import Offside.Proofs.Deepening.Twins
import Offside.Proofs.Lockstep.Composition

/-!
What two parsers have in sight of a text and of the same text with a deeper qualifier. The tokens that
are handed out make up what is in sight of each: in front of the qualifier the same, behind it in
corresponding places, and the qualifier itself is climbed over. What a grammar looks up is the text of a
token, and each token has the same text in both.
-/

namespace Offside

set_option autoImplicit false

open Offside.Lexical

namespace Parser.Detour

variable (detour : Detour) (shift : Position → Position) (valid : Position → Prop)

def shifted (found : Token × Span) : Token × Span :=
  (found.1, ⟨found.2.file, shift found.2.start, shift found.2.stop⟩)

/-- A token inside the first text, outside the qualifier, that may be looked up like the one in its
place in the other. -/
structure Passes (found : Token × Span) : Prop where
  inner : found.1 ≠ .endOfInput
  apart : found.1 = .identifier ∨ found.1 = .properIdentifier → found.2 ≠ detour.fork
  start : valid found.2.start
  stop : valid found.2.stop
  texts : found.1.isLookedUp = true →
    detour.others (shift found.2.start) = detour.texts found.2.start

/-- What is in sight of the rests of two texts behind comments that are already counted. -/
def Opens (comments : Nat) (rest rest' : List (Token × Span)) : Prop :=
  ∃ first firsts second seconds, seenOf comments rest = first :: firsts ∧
    seenOf comments rest' = second :: seconds ∧ detour.Sees (first :: firsts) (second :: seconds) ∧
      valid first.span.start ∧ second.span.start = shift first.span.start

variable {detour shift valid}

theorem opens_end {final : Token × Span} (ended : final.1 = .endOfInput)
    (start : valid final.2.start) (comments : Nat) :
    detour.Opens shift valid comments [final] [shifted shift final] := by
  have other : final.1 ≠ .comment := by rw [ended]; decide
  have other' : (shifted shift final).1 ≠ .comment := other
  refine ⟨⟨comments, final.1, final.2⟩, [], ⟨comments, final.1, (shifted shift final).2⟩, [],
    seenOf_cons other _ _, seenOf_cons other' _ _, .ended ended ?_, start, rfl⟩
  refine ⟨rfl, rfl, rfl, fun lookedUp => ?_⟩
  rw [ended] at lookedUp
  cases lookedUp

/-- By induction on the tokens in front of what is in sight already. -/
theorem opens_through (injective : ∀ one other, valid one → valid other →
      (shift one = shift other ↔ one = other))
    {front rest rest' : List (Token × Span)} (passes : ∀ found ∈ front, detour.Passes shift valid found)
    (opens : ∀ comments, detour.Opens shift valid comments rest rest') (comments : Nat) :
    detour.Opens shift valid comments (front ++ rest) (front.map (shifted shift) ++ rest') := by
  induction front generalizing comments with
  | nil => exact opens comments
  | cons found front induction =>
    rw [List.forall_mem_cons] at passes
    have goes := induction passes.2
    by_cases comment : found.1 = .comment
    · have dropped : ∀ later, seenOf comments (found :: later) = seenOf (comments + 1) later ∧
          seenOf comments (shifted shift found :: later) = seenOf (comments + 1) later :=
        fun later => ⟨if_pos comment, if_pos comment⟩
      obtain ⟨first, firsts, second, seconds, sight, sight', sees⟩ := goes (comments + 1)
      exact ⟨first, firsts, second, seconds, (dropped _).1.trans sight, (dropped _).2.trans sight',
        sees⟩
    · obtain ⟨first, firsts, second, seconds, sight, sight', sees, start, starts⟩ := goes 0
      obtain ⟨inner, apart, own, stop, texts⟩ := passes.1
      refine ⟨⟨comments, found.1, found.2⟩, first :: firsts,
        ⟨comments, found.1, (shifted shift found).2⟩, second :: seconds, ?_, ?_, ?_, own, rfl⟩
      · rw [List.cons_append, seenOf_cons comment, sight]
      · have comment' : (shifted shift found).1 ≠ .comment := comment
        rw [List.map_cons, List.cons_append, seenOf_cons comment', sight']
        rfl
      · refine .further inner apart ⟨rfl, rfl, rfl, texts⟩ ?_ sees
        change shift found.2.stop = second.span.start ↔ _
        rw [starts]
        exact injective _ _ stop start

end Parser.Detour

namespace Haskell

open Offside.Parser

theorem seenOf_tower (file : FileId) {segments : List (List Char)} {start : Position}
    {last : Token × Span} (later : List (Token × Span))
    (qualified : Grammar.isQualified last.1 = true) (here : last.2.start = start.afterAll (dotted segments))
    (comments : Nat) :
    ∃ next more, seenOf comments (tower file start segments ++ last :: later) = next :: more ∧
      next.comments = comments ∧ Grammar.isQualified next.token = true ∧ next.span.start = start := by
  cases segments with
  | nil =>
    have other : last.1 ≠ .comment := by
      intro comment
      rw [comment] at qualified
      cases qualified
    exact ⟨_, _, seenOf_cons other _ _, rfl, qualified, here⟩
  | cons segment further => exact ⟨_, _, seenOf_cons (by simp) _ _, rfl, rfl, rfl⟩

/-- By induction on the segments of a qualifier that are climbed over. -/
theorem climbs_tower (file : FileId) {segments : List (List Char)} {start : Position}
    {last : Token × Span} (later : List (Token × Span))
    (qualified : Grammar.isQualified last.1 = true) (here : last.2.start = start.afterAll (dotted segments))
    {comments : Nat} (below : segments = [] → comments = 0) :
    Parser.Climbs file segments.length
      (seenOf comments (tower file start segments ++ last :: later)) (seenOf 0 (last :: later)) := by
  induction segments generalizing start comments with
  | nil =>
    rw [below rfl]
    exact .top
  | cons segment segments induction =>
    rw [dotted_cons, Position.afterAll_append, Position.afterAll_cons] at here
    have higher := induction here fun _ => rfl
    obtain ⟨next, more, sight, close, named, starts⟩ := seenOf_tower file later qualified here 0
    rw [sight] at higher
    simp only [tower, List.cons_append]
    rw [seenOf_cons (by simp), seenOf_cons (by simp), sight]
    exact .step rfl rfl rfl rfl named rfl close rfl starts.symm higher

/-- At the qualifier one segment is in sight in the first text and all of them in the second. -/
theorem opens_fork {detour : Detour} {start : Position} {qualifier : List Char}
    {segments : List (List Char)} {last last' : Token × Span} {later later' : List (Token × Span)}
    (fork : detour.fork = ⟨detour.fork.file, start, start.afterAll qualifier⟩)
    (depth : detour.depth = segments.length) (symbol : last.1.isOperator = true)
    (here : last.2.start = start.afterAll (dotted [qualifier])) (same : last'.1 = last.1)
    (here' : last'.2.start = start.afterAll (dotted segments))
    (sees : detour.Sees (seenOf 0 (last :: later)) (seenOf 0 (last' :: later'))) (comments : Nat) :
    detour.Opens id (fun _ => True) comments
      (tower detour.fork.file start [qualifier] ++ last :: later)
      (tower detour.fork.file start segments ++ last' :: later') := by
  have qualified : Grammar.isQualified last.1 = true := by simp [Grammar.isQualified, symbol]
  have qualified' : Grammar.isQualified last'.1 = true := by rwa [same]
  have positive := detour.positive
  have below := @climbs_tower detour.fork.file [qualifier] start last later qualified here comments
    fun none => by cases none
  have above := @climbs_tower detour.fork.file segments start last' later' qualified' here' comments
    fun none => by
      rw [depth, none] at positive
      cases positive
  obtain ⟨second, seconds, sight', counted, -, starts⟩ :=
    seenOf_tower detour.fork.file later' qualified' here' comments
  have other : ∀ last : Token × Span, Grammar.isQualified last.1 = true → last.1 ≠ .comment := by
    intro last qualified comment
    rw [comment] at qualified
    cases qualified
  rw [seenOf_cons (other last qualified)] at sees below
  rw [seenOf_cons (other last' qualified')] at sees above
  rw [← depth, sight'] at above
  simp only [tower, List.cons_append] at below
  rw [seenOf_cons (by simp)] at below
  refine ⟨_, _, second, seconds, seenOf_cons (by simp) _ _, sight', ?_, trivial, starts⟩
  exact .fork counted fork.symm below above symbol sees

variable {source other : List Char}

/-- What is recorded of a token that a grammar looks up is what is read there. -/
theorem lexemeAt_visit (context : Context) (file : FileId) {visit : Lexer}
    (member : visit ∈ (Lexer.start source).visits)
    (lookedUp : visit.nextScan.token.isLookedUp = true) :
    (context.absorbAll (reader.stream file source).items).lexemeAt visit.place.position =
      (Lexeme.Category.ofToken? visit.nextScan.token).map
        (⟨·, String.ofList visit.nextText⟩) := by
  have read : visit.nextItem file ∈ sourceReadings file source := by
    rw [sourceReadings, Lexer.readings_eq_visits]
    exact List.mem_map_of_mem member
  exact lexemeAt_read context read lookedUp

theorem recorded_alike (context : Context) (file : FileId) {upper lower : Lexer}
    (member : upper ∈ (Lexer.start source).visits) (member' : lower ∈ (Lexer.start other).visits)
    (scanned : lower.nextScan = upper.nextScan) (text : lower.nextText = upper.nextText)
    (lookedUp : upper.nextScan.token.isLookedUp = true) :
    (context.absorbAll (reader.stream file other).items).lexemeAt lower.place.position =
      (context.absorbAll (reader.stream file source).items).lexemeAt upper.place.position := by
  rw [lexemeAt_visit context file member lookedUp,
    lexemeAt_visit context file member' (by rwa [scanned]), scanned, text]

theorem Lexer.exists_visits (lexer : Lexer) : ∃ later, lexer.visits = lexer :: later := by
  by_cases ended : lexer.nextScan.token = .endOfInput
  · exact ⟨_, visits_of_ended ended⟩
  · exact ⟨_, visits_of_inner ended⟩

theorem exists_opposite {α β : Type} {related : α → β → Prop} {uppers : List α} {lowers : List β}
    (all : List.Forall₂ related uppers lowers) {upper : α} (member : upper ∈ uppers) :
    ∃ lower ∈ lowers, related upper lower := by
  induction all with
  | nil => cases member
  | cons one _ induction =>
    rcases List.mem_cons.1 member with rfl | member
    · exact ⟨_, List.mem_cons_self, one⟩
    · obtain ⟨lower, among, related⟩ := induction member
      exact ⟨lower, List.mem_cons_of_mem _ among, related⟩

/-- What layout adds is looked up by nothing. -/
theorem passes_added {detour : Detour} {shift : Position → Position} {valid : Position → Prop}
    {found : Token × Span} (added : Layout.isAdded found.1 = true) (start : valid found.2.start)
    (stop : valid found.2.stop) : detour.Passes shift valid found := by
  obtain ⟨token, span⟩ := found
  cases token <;> cases added <;>
    exact ⟨by simp, by simp, start, stop, by simp [Token.isLookedUp]⟩

namespace Deepened

variable {front qualifier back : List Char} {segments : List (List Char)} {fork : Lexer}
  (deepened : Deepened front qualifier back segments fork) (context : Context)

/-- The detour that parsers of both texts take at the qualifier. -/
def detour (_ : Deepened front qualifier back segments fork) (context : Context)
    (several : 1 < segments.length) : Detour where
  fork := ⟨context.file, fork.place.position, fork.place.position.afterAll qualifier⟩
  depth := segments.length
  several := several
  texts := (context.absorbAll (reader.stream context.file
    (front ++ (dotted [qualifier] ++ back))).items).lexemeAt
  others := (context.absorbAll (reader.stream context.file
    (front ++ (dotted segments ++ back))).items).lexemeAt

abbrev shift : Position → Position :=
  Position.along deepened.final.cursor.position deepened.final'.cursor.position.column

theorem mem_visits {visit : Lexer} (member : visit ∈ deepened.fronts ∨ visit ∈ deepened.final.visits) :
    visit ∈ (Lexer.start (front ++ (dotted [qualifier] ++ back))).visits := by
  rw [deepened.visits]
  rcases member with member | member <;> simp [member]

theorem mem_visits' {visit : Lexer}
    (member : visit ∈ deepened.fronts' ∨ visit ∈ deepened.final'.visits) :
    visit ∈ (Lexer.start (front ++ (dotted segments ++ back))).visits := by
  rw [deepened.visits']
  rcases member with member | member <;> simp [member]

include deepened in
theorem sound' (forked : Fork front qualifier back fork) :
    ∀ visit ∈ (Lexer.start (front ++ (dotted segments ++ back))).visits,
      visit.nextScan.defect = none := by
  intro lower member
  rw [deepened.visits', List.mem_append, ← List.cons_append, List.mem_append] at member
  rcases member with member | member | member
  · obtain ⟨upper, own, alike⟩ := exists_opposite deepened.alike.flip member
    rw [alike.scanned]
    exact forked.sound upper (deepened.mem_visits (.inl own))
  · exact deepened.reads'.sound lower member
  · obtain ⟨upper, own, along⟩ := exists_opposite deepened.along.visits.flip member
    rw [along.nextScan]
    exact forked.sound upper (deepened.mem_visits (.inr own))

variable (several : 1 < segments.length)

/-- In front of the qualifier both texts have the same tokens in the same places. -/
theorem passes_before : ∀ found ∈ deepened.before context.file,
    (deepened.detour context several).Passes id (fun _ => True) found := by
  intro found member
  rcases List.mem_append.1 member with member | member
  · obtain ⟨written, among, rfl | ⟨added, -⟩⟩ := Layout.mem_spread_at _ member
    · obtain ⟨upper, own, rfl⟩ := List.mem_map.1 among
      obtain ⟨lower, own', alike⟩ := exists_opposite deepened.alike own
      have place : lower.place.position = upper.place.position :=
        congrArg (fun written => written.span.start) (alike.written context.file)
      refine ⟨deepened.inner upper own, fun _ same => ?_, trivial, trivial, fun lookedUp => ?_⟩
      · exact deepened.apart (.inl own) (congrArg Span.start same)
      · have texts := recorded_alike context context.file (deepened.mem_visits (.inl own))
          (deepened.mem_visits' (.inl own')) alike.scanned alike.text lookedUp
        rw [place] at texts
        exact texts
    · exact passes_added added trivial trivial
  · obtain ⟨token, among, rfl⟩ := List.mem_map.1 member
    exact passes_added (Layout.step_added _ _ token among) trivial trivial

/-- Behind the qualifier both texts have the same tokens up to the end of input, in places that
correspond. -/
theorem exists_behind : ∃ inner last, deepened.behind context.file = inner ++ [last] ∧
    last.1 = .endOfInput ∧ deepened.final.cursor.position ≤ last.2.start ∧
      ∀ found ∈ inner, (deepened.detour context several).Passes deepened.shift
        (deepened.final.cursor.position ≤ ·) found := by
  obtain ⟨inner, last, split, ended, others⟩ := Lexer.scanned_split context.file deepened.final
  rw [Lexer.scanned_eq_visits] at split
  have placed : ∀ written ∈ inner ++ [last], ∃ upper ∈ deepened.final.visits,
      written = upper.nextWritten context.file ∧
        written.span.LiesBehind deepened.final.cursor.position ∧
          ∃ lower ∈ deepened.final'.visits,
            upper.Along deepened.final.cursor.position deepened.final'.cursor.position.column
              lower := by
    intro written member
    rw [← split] at member
    obtain ⟨upper, own, rfl⟩ := List.mem_map.1 member
    obtain ⟨lower, own', along⟩ := exists_opposite deepened.along.visits own
    exact ⟨upper, own, rfl, (along.nextWritten context.file).behind, lower, own', along⟩
  have other : last.token ≠ .comment := by rw [ended]; decide
  refine ⟨(deepened.layout context.file).spread inner ++
    (((deepened.layout context.file).past inner).step last).1.map (·, last.span.atStart),
    last.located, ?_, ended, ?_, ?_⟩
  · rw [behind, split, Layout.spread_append, Layout.spread_of_written other, List.append_assoc]
    rfl
  · obtain ⟨-, -, -, behind, -⟩ := placed last (by simp)
    exact behind.start
  · intro found member
    rcases List.mem_append.1 member with member | member
    · obtain ⟨written, among, kind⟩ := Layout.mem_spread_at _ member
      obtain ⟨upper, own, rfl, behind, lower, own', along⟩ :=
        placed written (List.mem_append_left _ among)
      rcases kind with rfl | ⟨added, place⟩
      · refine ⟨others _ among, fun _ same => ?_, behind.start, behind.stop, fun lookedUp => ?_⟩
        · exact deepened.apart (.inr own) (congrArg Span.start same)
        · have texts := recorded_alike context context.file (deepened.mem_visits (.inr own))
            (deepened.mem_visits' (.inr own')) along.nextScan along.nextText lookedUp
          rw [along.place.position] at texts
          exact texts
      · refine passes_added added ?_ ?_ <;> rw [place] <;> exact behind.start
    · obtain ⟨token, among, rfl⟩ := List.mem_map.1 member
      obtain ⟨-, -, -, behind, -⟩ := placed last (by simp)
      exact passes_added (Layout.step_added _ _ token among) behind.start behind.start

variable (forked : Fork front qualifier back fork)

include forked in
theorem place_final : deepened.final.place = deepened.final.cursor := by
  have qualifying := forked.qualifying
  apply Lexer.place_eq_cursor (fun _ => blank_of_symbol)
  rw [deepened.reads.ahead_final forked.here]
  unfold qualifies at qualifying
  split at qualifying
  · rename_i dot
    obtain ⟨first, rest, found, isDot⟩ := Core.exists_cons_of_leads dot
    rw [found, beq_iff_eq.1 isDot]
    rfl
  · exact qualifying

variable (symbol : deepened.final.nextScan.token.isOperator = true)

include forked symbol

/-- Right behind the qualifier comes the operator that it qualifies. -/
theorem exists_operator : ∃ last later, deepened.behind context.file = last :: later ∧
    last.1.isOperator = true ∧ last.2.start = deepened.final.cursor.position := by
  have place := deepened.place_final forked
  let last := deepened.final.nextWritten context.file
  have inLine : last.firstOnLine = false :=
    Lexer.InLine.firstOnLine ⟨by rw [deepened.reads.lastLine, place]⟩ context.file
  have idle : (deepened.layout context.file).opener = none := by
    rw [layout, Layout.step_opener _ (deepened.idle context.file),
      deepened.reads.proper context.file]
    rfl
  have isSymbol : last.token.isOperator = true := symbol
  have quiet : Layout.isQuiet last.token = true := by
    cases found : last.token <;> rw [found] at isSymbol <;> first | rfl | cases isSymbol
  have other : last.token ≠ .comment := by
    intro comment
    rw [comment] at isSymbol
    cases isSymbol
  obtain ⟨later, visits⟩ := Lexer.exists_visits deepened.final
  have none : ((deepened.layout context.file).step last).1 = [] :=
    Layout.step_quiet (Layout.step_started _ _) idle inLine quiet
  refine ⟨last.located, ((deepened.layout context.file).step last).2.spread
    (later.map (Lexer.nextWritten context.file)), ?_, isSymbol, congrArg Cursor.position place⟩
  rw [behind, visits, List.map_cons, Layout.spread_of_written other, none]
  rfl

theorem sees
    (keeps : KeepsLayout context.file (fork.nextWritten context.file).span
      (2 * (segments.length - 1)) (front ++ (dotted [qualifier] ++ back))
      (front ++ (dotted segments ++ back))) :
    (deepened.detour context several).Sees
      (seenIn (reader.stream context.file (front ++ (dotted [qualifier] ++ back))))
      (seenIn (reader.stream context.file (front ++ (dotted segments ++ back)))) := by
  have some : segments ≠ [] := List.ne_nil_of_length_pos (Nat.lt_of_succ_lt several)
  have ahead' : deepened.fork'.place.ahead = dotted segments ++ back := by
    rw [deepened.place]
    rfl
  obtain ⟨last, later, operator, isOperator, here⟩ := deepened.exists_operator context forked symbol
  obtain ⟨inner, final, split, ended, behind, passes⟩ :=
    deepened.exists_behind context several
  have opens := Parser.Detour.opens_through
    (fun _ _ one other => Position.along_inj one other) passes
    (Parser.Detour.opens_end ended behind) 0
  have moved : (deepened.behind context.file).map (Prod.map id deepened.move) =
      inner.map (Parser.Detour.shifted deepened.shift) ++
        [Parser.Detour.shifted deepened.shift final] := by
    rw [split, List.map_append]
    rfl
  rw [← split, ← moved, operator, List.map_cons] at opens
  obtain ⟨first, firsts, second, seconds, sight, sight', goesOn, -, -⟩ := opens
  rw [← sight, ← sight'] at goesOn
  have position' : deepened.final'.cursor.position =
      fork.place.position.afterAll (dotted segments) := by
    rw [deepened.reads'.position_final ahead', deepened.place]
    rfl
  have here' : (Prod.map id deepened.move last).2.start =
      fork.place.position.afterAll (dotted segments) :=
    calc deepened.shift last.2.start
      _ = deepened.shift deepened.final.cursor.position := by rw [here]
      _ = deepened.final'.cursor.position := deepened.along.cursor.position.symm
      _ = fork.place.position.afterAll (dotted segments) := position'
  have same : (Prod.map id deepened.move last).1 = last.1 := rfl
  have unmoving : ∀ one other : Position, True → True → (id one = id other ↔ one = other) :=
    fun _ _ _ _ => Iff.rfl
  have forks : ∀ comments, (deepened.detour context several).Opens id (fun _ => True) comments
      (tower context.file fork.place.position [qualifier] ++ last :: later)
      (tower context.file fork.place.position segments ++
        Prod.map id deepened.move last :: later.map (Prod.map id deepened.move)) :=
    opens_fork rfl rfl isOperator (here.trans (deepened.reads.position_final forked.here)) same
      here' goesOn
  obtain ⟨first, firsts, second, seconds, sight, sight', goesOn, -, -⟩ :=
    Parser.Detour.opens_through unmoving (deepened.passes_before context several) forks 0
  have unmoved : (deepened.before context.file).map (Parser.Detour.shifted id) =
      deepened.before context.file := List.map_id _
  rw [unmoved] at sight'
  rw [seenIn, seenIn, deepened.handed, deepened.handed' some keeps, operator, List.map_cons, sight,
    sight']
  exact goesOn

/-- At their starts the parsers of both texts stand to each other as at any later place. -/
theorem twin (unreported : context.diagnostics = #[])
    (keeps : KeepsLayout context.file (fork.nextWritten context.file).span
      (2 * (segments.length - 1)) (front ++ (dotted [qualifier] ++ back))
      (front ++ (dotted segments ++ back))) :
    (deepened.detour context several).Twin
      (parserOf (front ++ (dotted [qualifier] ++ back)) context)
      (parserOf (front ++ (dotted segments ++ back)) context) := by
  have silent : ∀ item ∈ (reader.stream context.file (front ++ (dotted segments ++ back))).items,
      item.reports = [] := by
    rw [← List.flatMap_eq_nil_iff]
    change reportsOf _ = []
    rw [stream_reports, sourceReadings, Lexer.readings_eq_visits, reportsOf,
      List.flatMap_eq_nil_iff, List.forall_mem_map]
    intro visit member
    simp [Lexer.nextItem, Scan.lexed, deepened.sound' forked visit member]
  have suffix := (pullFrom_pulled
    (reader.stream context.file (front ++ (dotted segments ++ back))) context).suffix
  have sees := deepened.sees context several forked symbol keeps
  obtain ⟨first, firsts, second, seconds, sight, sight'⟩ := sees.exists_cons
  exact
    { sees := by
        rw [sight, sight'] at sees
        rw [parserOf, parserOf, sight_start sight, sight_start sight']
        exact sees.near
      buffered := rfl
      short := Nat.zero_le _
      depth := rfl
      steady := start_steady (stream_settled _ _) context
      calm :=
        { clean := ⟨(diagnostics_pullFrom_silent silent context).trans unreported, rfl, rfl⟩
          silent := fun item member => silent item (suffix.subset member)
          steady := start_steady (stream_settled _ _) context } }

end Deepened

end Haskell

end Offside
