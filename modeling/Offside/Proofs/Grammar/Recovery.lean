import Offside.Proofs.Grammar.Programs
import Offside.Proofs.Parser.Skipping

/-!
Recovery between the items of a module body. After a declaration the rest of its item is skipped up to
the next separator outside braces, so a declaration that stops within its item, outside the braces of
the item, leaves the next item whole. Nothing keeps a declaration from passing the separator: then the
next item is lost.
-/

namespace Offside

set_option autoImplicit false

open Offside.Lexical Offside.Parser

namespace Parse

variable {α : Type} {more : Parse Bool} {item : Parse α} {parser going : Parser}

theorem many_of_stop (stops : more parser = (false, going)) :
    many more item parser = ([], going) := by
  rw [many_unroll, stops, if_neg Bool.false_ne_true]

theorem many_of_step (goes : more parser = (true, going))
    (progress : (item going).2.remaining < parser.remaining) :
    many more item parser =
      ((item going).1 :: (many more item (item going).2).1, (many more item (item going).2).2) := by
  rw [many_unroll, goes, if_pos rfl, if_pos progress]

end Parse

namespace Haskell.Grammar

open Offside.Parse

variable {files : FileId → Prop} {parser : Parser}

/-- An item of a block as it is written: at least one token, braces balanced, no separator outside
them. -/
structure Item where
  first : Token × Span
  others : List (Token × Span)
  closed : isClosed 0 (first :: others) = true

namespace Item

def tokens (item : Item) : List (Token × Span) := item.first :: item.others

def start (item : Item) : Position := item.first.2.start

theorem closed_tokens (item : Item) : isClosed 0 item.tokens = true := item.closed

theorem goesOn (item : Item) : itemEnds.contains item.first.1 = false := by
  have closed := item.closed
  simp only [isClosed, Bool.and_eq_true, Bool.not_eq_true', decide_true, Bool.true_and] at closed
  exact closed.1

end Item

/-- The tokens of the items of a block, each further one after its separator, and of the brace after
them. -/
def blockTokens (closing : Span) : Item → List (Span × Item) → List (Token × Span)
  | item, [] => item.tokens ++ [(.closeBrace, closing)]
  | item, (separator, next) :: later =>
    item.tokens ++ (.semicolon, separator) :: blockTokens closing next later

def importsAt (importing : Bool) (parser : Parser) : Bool :=
  importing && decide (parser.ahead = .kwImport)

def itemDecl (importing : Bool) (parser : Parser) : Parse Decl :=
  if importsAt importing parser then importDecl else topDecl

def afterDecl (importing : Bool) (parser : Parser) : Parser :=
  (itemThenEnd (itemDecl importing parser) parser).2

/-- Every declaration but the last stops within its item, and no further item follows the last. -/
def Contained (closing : Span) : Bool → Item → List (Span × Item) → Parser → Prop
  | importing, _, [], parser => (itemFollows (afterDecl importing parser)).1 = false
  | importing, item, (separator, next) :: later, parser =>
    (itemDecl importing parser parser).2.StopsIn item.tokens
      ((.semicolon, separator) :: blockTokens closing next later) ∧
    Contained closing (importsAt importing parser) next later (afterDecl importing parser)

def bodyDecls (importing : Bool) (parser : Parser) : List Decl :=
  if importing then
    let imports := many (isAt .kwImport) (itemThenEnd importDecl) parser
    imports.1 ++ (many itemFollows (itemThenEnd topDecl) imports.2).1
  else (many itemFollows (itemThenEnd topDecl) parser).1

theorem program_decls (brace : parser.ahead = .openBrace) :
    (program parser).1.decls = bodyDecls true parser.consume := by
  have noHeader : moduleHeader? parser = ([], parser) := by
    change (if decide (parser.ahead = .kwModule) = true then _ else _ : Parse (List Decl)) parser = _
    rw [if_neg (by simp [brace])]
    rfl
  have body : moduleBody? parser = moduleBody parser := by
    change (if decide (parser.ahead = .openBrace) = true then _ else _ : Parse (List Decl)) parser = _
    rw [if_pos (by simpa using brace)]
  change (moduleHeader? parser).1 ++ (moduleBody? (moduleHeader? parser).2).1 = _
  rw [noHeader, body]
  rfl

theorem skipped_of_end {tokens : List (Token × Span)}
    (ends : ∀ found ∈ tokens.head?, itemEnds.contains found.1 = true) :
    skipped 0 tokens = tokens := by
  cases tokens with
  | nil => rfl
  | cons found later => rw [skipped, if_pos ⟨rfl, ends found rfl⟩]

theorem head?_rest (parser : Parser) :
    ∀ found ∈ parser.rest.head?, found = (parser.ahead, parser.aheadSpan) := by
  intro found member
  cases ended : parser.isAtEnd with
  | true =>
    rw [(rest_eq_nil_iff parser).2 ended] at member
    cases member
  | false =>
    rw [rest_consume ended] at member
    exact (Option.some.inj member).symm

/-- The separators and what was left of the item before them are gone. -/
theorem endOfItem_rest {further : Nat} (parser : Parser) :
    Ends files further endOfItem parser fun _ after => after.rest = afterItem parser.rest := by
  have here : parser.ahead ∈ itemEnds ∨ parser.isAtEnd = true →
      (parser.skipAll .semicolon).rest = afterItem parser.rest := by
    intro stands
    rw [rest_skipAll, afterItem, skipped_of_end]
    intro found member
    rcases stands with isEnd | ended
    · rw [head?_rest parser found member]
      simpa using isEnd
    · rw [(rest_eq_nil_iff parser).2 ended] at member
      cases member
  unfold endOfItem
  simp only [ends_ahead]
  split
  · rename_i found
    exact Ends.modify (Leads.skipAll _ _) (here (Or.inl (by rw [found]; decide)))
  · rename_i found
    exact Ends.modify (Leads.skipAll _ _) (here (Or.inl (by rw [found]; decide)))
  · rename_i found
    exact Ends.modify (Leads.skipAll _ _) (here (Or.inr (by simp [Parser.isAtEnd, found])))
  · apply Ends.reportUnexpected
    intro _
    apply Ends.skipToAny
    intro _
    apply Ends.modify (Leads.skipAll _ _)
    rw [rest_skipAll, afterItem, ← rest_reportUnexpected parser, ← rest_skipToAny]
    rfl

theorem itemDecl_ends (importing : Bool) (parser : Parser) :
    Ends files nestingLimit (itemDecl importing parser) parser
      (Decl.Backed parser.aheadSpan) := by
  unfold itemDecl importsAt
  split
  · rename_i imports
    simp only [Bool.and_eq_true, decide_eq_true_eq] at imports
    exact importDecl_ends (isAtEnd_of_ahead (by decide) imports.2)
  · exact topDecl_ends parser

theorem afterDecl_leads (importing : Bool) (ready : parser.Ready files nestingLimit) :
    Leads files parser (afterDecl importing parser) ∧
      (afterDecl importing parser).rest = afterItem (itemDecl importing parser parser).2.rest := by
  obtain ⟨leads, _⟩ := itemDecl_ends importing parser ready
  obtain ⟨goesOn, rest⟩ := endOfItem_rest _ (leads.ready ready)
  exact ⟨leads.trans goesOn, rest⟩

theorem afterDecl_progress (importing : Bool) (ready : parser.Ready files nestingLimit)
    (follows : (itemFollows parser).1 = true) :
    (afterDecl importing parser).remaining < parser.remaining := by
  have item : Ends files nestingLimit (itemDecl importing parser) parser fun decl after =>
      after.Accounts decl.errors :=
    (itemDecl_ends importing parser).mono fun _ _ _ backed => backed.accounted
  have progress := (itemThenEnd_ends (stable_accounts Decl.errors) item ready).2.2
  simp only [itemFollows_apply, Bool.not_eq_true', Bool.or_eq_false_iff,
    decide_eq_false_iff_not] at follows
  exact progress follows.1 follows.2

theorem itemFollows_eq {follows : Bool} (answer : (itemFollows parser).1 = follows) :
    itemFollows parser = (follows, parser) := by
  rw [← answer, itemFollows_apply]

theorem isAt_of_ne {token : Token} (other : parser.ahead ≠ token) :
    isAt token parser = (false, parser) := by
  change (decide (parser.ahead = token), parser) = _
  rw [decide_eq_false other]

theorem bodyDecls_of_end (importing : Bool) (ended : (itemFollows parser).1 = false) :
    bodyDecls importing parser = [] := by
  have none : many itemFollows (itemThenEnd topDecl) parser = ([], parser) :=
    many_of_stop (itemFollows_eq ended)
  unfold bodyDecls
  split
  · have noImport : parser.ahead ≠ .kwImport := by
      intro found
      rw [itemFollows_apply] at ended
      simp [Parser.isAtEnd, found] at ended
    simp only [many_of_stop (isAt_of_ne noImport), none, List.append_nil]
  · rw [none]

/-- An item that follows is read by its production, and the others come after it. -/
theorem bodyDecls_of_item (importing : Bool) (ready : parser.Ready files nestingLimit)
    (follows : (itemFollows parser).1 = true) :
    bodyDecls importing parser =
      (itemDecl importing parser parser).1 ::
        bodyDecls (importsAt importing parser) (afterDecl importing parser) := by
  have progress := afterDecl_progress importing ready follows
  have goes := itemFollows_eq follows
  cases importing with
  | false =>
    have step := many_of_step goes progress
    exact congrArg Prod.fst step
  | true =>
    by_cases found : parser.ahead = .kwImport
    · have imports : importsAt true parser = true := by simp [importsAt, found]
      have isImport : isAt .kwImport parser = (true, parser) := by
        change (decide (parser.ahead = .kwImport), parser) = _
        rw [decide_eq_true found]
      have known : itemDecl true parser = importDecl := by rw [itemDecl, if_pos imports]
      rw [afterDecl, known] at progress ⊢
      have step := many_of_step isImport progress
      rw [imports]
      simp only [bodyDecls, if_true, step, List.cons_append]
      rfl
    · have imports : importsAt true parser = false := by simp [importsAt, found]
      have known : itemDecl true parser = topDecl := by
        rw [itemDecl, if_neg (by rw [imports]; exact Bool.false_ne_true)]
      rw [afterDecl, known] at progress ⊢
      have step := many_of_step goes progress
      rw [imports]
      simp only [bodyDecls, if_true, many_of_stop (isAt_of_ne found), step, List.nil_append]
      rfl

/-- Tokens left at two times are the same once they begin at the same place. -/
theorem eq_of_suffix_of_start {tokens left right : List (Token × Span)}
    {first second : Token × Span} (distinct : (tokens.map fun found => found.2.start).Nodup)
    (leftSuffix : first :: left <:+ tokens) (rightSuffix : second :: right <:+ tokens)
    (same : first.2.start = second.2.start) : first :: left = second :: right := by
  have ordered : ∀ {first second : Token × Span} {left right : List (Token × Span)},
      second :: right <:+ tokens → first :: left <:+ second :: right →
      first.2.start = second.2.start → first :: left = second :: right := by
    intro first second left right whole part same
    rcases List.suffix_cons_iff.1 part with equal | later
    · exact equal
    · have nodup := (whole.map fun found => found.2.start).sublist.nodup distinct
      rw [List.map_cons, List.nodup_cons] at nodup
      have member : first ∈ right := later.subset List.mem_cons_self
      exact absurd (List.mem_map.2 ⟨first, member, same⟩) nodup.1
  rcases List.suffix_or_suffix_of_suffix leftSuffix rightSuffix with shorter | longer
  · exact ordered rightSuffix shorter same
  · exact (ordered leftSuffix longer same.symm).symm

theorem blockTokens_cons (closing : Span) (item : Item) (later : List (Span × Item)) :
    ∃ others, blockTokens closing item later = item.first :: others := by
  cases later with
  | nil => exact ⟨_, rfl⟩
  | cons next later => exact ⟨_, rfl⟩

/-- The lookahead at the first token of an item, which is not the end of a block. -/
theorem itemFollows_of_rest {item : Item} {others : List (Token × Span)}
    (rest : parser.rest = item.first :: others) :
    (parser.ahead, parser.aheadSpan) = item.first ∧ (itemFollows parser).1 = true := by
  have ahead := (head?_rest parser item.first (by rw [rest]; rfl)).symm
  refine ⟨ahead, ?_⟩
  have inside : parser.isAtEnd = false := by
    cases ended : parser.isAtEnd with
    | false => rfl
    | true =>
      rw [(rest_eq_nil_iff parser).2 ended] at rest
      cases rest
  have opened : parser.ahead ≠ .closeBrace := by
    intro closed
    have goesOn := item.goesOn
    rw [← ahead] at goesOn
    simp [itemEnds, closed] at goesOn
  rw [itemFollows_apply]
  simp [inside, opened]

/-- The first declaration begins at the first token of its item, so it is the others that matter. -/
theorem starts_cons_iff (importing : Bool) {item : Item} {others : List (Token × Span)}
    (ready : parser.Ready files nestingLimit) (rest : parser.rest = item.first :: others)
    (starts : List Position) :
    (bodyDecls importing parser).map (fun decl => decl.span.start) = item.start :: starts ↔
      (bodyDecls (importsAt importing parser) (afterDecl importing parser)).map
        (fun decl => decl.span.start) = starts := by
  obtain ⟨ahead, follows⟩ := itemFollows_of_rest rest
  have begins := (itemDecl_ends importing parser ready).2.begins
  have located : item.start = parser.aheadSpan.start := by rw [Item.start, ← ahead]
  rw [bodyDecls_of_item importing ready follows, List.map_cons, begins, located, List.cons_inj_right]

theorem starts_eq_nil_iff (importing : Bool) (ready : parser.Ready files nestingLimit) :
    (bodyDecls importing parser).map (fun decl => decl.span.start) = [] ↔
      (itemFollows parser).1 = false := by
  rw [List.map_eq_nil_iff]
  constructor
  · intro none
    cases follows : (itemFollows parser).1 with
    | false => rfl
    | true =>
      rw [bodyDecls_of_item importing ready follows] at none
      cases none
  · exact bodyDecls_of_end importing

theorem start_of_starts {importing : Bool} {place : Position} {starts : List Position}
    (ready : parser.Ready files nestingLimit)
    (found : (bodyDecls importing parser).map (fun decl => decl.span.start) = place :: starts) :
    ∃ others, parser.rest = (parser.ahead, parser.aheadSpan) :: others ∧
      parser.aheadSpan.start = place := by
  cases follows : (itemFollows parser).1 with
  | false =>
    rw [bodyDecls_of_end importing follows] at found
    cases found
  | true =>
    have begins := (itemDecl_ends importing parser ready).2.begins
    rw [bodyDecls_of_item importing ready follows, List.map_cons, begins] at found
    rw [itemFollows_apply] at follows
    simp only [Bool.not_eq_true', Bool.or_eq_false_iff] at follows
    exact ⟨_, rest_consume follows.1, (List.cons.inj found).1⟩

theorem starts_iff_contained (closing : Span) (later : List (Span × Item)) (importing : Bool)
    (item : Item) (parser : Parser) (ready : parser.Ready files nestingLimit)
    (rest : parser.rest = blockTokens closing item later)
    (distinct : (parser.rest.map fun found => found.2.start).Nodup) :
    (bodyDecls importing parser).map (fun decl => decl.span.start) =
        (item :: later.map Prod.snd).map Item.start ↔
      Contained closing importing item later parser := by
  induction later generalizing importing item parser with
  | nil =>
    obtain ⟨others, front⟩ := blockTokens_cons closing item []
    have readyAfter := (afterDecl_leads importing ready).1.ready ready
    rw [List.map_cons, starts_cons_iff importing ready (rest.trans front)]
    exact starts_eq_nil_iff _ readyAfter
  | cons next later induction =>
    obtain ⟨separator, next⟩ := next
    obtain ⟨others, front⟩ := blockTokens_cons closing item ((separator, next) :: later)
    obtain ⟨nextOthers, nextFront⟩ := blockTokens_cons closing next later
    obtain ⟨⟨passed, run⟩, _⟩ := itemDecl_ends importing parser ready
    obtain ⟨leads, restAfter⟩ := afterDecl_leads importing ready
    have readyAfter := leads.ready ready
    -- What is left is always a suffix of what was there, so places tell the tokens.
    have reached : (itemDecl importing parser parser).2.rest <:+
        item.tokens ++ (.semicolon, separator) :: next.first :: nextOthers := by
      refine ⟨passed, ?_⟩
      rw [← run.effect.rest, rest, blockTokens, nextFront]
    have suffix : (afterDecl importing parser).rest <:+ parser.rest := by
      obtain ⟨passed, run⟩ := leads
      exact ⟨passed, run.effect.rest.symm⟩
    have nextSuffix : next.first :: nextOthers <:+ parser.rest := by
      rw [rest, blockTokens, nextFront]
      exact (List.suffix_cons _ _).trans (List.suffix_append _ _)
    have distinctAfter := (suffix.map fun found => found.2.start).sublist.nodup distinct
    have stops := stopsIn_iff item.closed_tokens next.goesOn reached
    rw [List.map_cons, starts_cons_iff importing ready (rest.trans front), List.map_cons,
      Contained, nextFront, stops, ← restAfter]
    constructor
    · intro starts
      obtain ⟨_, restHere, place⟩ := start_of_starts readyAfter starts
      have same : (afterDecl importing parser).rest = next.first :: nextOthers := by
        rw [restHere] at suffix ⊢
        exact eq_of_suffix_of_start distinct suffix nextSuffix place
      exact ⟨same, (induction _ next _ readyAfter (same.trans nextFront.symm) distinctAfter).1
        starts⟩
    · rintro ⟨same, contained⟩
      exact (induction _ next _ readyAfter (same.trans nextFront.symm) distinctAfter).2 contained

def unsupportedKeywords : List Token :=
  [.kwType, .kwData, .kwNewtype, .kwClass, .kwInstance, .kwDefault, .kwForeign, .kwDeriving]

theorem itemDecl_of_unsupported (importing : Bool) (found : parser.ahead ∈ unsupportedKeywords) :
    itemDecl importing parser parser = unsupportedDecl parser := by
  have noImport : parser.ahead ≠ .kwImport := by
    intro isImport
    rw [isImport] at found
    revert found
    decide
  rw [itemDecl, importsAt, decide_eq_false noImport, Bool.and_false, if_neg Bool.false_ne_true,
    topDecl, ahead_bind_apply]
  simp only [unsupportedKeywords, List.mem_cons, List.not_mem_nil, or_false] at found
  rcases found with found | found | found | found | found | found | found | found <;> rw [found]

/-- A declaration that is skipped stops right at the end of its item. -/
theorem rest_of_unsupported (importing : Bool) {item : Item} {ending : Token × Span}
    {later : List (Token × Span)} (found : item.first.1 ∈ unsupportedKeywords)
    (ends : itemEnds.contains ending.1 = true)
    (rest : parser.rest = item.tokens ++ ending :: later) :
    (itemDecl importing parser parser).2.rest = ending :: later := by
  obtain ⟨ahead, follows⟩ := itemFollows_of_rest rest
  have inside : parser.isAtEnd = false := by
    rw [itemFollows_apply] at follows
    simp only [Bool.not_eq_true', Bool.or_eq_false_iff] at follows
    exact follows.1
  have keyword : parser.ahead ∈ unsupportedKeywords := by
    rw [← ahead] at found
    exact found
  have others : parser.consume.rest = item.others ++ ending :: later := by
    rw [rest_consume inside, ahead] at rest
    exact (List.cons.inj rest).2
  have closed : isClosed 0 item.others = true := by
    have whole := item.closed
    simp only [isClosed, Bool.and_eq_true] at whole
    have outside : braceDepthAfter 0 item.first.1 = 0 := by
      apply braceDepthAfter_of_other
      · intro opens
        rw [opens] at found
        revert found
        decide
      · intro closes
        rw [closes] at found
        revert found
        decide
    rw [outside] at whole
    exact whole.2
  rw [itemDecl_of_unsupported importing keyword]
  change (parser.consume.skipToAny itemEnds 0).rest = _
  rw [rest_skipToAny, others, skipped_of_closed ends later item.others 0 closed]

end Haskell.Grammar

end Offside
