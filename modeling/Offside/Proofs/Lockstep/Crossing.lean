import Offside.Proofs.Grammar.Recovery
import Offside.Proofs.Layout.Seam
import Offside.Proofs.Lockstep.Courses

/-!
Texts without a module header. Such a text is one block of imports and declarations. If nothing is
reported, the block is closed at the end of the text, and where every declaration was read to its end
all brackets of the text are nested, those that layout adds among them.
-/

namespace Offside

set_option autoImplicit false

open Offside.Lexical

namespace Haskell.Grammar

open Offside.Parser Offside.Parse

def leadingImports : Parse (List Decl) := many (isAt .kwImport) (itemThenEnd importDecl)

def furtherDecls : Parse (List Decl) := many itemFollows (itemThenEnd topDecl)

def pastDecls (parser : Parser) : Parser := (furtherDecls (leadingImports parser).2).2

def declsOf (parser : Parser) : List Decl :=
  (leadingImports parser).1 ++ (furtherDecls (leadingImports parser).2).1

/-- What is done at the end of a program. -/
def settle (parser : Parser) : Parser :=
  if parser.isAtEnd then parser else parser.reportUnexpected.skipTo .endOfInput

theorem closeBrace_inner : Token.closeBrace ≠ .endOfInput := by decide

variable {parser : Parser}

theorem moduleBody_apply (parser : Parser) :
    moduleBody parser =
      (declsOf parser.consume, (expectOrSkipTo .closeBrace (pastDecls parser.consume)).2) :=
  rfl

theorem moduleHeader?_apply (parser : Parser) :
    moduleHeader? parser =
      if parser.ahead = .kwModule then ([(moduleHeader parser).1], (moduleHeader parser).2)
      else ([], parser) := by
  change (if decide (parser.ahead = .kwModule) = true then _ else _ : Parse (List Decl)) parser = _
  by_cases found : parser.ahead = .kwModule
  · rw [if_pos found, if_pos (decide_eq_true found)]
    rfl
  · rw [if_neg found, if_neg (by simpa using found)]
    rfl

theorem moduleBody?_apply (parser : Parser) :
    moduleBody? parser =
      if parser.ahead = .openBrace then moduleBody parser else ([], parser) := by
  change (if decide (parser.ahead = .openBrace) = true then _ else _ : Parse (List Decl)) parser = _
  by_cases found : parser.ahead = .openBrace
  · rw [if_pos found, if_pos (decide_eq_true found)]
  · rw [if_neg found, if_neg (by simpa using found)]
    rfl

theorem skipToEnd_apply (parser : Parser) : skipToEnd parser = ((), settle parser) := by
  change (if !parser.isAtEnd then _ else _ : Parse Unit) parser = _
  unfold settle
  cases parser.isAtEnd with
  | true => rfl
  | false => rfl

/-- A program is its header and its block, and its span ends where the parser has settled. -/
theorem program_eq (parser : Parser) :
    let header := moduleHeader? parser
    let block := moduleBody? header.2
    program parser =
      (⟨header.1 ++ block.1, (settle block.2).spanFrom parser.aheadSpan⟩, settle block.2) := by
  intro header block
  change (do
      skipToEnd
      return { decls := header.1 ++ block.1
               span := (← spanFrom parser.aheadSpan) } : Parse Program) block.2 = _
  rw [bind_apply, skipToEnd_apply]
  rfl

theorem program_apply (found : parser.ahead = .openBrace) :
    let closed := (expectOrSkipTo .closeBrace (pastDecls parser.consume)).2
    program parser =
      (⟨declsOf parser.consume, (settle closed).spanFrom parser.aheadSpan⟩, settle closed) := by
  intro closed
  have headless : moduleHeader? parser = ([], parser) := by
    rw [moduleHeader?_apply, if_neg (by simp [found])]
  have block : moduleBody? parser = (declsOf parser.consume, closed) := by
    rw [moduleBody?_apply, if_pos found, moduleBody_apply]
  have whole := program_eq parser
  simp only [headless, block, List.nil_append] at whole
  exact whole

theorem program_of_closed (found : parser.ahead = .openBrace)
    (closes : (pastDecls parser.consume).ahead = .closeBrace)
    (ended : (pastDecls parser.consume).consume.isAtEnd = true) :
    ∃ span, program parser =
      (⟨declsOf parser.consume, span⟩, (pastDecls parser.consume).consume) := by
  have closed := expectOrSkipTo_apply closeBrace_inner (pastDecls parser.consume)
  rw [if_pos closes] at closed
  have known := program_apply found
  simp only [closed, settle, ended, if_true] at known
  exact ⟨_, known⟩

/-- If nothing is reported, the block is closed at the end of the text. -/
theorem closed_of_clean (found : parser.ahead = .openBrace) (clean : (program parser).2.Clean) :
    (pastDecls parser.consume).ahead = .closeBrace ∧
      (pastDecls parser.consume).consume.isAtEnd = true := by
  rw [program_apply found] at clean
  have closed := expectOrSkipTo_apply closeBrace_inner (pastDecls parser.consume)
  have ended : (expectOrSkipTo .closeBrace (pastDecls parser.consume)).2.isAtEnd = true := by
    apply Classical.byContradiction
    intro inner
    have skips : Leads (fun _ => True) _ _ := Leads.skipTo .endOfInput
      (expectOrSkipTo .closeBrace (pastDecls parser.consume)).2.reportUnexpected
    rw [settle, if_neg inner] at clean
    exact reportUnexpected_spoils _ (skips.clean clean)
  simp only [settle, ended, if_true] at clean
  by_cases closes : (pastDecls parser.consume).ahead = .closeBrace
  · rw [closed, if_pos closes] at ended
    exact ⟨closes, ended⟩
  · rw [closed, if_neg closes] at clean
    have repairs : Leads (fun _ => True) (pastDecls parser.consume).fail _ :=
      (Leads.skipTo .closeBrace _).trans (Leads.accept closeBrace_inner _)
    exact absurd (repairs.clean clean) (fail_spoils _)

theorem leadingImports_of_none (none : parser.ahead ≠ .kwImport) :
    leadingImports parser = ([], parser) :=
  many_of_stop (isAt_of_ne none)

theorem furtherDecls_of_none (none : parser.ahead = .closeBrace) :
    furtherDecls parser = ([], parser) := by
  have stops := itemFollows_ahead parser
  rw [none] at stops
  exact many_of_stop stops

def IsImport (decl : Decl) : Prop := ∃ imported, decl = .importDecl imported

theorem holds_bind {α β : Type} {first : Parse α} {next : α → Parse β} {holds : β → Prop}
    (later : ∀ value parser, holds (next value parser).1) (parser : Parser) :
    holds ((first >>= next) parser).1 :=
  later _ _

theorem importDecl_isImport (parser : Parser) : IsImport (importDecl parser).1 := by
  unfold importDecl
  apply holds_bind
  intro start parser
  apply holds_bind
  intro _ parser
  apply holds_bind
  intro isQualified parser
  apply holds_bind
  intro name parser
  apply holds_bind
  intro renamedTo parser
  exact holds_bind (fun found parser => ⟨_, rfl⟩) parser

section Mirrored

variable {pairing : Pairing} [lawful : pairing.Lawful] {brackets : List Token}
  {left right : Parser}

theorem leadingImports_keeps (apart : pairing.Apart) :
    Keeps pairing false leadingImports (List.map (Decl.moved pairing.move)) := by
  intro brackets left right
  apply many_isAt_mirrors rfl
  exact fun left right found => (itemThenEnd_mirrors apart (importDecl_mirrors found)).lax

theorem furtherDecls_mirrors (apart : pairing.Apart)
    (allowed : ∀ decl ∈ (furtherDecls left).1, pairing.Loose ∨ IsSupported decl) :
    Mirrors pairing false brackets brackets furtherDecls furtherDecls
      (List.map (Decl.moved pairing.move)) left right := by
  refine many_mirrors_of (fun left right each => ?_) left right allowed
  have first : itemFollows left = (true, left) →
      pairing.Loose ∨ IsSupported (topDecl left).1 := by
    intro follows
    apply each
    rw [oneRound, bind_apply, follows]
    rfl
  rw [itemFollows_ahead] at first
  unfold oneRound itemFollows
  simp only [mirrors_bind_assoc]
  apply Mirrors.ahead_apart apart
  split
  · exact Mirrors.pure rfl
  · exact Mirrors.pure rfl
  · rename_i notBrace notEnd
    have supported := first (by
      rw [startsItem, decide_eq_false notEnd, decide_eq_false notBrace]
      rfl)
    exact (itemThenEnd_mirrors apart (topDecl_mirrors supported)).lax.map fun _ => rfl

end Mirrored

end Haskell.Grammar

namespace Parser

open Offside.Haskell

/-- A run beside itself, in which the brackets that are open are kept track of: what nests after them
is the same at every state. -/
def nesting (left : Option (List Token)) : Pairing where
  move := id
  pairs brackets parser other :=
    other = parser ∧ nestAll brackets (parser.rest.map Prod.fst) = left
  good := Parser.Clean
  seam _ := False

theorem nesting_apart (left : Option (List Token)) : (nesting left).Apart := fun _ _ => id

instance (left : Option (List Token)) : (nesting left).Lawful where
  file := fun _ => rfl
  through := fun _ _ => rfl
  touches := fun _ _ => Iff.rfl
  ahead := by
    rintro brackets parser _ ⟨rfl, -⟩ -
    rfl
  aheadSpan := by
    rintro brackets parser _ ⟨rfl, -⟩ -
    rfl
  atSeam := fun _ seam => seam.elim
  stays := fun _ => id
  good_of_consume := clean_of_consume
  seam_of_leads := fun _ _ seam => seam.elim
  spanFrom := by
    rintro brackets parser _ ⟨rfl, -⟩ start
    rfl
  lexeme := by
    rintro brackets parser _ ⟨rfl, -⟩ -
    rfl
  depth := by
    rintro brackets parser _ ⟨rfl, -⟩
    rfl
  atDepth := by
    rintro brackets parser _ ⟨rfl, nested⟩ depth
    exact ⟨rfl, nested⟩
  good_atDepth := fun _ _ => ⟨fun clean => { clean with }, fun clean => { clean with }⟩
  seam_atDepth := fun _ _ => Iff.rfl
  good_of_leads := fun leads clean => leads.clean clean
  mishap := fun mishap parser clean => absurd clean (mishap.spoils parser)
  consume := by
    rintro before after parser _ ⟨rfl, nested⟩ inner nest -
    rw [rest_consume inner, List.map_cons, nestAll_cons, nest, Option.bind_some] at nested
    exact ⟨⟨rfl, nested⟩, Nat.le_of_eq (Nat.add_comm _ _)⟩
  peek := by
    rintro brackets _ parser distance ⟨rfl, nested⟩ - - reachable -
    have near : 1 ≤ distance ∧ distance ≤ reach := by
      rcases reachable with rfl | ⟨rfl, -⟩ <;> decide
    have run : Run (fun _ => True) parser [] (parser.peek distance).2 := Run.peek near.1 near.2 parser
    have same : parser.rest = (parser.peek distance).2.rest := run.effect.rest
    rw [same] at nested
    exact ⟨⟨Or.inl rfl, fun _ => rfl⟩, ⟨rfl, nested⟩, Nat.le_of_eq (Nat.add_comm _ _)⟩

end Parser

namespace Haskell.Grammar

open Offside.Parser Offside.Parse

/-- If nothing is reported and every declaration is read to its end, all brackets are nested. -/
theorem nested_of_clean {parser : Parser} (found : parser.ahead = .openBrace)
    (clean : (program parser).2.Clean)
    (supported : ∀ decl ∈ declsOf parser.consume, IsSupported decl) :
    nestAll [] (parser.rest.map Prod.fst) = some [] := by
  obtain ⟨closes, ended⟩ := closed_of_clean found clean
  obtain ⟨span, known⟩ := program_of_closed found closes ended
  have cleanEnd : (pastDecls parser.consume).Clean := by
    rw [known] at clean
    exact clean_of_consume clean
  let total := nestAll [] (parser.rest.map Prod.fst)
  have apart : (nesting total).Apart := nesting_apart total
  have inner : parser.isAtEnd = false := isAtEnd_of_ahead (by decide) found
  have opened : (nesting total).pairs [.openBrace] parser.consume parser.consume := by
    refine ⟨rfl, ?_⟩
    change _ = nestAll [] (parser.rest.map Prod.fst)
    rw [rest_consume inner, List.map_cons, nestAll_cons, found]
    rfl
  have decls : Mirrors (nesting total) false [.openBrace] [.openBrace] furtherDecls furtherDecls
      (List.map (Decl.moved id)) (leadingImports parser.consume).2
      (leadingImports parser.consume).2 := by
    apply furtherDecls_mirrors apart
    exact fun decl member => Or.inr (supported decl (List.mem_append_right _ member))
  have cleanImports : (leadingImports parser.consume).2.Clean := decls.backward cleanEnd
  have imports := (leadingImports_keeps apart [.openBrace] parser.consume parser.consume).forward
    opened cleanImports
  have final := (decls.forward imports.steps.pairs cleanEnd).steps.pairs.2
  have rest := rest_consume (isAtEnd_of_ahead closeBrace_inner closes)
  change nestAll [.openBrace] ((pastDecls parser.consume).rest.map Prod.fst) = total at final
  rw [rest, (rest_eq_nil_iff _).2 ended, closes] at final
  exact final.symm

end Haskell.Grammar

/-!
Repetitions across the seam of two runs. The first run ends its items at the closing brace of its text.
The second finds a separator there, skips it with those before it, and goes on to the items of the
further text. So the second run returns the items of the first, and then those that it reads from behind
the seam.
-/

namespace Parser

namespace Course

open Offside.Haskell.Grammar Offside.Parse

variable {course : Course} {left right : Parser}

theorem semicolon_inner : Token.semicolon ≠ .endOfInput := by decide

/-- The second run skips at least as many separators as the first. -/
theorem skipAll_crosses (pairs : course.Pairs left right)
    (good : course.pairing.good (left.skipAll .semicolon)) :
    ∃ opposite, course.Pairs (left.skipAll .semicolon) opposite ∧
      opposite.remaining + left.remaining ≤
        right.remaining + (left.skipAll .semicolon).remaining ∧
      right.skipAll .semicolon = opposite.skipAll .semicolon := by
  fun_induction Parser.skipAll .semicolon left generalizing right with
  | case1 left ended => exact ⟨right, pairs, Nat.le_refl _, rfl⟩
  | case2 left inner found fewer induction =>
    have solid : left.ahead.isBrace = false := by rw [found]; rfl
    have before := before_of_solid pairs solid
    obtain ⟨consumed, progress⟩ := pairs.consume (by rw [found]; exact semicolon_inner) before
    obtain ⟨opposite, goesOn, further, same⟩ := induction consumed good
    have own : right.ahead = .semicolon := (pairs.matched before).token.trans found
    exact ⟨opposite, goesOn, by omega, (skipAll_of_eq semicolon_inner own).trans same⟩
  | case3 left inner absent => exact ⟨right, pairs, Nat.le_refl _, rfl⟩

theorem endsItem_of_clean {parser : Parser} (clean : (endOfItem parser).2.Clean) :
    endsItem parser.ahead = true := by
  apply Classical.byContradiction
  intro other
  rw [endOfItem_apply, if_neg other] at clean
  have leads : Leads (fun _ => True) parser.reportUnexpected _ :=
    (Leads.skipToAny [.semicolon, .closeBrace] 0 _).trans (Leads.skipAll .semicolon _)
  exact reportUnexpected_spoils parser (leads.clean clean)

section Items

variable {α : Type} {item : Parse α} {change : α → α} {brackets : List Token}

/-- The second run skips the separators behind an item, the one at the seam among them. -/
theorem itemThenEnd_crosses
    (mirrors : Mirrors course.pairing true brackets brackets item item change left right)
    (pairs : course.Pairs left right) (good : course.pairing.good (itemThenEnd item left).2) :
    ∃ opposite, course.Pairs (itemThenEnd item left).2 opposite ∧
      opposite.remaining + left.remaining ≤
        right.remaining + (itemThenEnd item left).2.remaining ∧
      itemThenEnd item right =
        (change (itemThenEnd item left).1, opposite.skipAll .semicolon) ∧
      (itemThenEnd item left).2.ahead ≠ .semicolon := by
  have known : ∀ parser, itemThenEnd item parser =
      ((item parser).1, (endOfItem (item parser).2).2) := fun _ => rfl
  rw [known] at good ⊢
  have ends := endsItem_of_clean good.1
  rw [endOfItem_apply, if_pos ends] at good ⊢
  have leads : Leads (fun _ => True) (item left).2 _ := Leads.skipAll .semicolon _
  have mirrored := mirrors.forward pairs
    (Pairing.Lawful.good_of_leads leads good)
  obtain ⟨opposite, goesOn, further, same⟩ := skipAll_crosses mirrored.steps.pairs good
  have progress := mirrored.steps.progress
  have moves : opposite.remaining + left.remaining ≤
      right.remaining + ((item left).2.skipAll .semicolon).remaining := by omega
  refine ⟨opposite, goesOn, moves, ?_, ahead_skipAll_ne semicolon_inner _⟩
  have endsToo : endsItem (item right).2.ahead = true := by
    rcases (Pairs.ahead mirrored.steps.pairs).token with alike | ⟨-, separates⟩
    · rw [show (item right).2.ahead = (item left).2.ahead from alike, ends]
    · rw [show (item right).2.ahead = .semicolon from separates]
      rfl
  rw [known, endOfItem_apply, if_pos endsToo, mirrored.value, same]

variable {more : Parse Bool} {goes : Token → Bool} {allowed : α → Prop}

theorem good_of_many (asks : ∀ parser, more parser = (goes parser.ahead, parser))
    (each : ∀ left right, goes left.ahead = true → allowed (item left).1 →
      Mirrors course.pairing true brackets brackets item item change left right)
    (left : Parser) (all : ∀ value ∈ (many more (itemThenEnd item) left).1, allowed value)
    (good : course.pairing.good (many more (itemThenEnd item) left).2) :
    course.pairing.good left := by
  induction bound : left.remaining using Nat.strong_induction_on generalizing left with
  | _ bound induction =>
    subst bound
    have known := many_apply asks (itemThenEnd item) left
    by_cases follows : goes left.ahead = true
    · rw [if_pos follows] at known
      by_cases progress : (itemThenEnd item left).2.remaining < left.remaining
      · rw [if_pos progress] at known
        rw [known, List.forall_mem_cons] at all
        rw [known] at good
        have next := induction _ progress _ all.2 good rfl
        have ends := endsItem_of_clean next.1
        have leads : Leads (fun _ => True) (item left).2 (endOfItem (item left).2).2 := by
          rw [endOfItem_apply, if_pos ends]
          exact Leads.skipAll .semicolon _
        exact (each left left follows all.1).backward
          (Pairing.Lawful.good_of_leads leads next)
      · rw [if_neg progress] at known
        rw [known] at good
        exact absurd good.1 (raise_spoils _ _)
    · rw [if_neg follows] at known
      rwa [known] at good

/-- Where the items of the first run end at the seam, the second run goes on behind the separator. -/
theorem many_crosses (asks : ∀ parser, more parser = (goes parser.ahead, parser))
    (stops : goes .closeBrace = false)
    (each : ∀ left right, goes left.ahead = true → allowed (item left).1 →
      Mirrors course.pairing true brackets brackets item item change left right)
    (fresh : ∀ seam ∈ course.seam, ∃ seen later, seam.2 = seen :: later ∧ seen.token ≠ .semicolon)
    (left right : Parser) (pairs : course.Pairs left right) (before : course.Before left)
    (all : ∀ value ∈ (many more (itemThenEnd item) left).1, allowed value)
    (good : course.pairing.good (many more (itemThenEnd item) left).2)
    (ends : course.pairing.seam (many more (itemThenEnd item) left).2) :
    ∃ opposite, course.Pairs (many more (itemThenEnd item) left).2 opposite ∧
      many more (itemThenEnd item) right =
        ((many more (itemThenEnd item) left).1.map change ++
            (many more (itemThenEnd item) opposite.consume).1,
          (many more (itemThenEnd item) opposite.consume).2) := by
  induction bound : left.remaining using Nat.strong_induction_on generalizing left right with
  | _ bound induction =>
    subst bound
    have known := many_apply asks (itemThenEnd item) left
    have known' := many_apply asks (itemThenEnd item) right
    have same : right.ahead = left.ahead := (pairs.matched before).token
    by_cases follows : goes left.ahead = true
    · rw [if_pos follows] at known
      rw [same, if_pos follows] at known'
      by_cases progress : (itemThenEnd item left).2.remaining < left.remaining
      · rw [if_pos progress] at known
        rw [known] at all good ends ⊢
        rw [List.forall_mem_cons] at all
        have next := good_of_many asks each _ all.2 good
        obtain ⟨opposite, goesOn, further, crossed, skippedAll⟩ :=
          itemThenEnd_crosses (each left right follows all.1) pairs next
        have fewer : opposite.remaining < right.remaining := by omega
        by_cases atSeam : course.pairing.seam (itemThenEnd item left).2
        · obtain ⟨seam, member, reached⟩ := atSeam
          obtain ⟨closes, separates, -, -, behind⟩ := goesOn.atSeam member reached
          obtain ⟨seen, later, found, other⟩ := fresh seam member
          have next := (ahead_consume (behind.trans found)).1
          have skipped : opposite.skipAll .semicolon = opposite.consume := by
            rw [skipAll_of_eq semicolon_inner separates, skipAll_of_ne (by rwa [next])]
          have less := remaining_consume_lt (isAtEnd_of_ahead semicolon_inner separates)
          have ended := many_apply asks (itemThenEnd item) (itemThenEnd item left).2
          rw [closes, if_neg (by simp [stops])] at ended
          rw [crossed, skipped, if_pos (Nat.lt_trans less fewer)] at known'
          refine ⟨opposite, by rwa [ended], ?_⟩
          rw [known', ended]
          rfl
        · have goesBefore := before_of_notSeam goesOn atSeam
          have same' : opposite.ahead = (itemThenEnd item left).2.ahead :=
            (goesOn.matched goesBefore).token
          have skipped : opposite.skipAll .semicolon = opposite :=
            skipAll_of_ne (by rwa [same'])
          rw [crossed, skipped, if_pos fewer] at known'
          obtain ⟨final, lastPairs, others⟩ :=
            induction _ progress _ _ goesOn goesBefore all.2 good ends rfl
          refine ⟨final, lastPairs, ?_⟩
          rw [known', others]
          rfl
      · rw [if_neg progress] at known
        rw [known] at good
        exact absurd good.1 (raise_spoils _ _)
    · rw [if_neg follows] at known
      rw [known] at ends
      obtain ⟨seam, member, reached⟩ := ends
      exact absurd reached (Nat.ne_of_lt (before seam member))

end Items

/-- The second run goes on behind the seam as if the further text had begun there. -/
theorem body_crosses
    (fresh : ∀ seam ∈ course.seam, ∃ seen later, seam.2 = seen :: later ∧
      seen.token ≠ .semicolon ∧ seen.token ≠ .kwImport)
    (pairs : course.Pairs left right) (before : course.Before left)
    (supported : ∀ decl ∈ declsOf left, IsSupported decl)
    (good : course.pairing.good (pastDecls left)) (ends : course.pairing.seam (pastDecls left)) :
    ∃ opposite, course.Pairs (pastDecls left) opposite ∧
      declsOf right = (declsOf left).map (Decl.moved course.pairing.move) ++
        declsOf opposite.consume ∧
      pastDecls right = pastDecls opposite.consume := by
  have separated : ∀ seam ∈ course.seam, ∃ seen later, seam.2 = seen :: later ∧
      seen.token ≠ .semicolon := by
    intro seam member
    obtain ⟨seen, later, found, other, -⟩ := fresh seam member
    exact ⟨seen, later, found, other⟩
  have imports : ∀ left right : Parser, startsImport left.ahead = true → True →
      Mirrors course.pairing true [] [] importDecl importDecl (Decl.moved course.pairing.move)
        left right :=
    fun left right found _ => importDecl_mirrors (of_decide_eq_true found)
  have decls : ∀ left right : Parser, startsItem left.ahead = true →
      IsSupported (topDecl left).1 →
      Mirrors course.pairing true [] [] topDecl topDecl (Decl.moved course.pairing.move) left
        right :=
    fun left right _ allowed => topDecl_mirrors (Or.inr allowed)
  have supportedLater : ∀ decl ∈ (furtherDecls (leadingImports left).2).1, IsSupported decl :=
    fun decl member => supported decl (List.mem_append_right _ member)
  have goodImports : course.pairing.good (leadingImports left).2 :=
    good_of_many itemFollows_ahead decls _ supportedLater good
  by_cases early : course.pairing.seam (leadingImports left).2
  · -- The first text has nothing but imports.
    obtain ⟨opposite, goesOn, crossed⟩ := many_crosses isAt_import_ahead rfl imports separated
      left right pairs before (fun _ _ => trivial) goodImports early
    change leadingImports right = ((leadingImports left).1.map _ ++
      (leadingImports opposite.consume).1, (leadingImports opposite.consume).2) at crossed
    obtain ⟨seam, member, reached⟩ := early
    have none : furtherDecls (leadingImports left).2 = ([], (leadingImports left).2) :=
      furtherDecls_of_none (goesOn.atSeam member reached).1
    refine ⟨opposite, ?_, ?_, ?_⟩
    · rw [pastDecls, none]
      exact goesOn
    · rw [declsOf, declsOf, declsOf, none, crossed, List.append_nil, List.append_assoc]
    · rw [pastDecls, pastDecls, crossed]
  · have mirrored := (leadingImports_keeps course.pairing.apart_apart [] left right).forward pairs
      ⟨goodImports, early⟩
    have goesOn : course.Pairs (leadingImports left).2 (leadingImports right).2 :=
      mirrored.steps.pairs
    obtain ⟨opposite, final, crossed⟩ := many_crosses itemFollows_ahead rfl decls separated _ _
      goesOn (before_of_notSeam goesOn early) supportedLater good ends
    change furtherDecls (leadingImports right).2 = (List.map _ (furtherDecls _).1 ++
      (furtherDecls opposite.consume).1, (furtherDecls opposite.consume).2) at crossed
    have none : leadingImports opposite.consume = ([], opposite.consume) := by
      obtain ⟨seam, member, reached⟩ := ends
      obtain ⟨seen, later, found, -, other⟩ := fresh seam member
      have behind := (final.atSeam member reached).2.2.2.2
      exact leadingImports_of_none (by rwa [(ahead_consume (behind.trans found)).1])
    refine ⟨opposite, final, ?_, ?_⟩
    · rw [declsOf, declsOf, declsOf, none, crossed, mirrored.value, List.map_append,
        List.append_assoc, List.nil_append]
      rfl
    · rw [pastDecls, pastDecls, none, crossed]

/-- An import at the start of a block is among what is read of it. -/
theorem exists_import {parser : Parser} (found : parser.ahead = .kwImport) :
    ∃ decl ∈ declsOf parser, IsImport decl := by
  have known := many_apply isAt_import_ahead (itemThenEnd importDecl) parser
  refine ⟨(itemThenEnd importDecl parser).1, List.mem_append_left _ ?_, importDecl_isImport parser⟩
  rw [leadingImports, known, if_pos (by simp [startsImport, found])]
  split <;> exact List.mem_cons_self

/-- Where there is no seam both runs read the same to the end of the block. -/
theorem body_to_end (none : course.seam = none) (pairs : course.Pairs left right)
    (clean : (pastDecls left).Clean) :
    declsOf right = (declsOf left).map (Decl.moved course.pairing.move) ∧
      course.Pairs (pastDecls left) (pastDecls right) := by
  have seamless : ∀ parser, ¬course.pairing.seam parser := by
    rintro parser ⟨seam, member, -⟩
    rw [none] at member
    cases member
  have apart : course.pairing.Apart := fun parser _ => seamless parser
  have loose : course.pairing.Loose := ⟨seamless, fun _ _ _ _ pairs => pairs⟩
  have good : course.pairing.good (pastDecls left) := ⟨clean, fun seam member => by
    rw [none] at member
    cases member⟩
  have decls : Mirrors course.pairing false [] [] furtherDecls furtherDecls
      (List.map (Decl.moved course.pairing.move)) (leadingImports left).2
      (leadingImports right).2 :=
    furtherDecls_mirrors apart fun _ _ => Or.inl loose
  have imports := (leadingImports_keeps apart [] left right).forward pairs (decls.backward good)
  have further := decls.forward imports.steps.pairs good
  refine ⟨?_, further.steps.pairs⟩
  rw [declsOf, declsOf, imports.value, further.value, List.map_append]

end Course

end Parser

end Offside
