import Offside.Proofs.Deepening.Rounds

/-!
Names at the fork. A qualified name comes out of the second run with the segments of the deeper
qualifier, whoever reads it segment by segment. Only the operators that are looked for by two tokens
are missed there, and such an operator the first run returns with the qualifier in front.
-/

namespace Offside

set_option autoImplicit false

open Offside.Parser

namespace Parser.Detour

variable {detour : Detour} {first second : Name}

abbrev names (detour : Detour) : Name → Name := Name.deepened detour.fork detour.depth

abbrev segments (detour : Detour) : Name → List Name :=
  Name.deepenedSegment detour.fork detour.depth

@[simp] abbrev SameName (detour : Detour) (first second : Name) : Prop := second.bare = detour.names first

/-- A segment for which one segment stands. -/
structure SameSegment (detour : Detour) (first second : Name) : Prop where
  name : detour.SameName first second
  segment : detour.segments first = [second.bare]

theorem sameSegment_iff :
    detour.SameSegment first second ↔
      second.bare = detour.names first ∧ detour.segments first = [second.bare] :=
  ⟨fun same => ⟨same.name, same.segment⟩, fun same => ⟨same.1, same.2⟩⟩

theorem SameSegment.simple {span other : Span} (apart : span ≠ detour.fork)
    (same : other.blank = span.blank) : detour.SameSegment (.simple span) (.simple other) := by
  simp [sameSegment_iff, Name.deepened, Name.deepenedSegment, apart, same]

theorem SameSegment.operator {span other : Span} (same : other.blank = span.blank) :
    detour.SameSegment (.operator span) (.operator other) := by
  simp [sameSegment_iff, Name.deepened, Name.deepenedSegment, same]

theorem SameSegment.special {span other : Span} (same : other.blank = span.blank) :
    detour.SameSegment (.special span) (.special other) := by
  simp [sameSegment_iff, Name.deepened, Name.deepenedSegment, same]

theorem segments_ne_nil (detour : Detour) (name : Name) : detour.segments name ≠ [] := by
  have positive := detour.positive
  cases name with
  | simple span =>
    rw [segments, Name.deepenedSegment]
    split
    · simpa using Nat.ne_of_gt positive
    · simp
  | _ => simp [Name.deepenedSegment]

theorem span_of_mem_segments {name segment : Name} (member : segment ∈ detour.segments name) :
    segment.span = name.span.blank := by
  cases name with
  | simple span =>
    rw [segments, Name.deepenedSegment] at member
    split at member
    · rw [List.eq_of_mem_replicate member]
      rfl
    · rw [List.mem_singleton.1 member]
      rfl
  | _ =>
    rw [List.mem_singleton.1 member]
    exact Name.span_moved _

theorem ends_alike {found opposite : List Name} {head last head' last' : Name}
    (same : opposite.map Name.bare = found.flatMap detour.segments)
    (isHead : found.head? = some head) (isLast : found.getLast? = some last)
    (isHead' : opposite.head? = some head') (isLast' : opposite.getLast? = some last') :
    head'.span.blank = head.span.blank ∧ last'.span.blank = last.span.blank := by
  constructor
  · obtain ⟨later, rfl⟩ := List.head?_eq_some_iff.1 isHead
    obtain ⟨later', rfl⟩ := List.head?_eq_some_iff.1 isHead'
    obtain ⟨segment, more, split⟩ := List.exists_cons_of_ne_nil (detour.segments_ne_nil head)
    rw [List.flatMap_cons, split, List.map_cons, List.cons_append, List.cons.injEq] at same
    have member : segment ∈ detour.segments head := by
      rw [split]
      exact List.mem_cons_self
    rw [← span_of_mem_segments member, ← same.1, Name.span_moved]
  · obtain ⟨front, rfl⟩ := List.getLast?_eq_some_iff.1 isLast
    obtain ⟨front', rfl⟩ := List.getLast?_eq_some_iff.1 isLast'
    have split := (List.dropLast_append_getLast (detour.segments_ne_nil last)).symm
    have member := List.getLast_mem (detour.segments_ne_nil last)
    rw [List.flatMap_append, List.flatMap_singleton, split, ← List.append_assoc, List.map_append,
      List.map_singleton] at same
    rw [← span_of_mem_segments member, ← (List.append_singleton_inj.1 same).2, Name.span_moved]

/-- Several segments make a qualified name if they are of one file. -/
theorem ofSegments_of_several {found : List Name} {head last : Name} (several : 1 < found.length)
    (isHead : found.head? = some head) (isLast : found.getLast? = some last) :
    Name.ofSegments found =
      if head.span.file = last.span.file then
        .ok (.qualified found (head.span.through last.span))
      else .error (.filesDiffer head.span.file last.span.file) := by
  match found, several with
  | first :: second :: later, _ =>
    obtain rfl : first = head := by simpa using isHead
    have ends : (second :: later).getLast (List.cons_ne_nil _ _) = last := by
      rw [List.getLast?_cons_cons, List.getLast?_eq_some_getLast (List.cons_ne_nil _ _)] at isLast
      exact Option.some.inj isLast
    rw [Haskell.Grammar.ofSegments_several, ends, Span.join]
    split <;> rfl

theorem ofSegments_alike {found opposite : List Name} {name : Name}
    (same : opposite.map Name.bare = found.flatMap detour.segments)
    (alone : ∀ segment other, found = [segment] → opposite = [other] →
      detour.SameName segment other)
    (made : Name.ofSegments found = .ok name) :
    ∃ other, Name.ofSegments opposite = .ok other ∧ detour.SameName name other := by
  match found, made with
  | [], made =>
    obtain rfl : opposite = [] := by simpa using same
    cases made
    exact ⟨_, rfl, rfl⟩
  | [segment], made =>
    cases made
    rw [List.flatMap_singleton] at same
    by_cases one : ∃ other, opposite = [other]
    · obtain ⟨other, rfl⟩ := one
      exact ⟨other, rfl, alone _ other rfl rfl⟩
    · -- only for the qualifier itself several segments stand
      have several : ∃ span, name = .simple span ∧ span = detour.fork := by
        cases name with
        | simple span =>
          refine ⟨span, rfl, Classical.byContradiction fun apart => one ?_⟩
          rw [segments, Name.deepenedSegment, if_neg apart] at same
          obtain ⟨other, rfl, -⟩ := List.map_eq_singleton_iff.1 same
          exact ⟨other, rfl⟩
        | _ =>
          obtain ⟨other, rfl, -⟩ := List.map_eq_singleton_iff.1 same
          exact absurd ⟨other, rfl⟩ one
      obtain ⟨span, rfl, rfl⟩ := several
      rw [segments, Name.deepenedSegment, if_pos rfl] at same
      have length := congrArg List.length same
      rw [List.length_map, List.length_replicate] at length
      have several := detour.several
      have some : opposite ≠ [] := List.ne_nil_of_length_pos (by omega)
      have places : ∀ other ∈ opposite, other.span.blank = detour.fork.blank := by
        intro other member
        have among : other.bare ∈ opposite.map Name.bare := List.mem_map_of_mem member
        rw [same] at among
        have bare := congrArg Name.span (List.eq_of_mem_replicate among)
        rwa [Name.span_moved] at bare
      have first := places _ (List.head_mem some)
      have last := places _ (List.getLast_mem some)
      refine ⟨_, (ofSegments_of_several (by omega) (List.head?_eq_some_head some)
        (List.getLast?_eq_some_getLast some)).trans
          (if_pos (Span.blank_eq_iff.1 (first.trans last.symm))), ?_⟩
      simp [Name.deepened, same, first]
  | first :: second :: later, made =>
    have several : 1 < opposite.length := by
      have length := congrArg List.length same
      rw [List.length_map, List.length_flatMap, List.map_cons, List.map_cons, List.sum_cons,
        List.sum_cons] at length
      have one := List.length_pos_of_ne_nil (detour.segments_ne_nil first)
      have two := List.length_pos_of_ne_nil (detour.segments_ne_nil second)
      omega
    have some : opposite ≠ [] := List.ne_nil_of_length_pos (by omega)
    have some' : first :: second :: later ≠ [] := List.cons_ne_nil _ _
    have isHead' := List.head?_eq_some_head some
    have isLast' := List.getLast?_eq_some_getLast some
    have isHead := List.head?_eq_some_head some'
    have isLast := List.getLast?_eq_some_getLast some'
    obtain ⟨heads, lasts⟩ := ends_alike same isHead isLast isHead' isLast'
    rw [ofSegments_of_several (by simp) isHead isLast] at made
    split at made
    · rename_i oneFile
      cases made
      refine ⟨_, (ofSegments_of_several several isHead' isLast').trans (if_pos ?_), ?_⟩
      · rw [Span.blank_eq_iff.1 heads, Span.blank_eq_iff.1 lasts, oneFile]
      · simp [Name.deepened, same, heads]
    · cases made

theorem Twin.elsewhere {left right : Parser} (twin : detour.Twin left right)
    (apart : ¬detour.AtFork left)
    (named : left.ahead = .identifier ∨ left.ahead = .properIdentifier) :
    left.aheadSpan ≠ detour.fork := by
  obtain ⟨behind, whole⟩ := exists_sight left
  obtain ⟨behind', whole'⟩ := exists_sight right
  have sees := twin.sees
  rw [whole, whole'] at sees
  cases sees with
  | ended ended =>
    rw [show left.ahead = _ from ended] at named
    simp at named
  | further inner elsewhere => exact elsewhere named
  | fork comments place below =>
    cases below with
    | step proper => exact absurd ⟨proper, place⟩ apart

end Parser.Detour

namespace Haskell.Grammar

open Offside.Parse Offside.Parser.Detour

variable {detour : Detour} {given needs : Prop} {left right : Parser}

theorem nameAt_apply {token : Token} (inner : token ≠ .endOfInput) (parser : Parser) :
    nameAt token parser =
      if parser.ahead = token then (.simple parser.aheadSpan, parser.consume)
      else (.error parser.aheadSpan, parser.fail) := by
  have expected := expect_apply inner parser
  have asked : Parse.aheadSpan parser = (parser.aheadSpan, parser) := rfl
  rw [nameAt, bind_apply, asked, bind_apply, expected]
  split <;> rfl

theorem nameAt_spoils {token : Token} (inner : token ≠ .endOfInput) {parser : Parser}
    (missing : parser.ahead ≠ token) : ¬(nameAt token parser).2.Clean := by
  rw [nameAt_apply inner, if_neg missing]
  exact fail_spoils parser

theorem nameAt_trails {token : Token} (named : token = .identifier ∨ token = .properIdentifier)
    (left right : Parser) :
    Shadows detour (¬detour.AtFork left) detour.SameSegment (nameAt token) (nameAt token) left
      right := by
  have inner : token ≠ .endOfInput := by
    rcases named with rfl | rfl <;> decide
  by_cases found : left.ahead = token
  · have known := nameAt_apply inner left
    rw [if_pos found] at known
    constructor
    · rw [known]
      exact clean_of_consume
    · rw [known]
      refine fun _ _ => ⟨trivial, fun twin apart => ?_⟩
      rw [nameAt_apply inner, if_pos (twin.ahead.trans found)]
      exact ⟨twin.consume (by rwa [found]) apart,
        .simple (twin.elsewhere apart (by rwa [found])) twin.blank⟩
  · exact .unclean (nameAt_spoils inner found)

theorem properIdentifier_trails (left right : Parser) :
    Shadows detour (¬detour.AtFork left) detour.SameSegment properIdentifier properIdentifier left
      right :=
  nameAt_trails (.inr rfl) left right

theorem variableIdentifier_trails : Follows detour detour.SameSegment variableIdentifier := by
  intro left right
  by_cases found : left.ahead = .identifier
  · exact (nameAt_trails (.inl rfl) left right).knowing
      fun _ => apart_of_ahead (by rw [found]; decide)
  · exact .unclean (nameAt_spoils (by decide) found)

theorem symbolOf_trails {isKind : Token → Bool} {build : Span → Name}
    (free : ∀ token, isKind token = true → token.isFree = true)
    (same : ∀ {span other : Span}, other.blank = span.blank →
      detour.SameSegment (build span) (build other)) :
    Follows detour detour.SameSegment (do
      let span ← Parse.aheadSpan
      if isKind (← Parse.ahead) then
        Parse.consume
        return build span
      else
        Parse.fail
        return .error span) := by
  intro left right
  refine .aheadSpan (.ahead ?_)
  split
  · rename_i found
    refine .consume (free _ found) fun mirror => ?_
    exact .pure (fun _ => trivial) fun known => same known.2
  · exact .fail fun _ => id

theorem free_of_constructorOperator {token : Token} (found : token.isConstructorOperator = true) :
    token.isFree = true := by
  cases token <;> first | rfl | cases found

theorem variableSymbol_trails : Follows detour detour.SameSegment variableSymbol :=
  symbolOf_trails (fun token found => by cases token <;> first | rfl | cases found) .operator

theorem constructorSymbol_trails : Follows detour detour.SameSegment constructorSymbol :=
  symbolOf_trails (fun _ => free_of_constructorOperator) .special

theorem symbol_trails : Follows detour detour.SameSegment symbol := by
  intro left right
  unfold symbol
  refine .ahead ?_
  split
  · exact constructorSymbol_trails left right
  · exact variableSymbol_trails left right

theorem eitherIdentifier_trails (left right : Parser) :
    Shadows detour (¬detour.AtFork left) detour.SameSegment eitherIdentifier eitherIdentifier left
      right := by
  unfold eitherIdentifier
  refine .isAt (fun _ => ?_) fun _ => ?_
  · exact (variableIdentifier_trails left right).presuming
  · exact properIdentifier_trails left right

theorem qualifiers_trails (left right : Parser) :
    Shadows detour True
      (fun found opposite => opposite.map Name.bare = found.flatMap detour.segments)
      (many qualifierFollows qualifier) (many qualifierFollows qualifier) left right where
  backward := mends qualifiers_stays
  forward := by
    refine fun clean _ => ⟨trivial, fun twin _ => ?_⟩
    obtain ⟨steps, names, -⟩ := qualifiers_steps twin clean
    exact ⟨steps, names⟩

theorem ofSegments_trails {found opposite : List Name}
    (same : given → opposite.map Name.bare = found.flatMap detour.segments)
    (alone : given → ∀ segment other, found = [segment] → opposite = [other] →
      detour.SameName segment other) :
    Shadows detour given detour.SameName (ofSegments found) (ofSegments opposite) left right := by
  unfold ofSegments
  cases made : Name.ofSegments found with
  | error fault => exact .unclean (raise_spoils left fault)
  | ok name =>
    refine ⟨id, fun _ _ => ⟨trivial, fun twin premise => ?_⟩⟩
    obtain ⟨other, made', alike⟩ := ofSegments_alike (same premise) (alone premise) made
    rw [made']
    exact ⟨.refl twin, alike⟩

theorem segments_trails {qualifiers opposites : List Name} {last : Parse Name}
    (trails : ∀ left right,
      Shadows detour (¬detour.AtFork left) detour.SameSegment last last left right)
    (same : given → opposites.map Name.bare = qualifiers.flatMap detour.segments)
    (apart : given → ¬detour.AtFork left) :
    Shadows detour given detour.SameName
      (do let name ← last; ofSegments (qualifiers ++ [name]))
      (do let name ← last; ofSegments (opposites ++ [name])) left right := by
  refine .bind_given ((trails left right).knowing apart) fun name name' left right => ?_
  refine (ofSegments_trails ?_ ?_).needing fun _ => by simp
  · rintro ⟨premise, last⟩
    simp [same premise, last.segment]
  · rintro ⟨-, last⟩ segment other single single'
    obtain ⟨-, rfl⟩ := List.append_singleton_inj.1 (single.trans (List.nil_append [segment]).symm)
    obtain ⟨-, rfl⟩ := List.append_singleton_inj.1 (single'.trans (List.nil_append [other]).symm)
    exact last.name

/-- Behind its qualifiers a name is not at the fork. -/
theorem afterQualifiers {α : Type} {linked : α → α → Prop} {next : List Name → Parse α}
    (later : ∀ found opposite left right, Shadows detour
      (opposite.map Name.bare = found.flatMap detour.segments ∧ ¬detour.AtFork left) linked
      (next found) (next opposite) left right) :
    Follows detour linked (many qualifierFollows qualifier >>= next) := fun left right =>
  (Trails.bind_telling (fun _ after => ¬detour.AtFork after) (qualifiers_trails left right)
    (fun twin _ clean => (qualifiers_steps twin clean).2.2) fun found opposite left right =>
      ((later found opposite left right).knowing fun known => ⟨known.1.2, known.2⟩).needing
        fun _ => ⟨trivial, trivial⟩).needing And.left

theorem qualifiedBy_trails {last : Parse Name}
    (trails : ∀ left right,
      Shadows detour (¬detour.AtFork left) detour.SameSegment last last left right) :
    Follows detour detour.SameName (qualifiedBy last) :=
  afterQualifiers fun _ _ _ _ => segments_trails trails And.left And.right

theorem qualifiedIdentifier_trails :
    Follows detour detour.SameName qualifiedIdentifier :=
  qualifiedBy_trails eitherIdentifier_trails

theorem enclosedName_trails {name : Parse Name} {opening closing : Token}
    (found : left.ahead = opening) (free : opening.isFree = true) (closes : closing.isFree = true)
    (trails : Follows detour detour.SameName name) :
    Shadows detour True detour.SameName
      (do
        Parse.consume
        let found ← name
        let _ ← expectOrSkipTo closing
        return found)
      (do
        Parse.consume
        let found ← name
        let _ ← expectOrSkipTo closing
        return found) left right := by
  refine .take found free fun left right => ?_
  refine .bind (trails left right) fun name name' left right => ?_
  refine .expectOrSkipTo closes fun _ left right => ?_
  exact .pure (fun _ => ⟨trivial, trivial⟩) fun known => known.2

theorem segment_trails {last : Parse Name}
    (trails : Follows detour detour.SameSegment last) (left right : Parser) :
    Shadows detour (¬detour.AtFork left) detour.SameSegment last last left right :=
  (trails left right).presuming

theorem parenthesizedSymbol_trails {last : Parse Name} (opened : left.ahead = .openParen)
    (trails : Follows detour detour.SameSegment last) :
    Shadows detour True detour.SameName (parenthesizedSymbol last) (parenthesizedSymbol last) left
      right :=
  enclosedName_trails opened rfl rfl (qualifiedBy_trails (segment_trails trails))

theorem quotedOperator_trails (quoted : left.ahead = .backtick) :
    Shadows detour True detour.SameName quotedOperator quotedOperator left right :=
  enclosedName_trails quoted rfl rfl qualifiedIdentifier_trails

theorem variableName_trails : Follows detour detour.SameName variableName := by
  intro left right
  unfold variableName
  refine .isAt (fun opened => parenthesizedSymbol_trails opened variableSymbol_trails) fun _ => ?_
  exact (variableIdentifier_trails left right).alike fun _ _ same => same.name

theorem laterSegments_stays {kind : Conduct} : Stays kind laterSegments := by
  refine .many ?_ ?_
  · exact .look fun _ => .ite ((Agrees.peek 1).bind fun _ => .pure _) (.pure _)
  · exact Agrees.consume.bind fun _ => properIdentifier_stays

theorem moduleName_trails : Follows detour detour.SameName moduleName := by
  intro left right
  have mending : (moduleName left).2.Clean → left.Clean := mends moduleName_stays
  rw [moduleName_eq] at mending ⊢
  by_cases proper : left.ahead = .properIdentifier
  · refine ⟨mending, fun clean _ => ⟨trivial, fun twin _ => ?_⟩⟩
    obtain ⟨steps, names⟩ := segmentsOfModule_steps twin proper
    have made : Shadows detour True detour.SameName (ofSegments (segmentsOfModule left).1)
        (ofSegments (segmentsOfModule right).1) (segmentsOfModule left).2
        (segmentsOfModule right).2 := by
      refine ofSegments_trails (fun _ => names) fun _ segment other single single' => ?_
      have simple : segment = .simple left.aheadSpan := by
        rw [segmentsOfModule_apply proper, List.cons.injEq] at single
        exact single.1.symm
      rw [single, single', simple, List.flatMap_singleton, Name.deepenedSegment] at names
      -- for the qualifier itself several segments stand
      have apart : left.aheadSpan ≠ detour.fork := by
        intro forked
        have length := congrArg List.length names
        have several := detour.several
        rw [if_pos forked, List.length_replicate, List.length_map, List.length_singleton] at length
        omega
      rw [if_neg apart] at names
      simpa [simple, Name.deepened, apart] using names
    have met := (made.forward clean trivial).2 steps.twin trivial
    exact ⟨steps.trans met.steps, met.value⟩
  · refine .unclean fun clean => nameAt_spoils (by decide) proper ?_
    exact mends laterSegments_stays (mends (ofSegments_stays _) clean)

def SameTerm (detour : Detour) : Term → Term → Prop
  | .operand name, .operand other | .operator name, .operator other => detour.SameName name other
  | _, _ => False

theorem qualifiedTerm_trails : Follows detour (SameTerm detour) qualifiedTerm :=
  afterQualifiers fun found opposite left right => by
    refine .ahead ?_
    have terms : ∀ {last : Parse Name} {make : Name → Term},
        (∀ left right, Shadows detour (¬detour.AtFork left) detour.SameSegment last last left
          right) →
        (∀ name other, detour.SameName name other → SameTerm detour (make name) (make other)) →
        Shadows detour (opposite.map Name.bare = found.flatMap detour.segments ∧
            ¬detour.AtFork left) (SameTerm detour)
          (do let name ← last; return make (← ofSegments (found ++ [name])))
          (do let name ← last; return make (← ofSegments (opposite ++ [name]))) left right := by
      intro last make trails same
      exact .map (segments_trails trails And.left And.right) (fun _ _ _ => trivial) same
    split
    · exact terms (segment_trails symbol_trails) fun _ _ => id
    · exact terms eitherIdentifier_trails fun _ _ => id

end Haskell.Grammar

/-!
The lookups of an operator at the fork. Two tokens tell whether a qualified operator is next, and only
if it has one qualifier. What such a lookup returns in the first run is led by the qualifier that is
written deeper in the second, so it is seen in the tree where a lookup was made at the fork.
-/

namespace Haskell.Grammar

open Offside.Parse Offside.Parser.Detour

variable {detour : Detour} {given needs : Prop} {left right : Parser} {isKind : Token → Bool}

section Qualified

theorem qualifies_above (twin : detour.Twin left right) (forked : detour.AtFork left)
    (other : isKind .properIdentifier = false) : qualifies isKind right.upcoming = false := by
  obtain ⟨last, lasts, other', others, -, above, -⟩ := exists_fork twin forked
  obtain ⟨count, several⟩ : ∃ count, detour.depth = count + 2 :=
    Nat.exists_eq_add_of_le' detour.several
  rw [several] at above
  cases whole : right.sight with
  | nil =>
    rw [whole] at above
    cases above
  | cons first later =>
    rw [whole] at above
    cases above with
    | step _ _ _ _ _ _ _ _ _ higher =>
      cases higher with
      | step proper =>
        have third := upcoming_of_sight right 2 (congrArg (·[2]?) whole)
        simp [qualifies, third, proper, other]

theorem qualifierFollows_of_fork (twin : detour.Twin left right) (forked : detour.AtFork left) :
    (qualifierFollows left).1 = true ∧ (qualifierFollows right).1 = true := by
  obtain ⟨last, lasts, other, others, below, above, -⟩ := exists_fork twin forked
  have positive := detour.positive
  have follows : ∀ {count : Nat} {parser : Parser} {last : Seen} {rest : List Seen},
      Climbs detour.fork.file count parser.sight (last :: rest) → 0 < count →
      parser.buffered.length ≤ 2 → (qualifierFollows parser).1 = true := by
    intro count parser last rest climbs positive short
    generalize whole : parser.sight = sight at climbs
    cases climbs with
    | top => cases positive
    | step proper place isDot placeDot qualified close closeNext touches touchesNext higher =>
      generalize tops : last :: rest = top at higher
      subst tops
      exact (climb_one whole (.step proper place isDot placeDot qualified close closeNext touches
        touchesNext higher) short).1
  exact ⟨follows below Nat.one_pos twin.short,
    follows above positive (by rw [twin.buffered]; exact twin.short)⟩

theorem qualifierFollows_alike (twin : detour.Twin left right) :
    (qualifierFollows right).1 = (qualifierFollows left).1 := by
  by_cases forked : detour.AtFork left
  · obtain ⟨one, two⟩ := qualifierFollows_of_fork twin forked
    rw [one, two]
  · rw [(qualifierFollows_tells left.upcoming left rfl).2,
      (qualifierFollows_tells right.upcoming right rfl).2]
    exact qualifies_alike twin forked

theorem qualifiedSymbolFollows_state (isKind : Token → Bool) (parser : Parser) :
    (qualifiedSymbolFollows isKind parser).2 =
      if (qualifierFollows parser).1 then ((qualifierFollows parser).2.peek 2).2
      else (qualifierFollows parser).2 := by
  rw [qualifiedSymbolFollows, bind_apply]
  split <;> rfl

theorem qualifiedSymbolFollows_steps (isKind : Token → Bool) (twin : detour.Twin left right) :
    detour.Steps left right (qualifiedSymbolFollows isKind left).2
      (qualifiedSymbolFollows isKind right).2 := by
  have first := qualifierFollows_steps twin
  rw [qualifiedSymbolFollows_state, qualifiedSymbolFollows_state, qualifierFollows_alike twin]
  split
  · rename_i follows
    obtain ⟨stands, told⟩ := qualifierFollows_tells left.upcoming left rfl
    rw [follows] at told
    simp only [qualifies, true_eq_decide_iff] at told
    generalize (qualifierFollows left).2 = looked at *
    rw [← stands] at told
    refine first.trans (first.twin.peek (by decide) (by decide) ?_)
    refine first.twin.three_of_inner ?_ (by rw [told.2.1]; decide)
    rw [show looked.ahead = .properIdentifier from told.1]
    decide
  · exact first

end Qualified

section Rules

variable {α β : Type} {spares : α → Parser → Prop} {linked : α → β → Prop}

/-- A qualified symbol is looked for where that tells the same in both runs. -/
theorem trails_qualifiedSymbolFollows
    (named : ∀ token, isKind token = true → isQualified token = true) {next : Bool → Parse α}
    {other : Bool → Parse β}
    (alike : detour.Twin left right → given →
      qualifies isKind right.upcoming = qualifies isKind left.upcoming)
    (later : ∀ middle mirror, middle.upcoming = left.upcoming →
      Trails detour given needs spares linked (next (qualifies isKind left.upcoming))
        (other (qualifies isKind left.upcoming)) middle mirror) :
    Trails detour given needs spares linked (qualifiedSymbolFollows isKind >>= next)
      (qualifiedSymbolFollows isKind >>= other) left right := by
  obtain ⟨stands, told⟩ := qualifiedSymbolFollows_tells named left.upcoming left rfl
  have goesOn := later _ (qualifiedSymbolFollows isKind right).2 stands
  rw [← told] at goesOn
  constructor
  · exact fun clean => mends (qualifiedSymbolFollows_stays _) (goesOn.backward clean)
  · intro clean spared
    obtain ⟨needed, trails⟩ := goesOn.forward clean spared
    refine ⟨needed, fun twin premise => ?_⟩
    have steps := qualifiedSymbolFollows_steps isKind twin
    have told' := (qualifiedSymbolFollows_tells named right.upcoming right rfl).2
    rw [bind_apply _ other, told', alike twin premise, ← told]
    have ended := trails steps.twin premise
    exact ⟨steps.trans ended.steps, ended.value⟩

theorem trails_quotedFollows {token : Token} {next : Bool → Parse α} {other : Bool → Parse β}
    (later : ∀ found middle mirror, middle.upcoming = left.upcoming →
      (found = true → middle.ahead = .backtick) →
      Trails detour given needs spares linked (next found) (other found) middle mirror) :
    Trails detour given needs spares linked (quotedFollows token >>= next)
      (quotedFollows token >>= other) left right := by
  unfold quotedFollows
  simp only [Trails.bind_assoc_iff]
  refine .isAt (fun quoted => ?_) fun _ => ?_
  · simp only [if_true, Trails.bind_assoc_iff]
    refine .peek (.inl rfl) (by rw [quoted]; rfl) fun middle mirror stands => ?_
    simp only [Trails.pure_bind_iff]
    refine later _ _ _ stands fun _ => ?_
    rw [ahead_of_upcoming stands, quoted]
  · exact later false left right rfl (by simp)

end Rules

theorem qualified_of_operator (token : Token) (found : token.isOperator = true) :
    isQualified token = true := by
  simp [isQualified, found]

theorem qualified_of_constructorOperator (token : Token)
    (found : token.isConstructorOperator = true) : isQualified token = true :=
  qualified_of_operator token (by cases token <;> first | rfl | cases found)

@[simp] abbrev SameOption (detour : Detour) (found other : Option Name) : Prop :=
  other.map Name.bare = found.map detour.names

theorem trails_option {α β : Type} {spares : α → Parser → Prop} {linked : α → β → Prop}
    (found found' : Option Name) {first : Option Name → Parse α} {second : Option Name → Parse β}
    (alike : given → SameOption detour found found')
    (absent : found = none → Trails detour given needs spares linked (first none) (second none) left
      right)
    (present : ∀ name name', found = some name → (given → detour.SameName name name') →
      Trails detour given needs spares linked (first (some name)) (second (some name')) left right) :
    Trails detour given needs spares linked (first found) (second found') left right := by
  cases found with
  | none =>
    refine .rewrite (fun premise => ?_) (absent rfl)
    rw [Option.map_eq_none_iff.1 (alike premise)]
  | some name =>
    cases found' with
    | none =>
      have never : ¬given := fun premise => by simpa using alike premise
      exact .unlike never (present name default rfl fun premise => (never premise).elim)
    | some name' => exact present name name' rfl fun premise => by simpa using alike premise

theorem found_trails {spares : Option Name → Parser → Prop} {linked : Name → Name → Prop}
    {name : Parse Name} (trails : Shadows detour given linked name name left right)
    (same : ∀ first second, linked first second → detour.SameName first second) :
    Trails detour given True spares (SameOption detour) (do return some (← name))
      (do return some (← name)) left right :=
  trails.map (fun _ _ _ => trivial) fun _ _ alike => congrArg some (same _ _ alike)

/-- Wherever the fork is not next an operator is looked for alike. -/
theorem operator?_apart :
    Shadows detour (¬detour.AtFork left) (SameOption detour) operator? operator? left right := by
  unfold operator?
  refine .ahead ?_
  split
  · exact found_trails (symbol_trails left right).presuming fun _ _ same => same.name
  · refine trails_qualifiedSymbolFollows qualified_of_operator
      (fun twin apart => qualifies_alike twin apart) fun middle mirror stands => ?_
    split
    · exact found_trails (qualifiedBy_trails (segment_trails symbol_trails) middle mirror).presuming
        fun _ _ => id
    · split
      · rename_i quoted
        exact found_trails (quotedOperator_trails
          ((ahead_of_upcoming stands).trans quoted)).presuming fun _ _ => id
      · exact .pure (fun _ => trivial) fun _ => rfl

/-- Where a qualifier follows it is the first of those that are read. -/
theorem leading_qualifier {parser : Parser} (follows : (qualifierFollows parser).1 = true) :
    ∃ later, (many qualifierFollows qualifier parser).1 = .simple parser.aheadSpan :: later := by
  have stands := (qualifierFollows_tells parser.upcoming parser rfl).1
  have here := aheadSpan_of_upcoming stands
  have read : ∀ parser, (qualifier parser).1 = .simple parser.aheadSpan := fun _ => rfl
  rw [many_unroll, follows, if_pos rfl, read, here]
  split
  · exact ⟨_, rfl⟩
  · exact ⟨[], rfl⟩

theorem led_of_qualifier {last : Parse Name} {parser : Parser}
    (follows : (qualifierFollows parser).1 = true) (clean : (qualifiedBy last parser).2.Clean) :
    (qualifiedBy last parser).1.isLedBy parser.aheadSpan = true := by
  obtain ⟨later, first⟩ := leading_qualifier follows
  unfold qualifiedBy at clean ⊢
  rw [bind_apply, first, bind_apply] at clean ⊢
  generalize (last (many qualifierFollows qualifier parser).2).1 = name at *
  have several : 1 < (Name.simple parser.aheadSpan :: (later ++ [name])).length := by simp
  rw [List.cons_append, ofSegments, ofSegments_of_several several rfl
    (List.getLast?_eq_some_getLast (List.cons_ne_nil _ _))] at clean ⊢
  split
  · exact decide_eq_true (rfl : parser.aheadSpan = parser.aheadSpan)
  · rename_i differ
    rw [if_neg differ] at clean
    exact absurd clean (raise_spoils _ _)

/-- What looks for two tokens and then reads a name finds one that is led by what it saw first. -/
theorem found_of_qualifies {last : Parse Name} {otherwise : Parse (Option Name)} {parser : Parser}
    (named : ∀ token, isKind token = true → isQualified token = true)
    (follows : qualifies isKind parser.upcoming = true)
    (clean : ((do
      if ← qualifiedSymbolFollows isKind then return some (← qualifiedBy last)
      else otherwise) parser).2.Clean) :
    ∃ name, ((do
      if ← qualifiedSymbolFollows isKind then return some (← qualifiedBy last)
      else otherwise) parser).1 = some name ∧ name.isLedBy parser.aheadSpan = true := by
  obtain ⟨stands, told⟩ := qualifiedSymbolFollows_tells named parser.upcoming parser rfl
  rw [bind_apply, told, follows, if_pos rfl] at clean ⊢
  generalize (qualifiedSymbolFollows isKind parser).2 = looked at *
  have again : (qualifierFollows looked).1 = true := by
    rw [(qualifierFollows_tells looked.upcoming looked rfl).2, stands]
    simp only [qualifies, decide_eq_true_eq] at follows ⊢
    exact ⟨follows.1, follows.2.1, named _ follows.2.2.1, follows.2.2.2⟩
  refine ⟨_, rfl, ?_⟩
  rw [← aheadSpan_of_upcoming stands]
  exact led_of_qualifier again clean

theorem qualifies_of_fork (twin : detour.Twin left right) (forked : detour.AtFork left) :
    qualifies Token.isOperator left.upcoming = true := by
  obtain ⟨last, lasts, other, others, below, -, symbol, -⟩ := exists_fork twin forked
  cases whole : left.sight with
  | nil =>
    rw [whole] at below
    cases below
  | cons first later =>
    rw [whole] at below
    cases below with
    | step proper place isDot placeDot qualified close closeNext touches touchesNext higher =>
      cases higher with
      | top =>
        have one := upcoming_of_sight left 0 (congrArg (·[0]?) whole)
        have two := upcoming_of_sight left 1 (congrArg (·[1]?) whole)
        have three := upcoming_of_sight left 2 (congrArg (·[2]?) whole)
        simp [qualifies, one, two, three, proper, isDot, symbol, touches, touchesNext]

/-- An operator is looked for alike, unless it is the one that is written deeper: that one is found by
the first run alone, and may be found only if nothing is known against it. -/
theorem operator?_trails {block : Prop} :
    Trails detour (left.ahead = .properIdentifier → block) True
      (fun found _ => ∀ name ∈ found, name.isLedBy detour.fork = true → ¬block)
      (SameOption detour) operator? operator? left right := by
  by_cases forked : detour.AtFork left
  · have apart : Trails detour _ _ _ _ _ _ left right := operator?_apart
    refine ⟨apart.backward, fun clean spared => ⟨trivial, fun twin blocked => ?_⟩⟩
    have other : ¬left.ahead.isOperator = true := by
      rw [show left.ahead = _ from forked.1]
      decide
    have known : operator? left = (do
        if ← qualifiedSymbolFollows Token.isOperator then return some (← qualifiedBy symbol)
        else if left.ahead = .backtick then return some (← quotedOperator)
        else return none : Parse (Option Name)) left := by
      unfold operator?
      rw [ahead_bind_apply, if_neg other]
    rw [known] at clean spared
    obtain ⟨name, found, led⟩ :=
      found_of_qualifies qualified_of_operator (qualifies_of_fork twin forked) clean
    rw [show left.aheadSpan = detour.fork from forked.2] at led
    exact absurd (blocked forked.1) (spared name found led)
  · exact operator?_apart.mono (fun _ => forked) (fun _ => id) (fun _ _ => trivial) fun _ _ _ => id

theorem variableOperator?_trails :
    Follows detour (SameOption detour) variableOperator? := by
  intro left right
  unfold variableOperator?
  refine .ahead ?_
  split
  · exact found_trails (variableSymbol_trails left right) fun _ _ same => same.name
  · refine trails_quotedFollows fun found middle mirror stands quoted => ?_
    cases found with
    | true => exact found_trails (quotedOperator_trails (quoted rfl)) fun _ _ => id
    | false => exact .pure (fun _ => trivial) fun _ => rfl

/-- No constructor operator is next that the first run finds at the fork. -/
def ClearOf (detour : Detour) (parser : Parser) : Prop :=
  detour.AtFork parser → qualifies Token.isConstructorOperator parser.upcoming = false

theorem qualifies_of_clear (twin : detour.Twin left right) (clear : ClearOf detour left) :
    qualifies Token.isConstructorOperator right.upcoming =
      qualifies Token.isConstructorOperator left.upcoming := by
  by_cases forked : detour.AtFork left
  · rw [qualifies_above twin forked rfl, clear forked]
  · exact qualifies_alike twin forked

/-- A constructor operator is looked for alike unless it is the one at the fork. -/
theorem constructorOperator?_clear :
    Shadows detour (ClearOf detour left) (SameOption detour) constructorOperator?
      constructorOperator? left right := by
  unfold constructorOperator?
  refine .ahead ?_
  split
  · exact found_trails (constructorSymbol_trails left right).presuming fun _ _ same => same.name
  · refine trails_qualifiedSymbolFollows qualified_of_constructorOperator qualifies_of_clear
      fun middle mirror stands => ?_
    split
    · exact found_trails (qualifiedBy_trails (segment_trails constructorSymbol_trails) middle
        mirror).presuming fun _ _ => id
    · refine trails_quotedFollows fun found middle mirror _ quoted => ?_
      cases found with
      | true => exact found_trails (quotedOperator_trails (quoted rfl)).presuming fun _ _ => id
      | false => exact .pure (fun _ => trivial) fun _ => rfl

/-- A qualified constructor operator that is looked for is found. -/
theorem constructorOperator?_of_qualifies {parser : Parser}
    (follows : qualifies Token.isConstructorOperator parser.upcoming = true)
    (clean : (constructorOperator? parser).2.Clean) :
    ∃ name, (constructorOperator? parser).1 = some name ∧
      name.isLedBy parser.aheadSpan = true := by
  have other : ¬parser.ahead.isConstructorOperator = true := by
    simp only [qualifies, decide_eq_true_eq] at follows
    rw [show parser.ahead = _ from follows.1]
    decide
  have known : constructorOperator? parser = (do
      if ← qualifiedSymbolFollows Token.isConstructorOperator then
        return some (← qualifiedBy constructorSymbol)
      else if ← quotedFollows .properIdentifier then return some (← quotedOperator)
      else return none : Parse (Option Name)) parser := by
    unfold constructorOperator?
    rw [ahead_bind_apply, if_neg other]
  rw [known] at clean ⊢
  exact found_of_qualifies qualified_of_constructorOperator follows clean

theorem clearOf_of_unled {parser : Parser}
    (spared : ∀ name ∈ (constructorOperator? parser).1, name.isLedBy detour.fork = false)
    (clean : (constructorOperator? parser).2.Clean) : ClearOf detour parser := by
  intro forked
  by_contra follows
  obtain ⟨name, found, led⟩ := constructorOperator?_of_qualifies (by simpa using follows) clean
  rw [show parser.aheadSpan = detour.fork from forked.2, spared name found] at led
  cases led

theorem constructorOperator?_trails (left right : Parser) :
    Trails detour True (ClearOf detour left)
      (fun found _ => ∀ name ∈ found, name.isLedBy detour.fork = false)
      (SameOption detour) constructorOperator? constructorOperator? left right := by
  have apart : Trails detour _ _ _ _ _ _ left right := constructorOperator?_clear
  refine ⟨apart.backward, fun clean spared => ?_⟩
  have clear := clearOf_of_unled spared clean
  exact ⟨clear, fun twin _ => (apart.forward clean trivial).2 twin clear⟩

end Haskell.Grammar

end Offside
