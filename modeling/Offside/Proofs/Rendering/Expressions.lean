import Offside.Proofs.Rendering.Names

/-!
Atoms, operands and chains as they are read back. The arguments of a function end where no atom starts,
or at a qualified operator, which they take along and hand to the chain around. What follows an operand
is therefore said by what the loop over its arguments makes of it.
-/

namespace Offside.Haskell.Core

set_option autoImplicit false

open Offside.Lexical Offside.Parse Offside.Haskell.Grammar

/-- Tokens that end an expression in a bracket or a block, before alternatives or on the left of a bind. -/
def isCloser : Token → Bool
  | .closeParen | .closeBracket | .comma | .closeBrace | .kwOf | .leftArrow => true
  | _ => false

structure Follows (words : List Word) : Prop where
  loose : Loose words
  unaliased : aheadOf words ≠ .atSign

theorem follows_of_ahead {words : List Word} (dot : aheadOf words ≠ .dot)
    (unaliased : aheadOf words ≠ .atSign) : Follows words where
  loose := fun word member dotted => by
    cases words with
    | nil => cases member
    | cons first later =>
      cases member
      exact absurd dotted dot
  unaliased := unaliased

theorem follows_of_startsAtom {words : List Word} (starts : startsAtom (aheadOf words) = true) :
    Follows words := by
  apply follows_of_ahead <;> (intro same; rw [same] at starts; cases starts)

theorem follows_of_operand {words : List Word}
    (starts : startsAtom (aheadOf words) = true ∨ aheadOf words = .minus) : Follows words := by
  apply follows_of_ahead <;>
    (intro same; rw [same] at starts; rcases starts with atom | minus <;> contradiction)

theorem follows_of_closer {words : List Word} (closes : isCloser (aheadOf words) = true) :
    Follows words := by
  apply follows_of_ahead <;> (intro same; rw [same] at closes; cases closes)

/-- The first word of a name has the blank before it that the name has. -/
theorem qualifiedWords_head (token : Token) (text : List Char)
    (qualifiers : List (Spelling isConstructorText)) (gap : Bool) :
    ∃ word later, qualifiedWords token text qualifiers gap = word :: later ∧ word.gap = gap ∧
      (word.token = token ∨ word.token = .properIdentifier) := by
  cases qualifiers with
  | nil => exact ⟨_, _, rfl, rfl, Or.inl rfl⟩
  | cons qualifier others => exact ⟨_, _, rfl, rfl, Or.inr rfl⟩

theorem Infix.words_head (operator : Infix) (gap : Bool) :
    ∃ word later, operator.words gap = word :: later ∧ word.gap = gap ∧
      (word.token.isOperator = true ∨ word.token = .properIdentifier ∨ word.token = .backtick) := by
  cases operator with
  | symbol operator =>
    have known := symbolToken_isOperator operator.symbol.property
    obtain ⟨word, later, split, spaced, kind⟩ :=
      qualifiedWords_head (symbolToken operator.symbol.val) operator.symbol.val
        operator.qualifiers gap
    refine ⟨word, later, split, spaced, ?_⟩
    rcases kind with same | proper
    · exact Or.inl (same ▸ known.operator)
    · exact Or.inr (Or.inl proper)
  | quoted name => exact ⟨_, _, rfl, rfl, Or.inr (Or.inr rfl)⟩

theorem Infix.follows (operator : Infix) (later : List Word) :
    Follows (operator.words true ++ later) := by
  obtain ⟨word, others, split, spaced, kind⟩ := operator.words_head true
  rw [split, List.cons_append]
  constructor
  · intro first member _
    cases member
    exact spaced
  · intro named
    have same : word.token = .atSign := named
    rw [same] at kind
    rcases kind with operator | proper | backtick
    · cases operator
    · cases proper
    · cases backtick

section Operands

variable {file : FileId} {source : List Char} {room : Nat} {words later after middle final : List Word}
  {inner : Level}

structure Stops (file : FileId) (source : List Char) (room : Nat) (inner : Level)
    (words after : List Word) (pending : Option Name → Prop) : Prop where
  parses : Parses file source room words
    (repeatUntil (do return startsAtom (← ahead)) (argument inner)) after
    fun found => found.1 = [] ∧ pending found.2
  within : after.length ≤ words.length

theorem stops_of_ahead (other : startsAtom (aheadOf words) = false) :
    Stops file source room inner words words (· = none) := by
  have asked : Parses file source room words (do return startsAtom (← ahead)) words (· = false) :=
    Parses.ahead rfl (Parses.pure other)
  exact ⟨(parses_repeat_stop asked).mono fun _ found => found ▸ ⟨rfl, rfl⟩, Nat.le_refl _⟩

theorem stops_of_qualified (operator : Operator) (qualified : operator.qualifiers ≠ [])
    (loose : Loose later) :
    Stops file source room inner (operator.words true ++ later) later fun pending =>
      ∃ name, pending = some name ∧ operator.Matches (Span.Shows file source) name := by
  have proper := operator.ahead_qualified qualified true later
  have asked : Parses file source room (operator.words true ++ later)
      (do return startsAtom (← ahead)) (operator.words true ++ later) (· = true) :=
    Parses.ahead proper (Parses.pure rfl)
  have last : Parses file source room (operator.words true ++ later) (argument inner) later
      fun found => ∃ name, found = .inr name ∧ operator.Matches (Span.Shows file source) name := by
    refine Parses.whenAt proper ?_
    refine (operator.parses_term true loose).bind ?_
    rintro _ ⟨name, rfl, matched⟩
    exact Parses.pure ⟨name, rfl, matched⟩
  refine ⟨(parses_repeat_last asked last).mono ?_, ?_⟩
  · rintro _ ⟨name, rfl, matched⟩
    exact ⟨rfl, name, rfl, matched⟩
  · rw [List.length_append]
    exact Nat.le_add_left _ _

theorem isOperator_starts {token : Token} (operator : token.isOperator = true) :
    startsAtom token = false := by
  cases token <;> first | rfl | cases operator

/-- The operator of a chain is found behind an operand, whether its arguments took it along or not. -/
theorem Infix.stops (operator : Infix) (loose : Loose later) :
    ∃ after pending, Stops file source room inner (operator.words true ++ later) after pending ∧
      later.length ≤ after.length ∧ ∀ found, pending found → Parses file source room after (pendingOperator found) later
        fun name => ∃ known, name = some known ∧ operator.Matches (Span.Shows file source) known := by
  by_cases plain : operator.isQualified = false
  · refine ⟨operator.words true ++ later, (· = none), stops_of_ahead ?_, ?_, ?_⟩
    · cases operator with
      | symbol operator =>
        obtain ⟨qualifiers, symbol, apart⟩ := operator
        obtain rfl : qualifiers = [] := by simpa [Infix.isQualified] using plain
        exact isOperator_starts (symbolToken_isOperator symbol.property).operator
      | quoted name => rfl
    · rw [List.length_append]
      exact Nat.le_add_left _ _
    · rintro _ rfl
      exact operator.parses plain true
  · cases operator with
    | quoted name => exact absurd rfl plain
    | symbol operator =>
      have qualified : operator.qualifiers ≠ [] := by simpa [Infix.isQualified] using plain
      refine ⟨later, _, stops_of_qualified operator qualified loose, Nat.le_refl _, ?_⟩
      rintro _ ⟨name, rfl, matched⟩
      exact Parses.pure ⟨name, rfl, matched⟩

end Operands

/-! Atoms and operands, whose parts may be read at a number of further levels. -/

section Reading

variable (spacing : Spacing) (file : FileId) (source : List Char) (further : Nat)

def Atom.IsRead (atom : Atom) : Prop :=
  ∀ gap later, Follows later →
    Parses file source further (atom.words spacing gap ++ later) (Grammar.atom (level further)) later
      (atom.Matches (Span.Shows file source))

def Operand.IsRead : Operand → Prop
  | .applied function arguments | .negated function arguments =>
    function.IsRead spacing file source further ∧
      ∀ atom ∈ arguments, atom.IsRead spacing file source further

def Chain.IsRead : Chain → Prop
  | .operand only => only.IsRead spacing file source further
  | .binary left _ right =>
    left.IsRead ∧ right.IsRead spacing file source further

end Reading

section Operands

variable {spacing : Spacing} {file : FileId} {source : List Char} {further : Nat}
  {later after : List Word} {pending : Option Name → Prop}

theorem Atom.words_head (spacing : Spacing) (atom : Atom) (gap : Bool) :
    ∃ word others, atom.words spacing gap = word :: others ∧ startsAtom word.token = true := by
  cases atom with
  | name name =>
    obtain ⟨word, others, split, -, kind⟩ := qualifiedWords_head (wordToken name.last.val)
      name.last.val name.qualifiers gap
    refine ⟨word, others, split, ?_⟩
    rcases kind with same | proper
    · rw [same, wordToken]
      split <;> rfl
    · rw [proper]
      rfl
  | literal text =>
    refine ⟨_, _, rfl, ?_⟩
    have literal := literalToken_isLiteral (whole_of_literal text.property).1
    revert literal
    cases literalToken text.val <;> first | exact fun _ => rfl | exact fun literal => by cases literal
  | _ => exact ⟨_, _, rfl, rfl⟩

theorem Atom.starts (spacing : Spacing) (atom : Atom) (gap : Bool) (later : List Word) :
    startsAtom (aheadOf (atom.words spacing gap ++ later)) = true := by
  obtain ⟨word, others, split, starts⟩ := atom.words_head spacing gap
  rw [split]
  exact starts

theorem follows_argumentWords (atoms : List Atom) (follows : Follows later) :
    Follows (Atom.argumentWords spacing atoms ++ later) := by
  cases atoms with
  | nil => exact follows
  | cons next others =>
    rw [Atom.argumentWords, List.append_assoc]
    exact follows_of_startsAtom (next.starts spacing true _)

/-- Only a name starts with a proper identifier. -/
theorem Atom.exists_name {atom : Atom} {gap : Bool}
    (proper : aheadOf (atom.words spacing gap ++ later) = .properIdentifier) :
    ∃ name, atom = .name name := by
  cases atom with
  | name name => exact ⟨name, rfl⟩
  | literal text =>
    have literal := literalToken_isLiteral (whole_of_literal text.property).1
    have same : literalToken text.val = .properIdentifier := proper
    rw [same] at literal
    cases literal
  | _ => cases proper

/-- An argument is an atom. A constructor may be the first qualifier of an operator, so it is read as
such. -/
theorem Atom.parses_argument {atom : Atom} (read : atom.IsRead spacing file source further)
    (follows : Follows later) :
    Parses file source further (atom.words spacing true ++ later) (argument (level further)) later
      fun found => ∃ value, found = .inl value ∧ atom.Matches (Span.Shows file source) value := by
  by_cases proper : aheadOf (atom.words spacing true ++ later) = .properIdentifier
  · refine Parses.whenAt proper ?_
    obtain ⟨name, rfl⟩ := Atom.exists_name proper
    refine (name.parses_term true follows.loose).bind ?_
    rintro _ ⟨name, rfl, matched⟩
    exact Parses.pure ⟨_, rfl, name, rfl, matched⟩
  · refine Parses.unlessAt proper ?_
    exact (read true later follows).bind fun value matched => Parses.pure ⟨value, rfl, matched⟩

/-- By induction on the arguments: the loop takes them all and then what stops it. -/
theorem parses_argumentLoop {atoms : List Atom}
    (reads : ∀ atom ∈ atoms, atom.IsRead spacing file source further) (follows : Follows later)
    (stops : Stops file source further (level further) later after pending) :
    Parses file source further (Atom.argumentWords spacing atoms ++ later)
      (repeatUntil (do return startsAtom (← ahead)) (argument (level further))) after
      fun found => Atom.ListMatches (Span.Shows file source) atoms found.1 ∧ pending found.2 := by
  induction atoms with
  | nil => exact stops.parses
  | cons atom others induction =>
    rw [List.forall_mem_cons] at reads
    rw [Atom.argumentWords, List.append_assoc]
    have asked : Parses file source further
        (atom.words spacing true ++ (Atom.argumentWords spacing others ++ later))
        (do return startsAtom (← ahead))
        (atom.words spacing true ++ (Atom.argumentWords spacing others ++ later)) (· = true) :=
      Parses.ahead rfl (Parses.pure (atom.starts spacing true _))
    have fewer : (Atom.argumentWords spacing others ++ later).length <
        (atom.words spacing true ++ (Atom.argumentWords spacing others ++ later)).length := by
      obtain ⟨word, rest, split, -⟩ := atom.words_head spacing true
      rw [split]
      simp only [List.length_append, List.length_cons]
      omega
    refine (parses_repeat_step asked (Atom.parses_argument reads.1 (follows_argumentWords others follows)) fewer
      (induction reads.2)).mono ?_
    rintro _ ⟨value, rest, rfl, matched, further⟩
    exact ⟨⟨value, rest.1, rfl, matched, further.1⟩, further.2⟩

theorem parses_arguments {atoms : List Atom} {function : Expr} {holds : Expr → Prop}
    (reads : ∀ atom ∈ atoms, atom.IsRead spacing file source further) (follows : Follows later)
    (stops : Stops file source further (level further) later after pending) (start : Span)
    (held : holds function) :
    Parses file source further (Atom.argumentWords spacing atoms ++ later)
      (arguments (level further) start function) after fun found =>
        Applies atoms.isEmpty holds (Atom.ListMatches (Span.Shows file source) atoms) found.1 ∧
          pending found.2 := by
  refine (parses_argumentLoop reads follows stops).bind ?_
  rintro ⟨values, operator⟩ ⟨matched, taken⟩
  cases atoms with
  | nil =>
    obtain rfl : values = [] := matched
    exact Parses.pure ⟨held, taken⟩
  | cons atom others =>
    obtain ⟨first, rest, rfl, -⟩ := id matched
    simp only [List.getLast?_cons]
    exact Parses.join fun span => Parses.pure ⟨⟨function, _, span, rfl, held, matched⟩, taken⟩

theorem parses_operand {inner : Level} {room : Nat} {words : List Word} {holds : Grammar.Operand → Prop}
    (starts : startsAtom (aheadOf words) = true)
    (parses : Parses file source room words (application inner) after holds) :
    Parses file source room words (operand inner) after holds := by
  refine Parses.ahead rfl ?_
  generalize aheadOf words = token at starts
  cases token <;> first | exact parses | cases starts

theorem parses_application {function : Atom} {atoms : List Atom}
    (head : function.IsRead spacing file source further)
    (reads : ∀ atom ∈ atoms, atom.IsRead spacing file source further) (follows : Follows later)
    (stops : Stops file source further (level further) later after pending) (gap : Bool) :
    Parses file source further
      (function.words spacing gap ++ (Atom.argumentWords spacing atoms ++ later))
      (application (level further)) after fun found =>
        Applies atoms.isEmpty (function.Matches (Span.Shows file source))
          (Atom.ListMatches (Span.Shows file source) atoms) found.1 ∧ pending found.2 := by
  have behind : Follows (Atom.argumentWords spacing atoms ++ later) :=
    follows_argumentWords atoms follows
  refine Parses.start fun start => ?_
  exact (head gap _ behind).bind fun value matched =>
    parses_arguments reads follows stops start matched

/-- An operand is read together with the operator that its arguments end with, if any. -/
theorem Operand.parses {operand : Operand} (read : operand.IsRead spacing file source further)
    (gap : Bool) (follows : Follows later)
    (stops : Stops file source further (level further) later after pending) :
    Parses file source further (operand.words spacing gap ++ later) (signedOperand (level further))
      after fun found => operand.Matches (Span.Shows file source) found.1 ∧ pending found.2 := by
  cases operand with
  | applied function atoms =>
    have starts := function.starts spacing gap (Atom.argumentWords spacing atoms ++ later)
    rw [Operand.words, List.append_assoc]
    refine Parses.unlessAt ?_ (parses_operand starts
      (parses_application read.1 read.2 follows stops gap))
    intro minus
    rw [minus] at starts
    cases starts
  | negated function atoms =>
    have starts := function.starts spacing spacing.afterSign
      (Atom.argumentWords spacing atoms ++ later)
    rw [Operand.words, List.cons_append, List.append_assoc]
    refine Parses.whenAt rfl (Parses.start fun start => Parses.consume ?_)
    refine (parses_operand starts (parses_application read.1 read.2 follows stops _)).bind ?_
    rintro ⟨value, operator⟩ ⟨matched, taken⟩
    exact Parses.join fun span => Parses.pure ⟨⟨value, span, rfl, matched⟩, taken⟩

theorem Operand.words_head (spacing : Spacing) (operand : Operand) (gap : Bool) :
    ∃ word others, operand.words spacing gap = word :: others ∧
      (startsAtom word.token = true ∨ word.token = .minus) := by
  cases operand with
  | applied function atoms =>
    obtain ⟨word, others, split, starts⟩ := function.words_head spacing gap
    exact ⟨word, others ++ _, by rw [Operand.words, split]; rfl, Or.inl starts⟩
  | negated function atoms => exact ⟨_, _, rfl, Or.inr rfl⟩

/-! Chains: the first operand, and the words behind it. -/

def Chain.first : Chain → Operand
  | .operand only => only
  | .binary left _ _ => left.first

def Chain.tail (spacing : Spacing) : Chain → List Word
  | .operand _ => []
  | .binary left operator right =>
    left.tail spacing ++ (operator.words true ++ right.words spacing true)

theorem Chain.words_eq (spacing : Spacing) (chain : Chain) (gap : Bool) :
    chain.words spacing gap = chain.first.words spacing gap ++ chain.tail spacing := by
  cases chain with
  | operand only => exact (List.append_nil (only.words spacing gap)).symm
  | binary left operator right =>
    rw [Chain.words, left.words_eq, List.append_assoc]
    rfl

theorem Chain.first_isRead (chain : Chain) (read : chain.IsRead spacing file source further) :
    chain.first.IsRead spacing file source further := by
  cases chain with
  | operand only => exact read
  | binary left operator right => exact left.first_isRead read.1

/-- A chain goes on with an operator and an operand that were read. -/
theorem chainFrom_step {inner : Level} {inSection : Bool} {start span : Span} {left right : Expr}
    {pending next : Option Name} {name : Name} {parser going after joined : Parser}
    (operator : pendingOperator pending parser = (some name, going))
    (goesOn : going.ahead ≠ .closeParen)
    (operand : signedOperand inner going = ((right, next), after))
    (made : Parse.join start right.span after = (span, joined))
    (progress : chainRemaining next joined < chainRemaining pending parser) :
    chainFrom inner inSection start left pending parser =
      chainFrom inner inSection start (.binary left name right span) next joined := by
  have inside : (inSection && decide (going.ahead = .closeParen)) = false := by simp [goesOn]
  rw [chainFrom, chainBelow]
  simp only [operator, inside, operand, made, if_pos progress]
  rfl

theorem parses_chainFrom_step {β : Type} {inner : Level} {room : Nat}
    {before middle behind final : List Word} {inSection : Bool} {start : Span} {left : Expr}
    {pending : Option Name} {named : Name → Prop} {read : Grammar.Operand → Prop}
    {rest : Grammar.Operand → Parse β} {holds : β → Prop}
    (operator : Parses file source room before (pendingOperator pending) middle fun found =>
      ∃ name, found = some name ∧ named name)
    (goesOn : aheadOf middle ≠ .closeParen)
    (operand : Parses file source room middle (signedOperand inner) behind read)
    (fewer : behind.length < before.length)
    (later : ∀ name found span, named name → read found →
      Parses file source room behind
        (chainFrom inner inSection start (.binary left name found.1 span) found.2 >>= rest)
        final holds) :
    Parses file source room before (chainFrom inner inSection start left pending >>= rest)
      final holds := by
  intro parser facing
  obtain ⟨⟨name, taken, naming⟩, advances⟩ := operator parser facing
  rcases found : pendingOperator pending parser with ⟨answer, going⟩
  rw [found] at taken advances
  obtain rfl : answer = some name := taken
  obtain ⟨held, further⟩ := operand going advances.facing
  rcases read : signedOperand inner going with ⟨⟨right, next⟩, after⟩
  rw [read] at held further
  have join := (parses_join start right.span after further.facing).2
  rcases made : Parse.join start right.span after with ⟨span, joined⟩
  rw [made] at join
  have so := (advances.trans further).trans join
  have progress : chainRemaining next joined < chainRemaining pending parser := by
    have bound : before.length + joined.remaining ≤ _ := so.remaining
    have one : next.isSome.toNat ≤ 1 := Bool.toNat_le _
    unfold chainRemaining
    omega
  have ahead : going.ahead ≠ .closeParen := by rwa [advances.facing.ahead]
  rw [bind_apply, chainFrom_step found ahead read made progress]
  obtain ⟨done, whole⟩ := later name (right, next) span naming held joined so.facing
  exact ⟨done, so.trans whole⟩

theorem parses_chainFrom_stop {inner : Level} {room : Nat} {before after : List Word}
    {inSection : Bool} {start : Span} {left : Expr} {pending : Option Name}
    (operator : Parses file source room before (pendingOperator pending) after (· = none)) :
    Parses file source room before (chainFrom inner inSection start left pending) after
      (· = (left, none)) := by
  intro parser facing
  obtain ⟨taken, advances⟩ := operator parser facing
  rcases found : pendingOperator pending parser with ⟨answer, going⟩
  rw [found] at taken advances
  obtain rfl : answer = none := taken
  rw [chainFrom, chainBelow]
  simp only [found]
  exact ⟨trivial, advances⟩

theorem parses_chainFrom_section {inner : Level} {room : Nat} {before after : List Word}
    {start : Span} {left : Expr} {pending : Option Name} {named : Name → Prop}
    (operator : Parses file source room before (pendingOperator pending) after fun found =>
      ∃ name, found = some name ∧ named name)
    (closes : aheadOf after = .closeParen) :
    Parses file source room before (chainFrom inner true start left pending) after fun found =>
      ∃ name, found = (left, some name) ∧ named name := by
  intro parser facing
  obtain ⟨⟨name, taken, naming⟩, advances⟩ := operator parser facing
  rcases found : pendingOperator pending parser with ⟨answer, going⟩
  rw [found] at taken advances
  obtain rfl : answer = some name := taken
  have ahead : going.ahead = .closeParen := advances.facing.ahead.trans closes
  rw [chainFrom, chainBelow]
  simp only [found]
  rw [if_pos (by simp [ahead])]
  exact ⟨⟨name, rfl, naming⟩, advances⟩

/-- Behind its first operand a chain is read up to what follows it, whatever comes after that. -/
theorem Chain.continues (chain : Chain) (read : chain.IsRead spacing file source further)
    (inSection : Bool) (start : Span) {β : Type} (rest : Grammar.Operand → Parse β)
    {later after final : List Word} {pending : Option Name → Prop} {holds : β → Prop}
    (follows : Follows later)
    (stops : Stops file source further (level further) later after pending)
    (goesOn : ∀ value operator, chain.Matches (Span.Shows file source) value → pending operator →
      Parses file source further after
        (chainFrom (level further) inSection start value operator >>= rest) final holds) :
    ∃ between met, Follows (chain.tail spacing ++ later) ∧
      Stops file source further (level further) (chain.tail spacing ++ later) between met ∧
      ∀ value operator, chain.first.Matches (Span.Shows file source) value → met operator →
        Parses file source further between
          (chainFrom (level further) inSection start value operator >>= rest) final holds := by
  cases chain with
  | operand only => exact ⟨after, pending, follows, stops, goesOn⟩
  | binary left operator right =>
    obtain ⟨word, others, split, starts⟩ := right.words_head spacing true
    have ahead : aheadOf (right.words spacing true ++ later) = word.token := by
      rw [split]
      rfl
    have behind := follows_of_operand (ahead ▸ starts)
    obtain ⟨between, met, here, fewer, names⟩ :=
      @Infix.stops file source further _ (level further) operator behind.loose
    have followed := operator.follows (right.words spacing true ++ later)
    rw [Chain.tail, List.append_assoc, List.append_assoc]
    refine left.continues read.1 inSection start rest followed here fun value found matched taken => ?_
    have operand := Operand.parses read.2 true follows stops
    refine parses_chainFrom_step (names found taken) ?_ operand ?_ ?_
    · rw [ahead]
      intro closes
      rw [closes] at starts
      rcases starts with atom | minus
      · cases atom
      · cases minus
    · have shorter := stops.within
      rw [List.length_append, split, List.length_cons] at fewer
      omega
    · intro name result span naming done
      exact goesOn _ _ ⟨value, name, result.1, span, rfl, matched, naming, done.1⟩ done.2

end Operands

end Offside.Haskell.Core
