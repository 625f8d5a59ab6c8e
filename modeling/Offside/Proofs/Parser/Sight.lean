import Offside.Proofs.Lexical.Recording
import Offside.Proofs.Parser.Run

/-!
What a parser has in sight: the lookahead, what was peeked at and what is still to be pulled, each
token with the number of comments to be dropped before it is reached. Consuming and peeking pass along
these tokens, and how much of the input they use up can be told from them.
-/

namespace Offside

set_option autoImplicit false

open Offside.Lexical

structure Seen where
  comments : Nat
  token : Token
  span : Span

def Seen.near (seen : Seen) : Seen := { seen with comments := 0 }

def seenOf : Nat → List (Token × Span) → List Seen
  | _, [] => []
  | comments, found :: later =>
    if found.1 = .comment then seenOf (comments + 1) later
    else ⟨comments, found.1, found.2⟩ :: seenOf 0 later

theorem seenOf_cons {found : Token × Span} (other : found.1 ≠ .comment) (comments : Nat)
    (later : List (Token × Span)) :
    seenOf comments (found :: later) = ⟨comments, found.1, found.2⟩ :: seenOf 0 later := by
  rw [seenOf, if_neg other]

theorem seenOf_append {front : List (Token × Span)}
    (dropped : ∀ found ∈ front, found.1 = .comment) (comments : Nat)
    (later : List (Token × Span)) :
    seenOf comments (front ++ later) = seenOf (comments + front.length) later := by
  induction front generalizing comments with
  | nil => rfl
  | cons found front induction =>
    rw [List.forall_mem_cons] at dropped
    rw [List.cons_append, seenOf, if_pos dropped.1, induction dropped.2, List.length_cons,
      Nat.add_assoc, Nat.add_comm 1]

namespace Parser

def seenIn (stream : TokenStream) : List Seen := seenOf 0 (stream.items.map Lexed.located)

/-- What a parser has in sight, the lookahead first. -/
def sight (parser : Parser) : List Seen :=
  ⟨0, parser.ahead, parser.aheadSpan⟩ ::
    (parser.buffered.map (fun found => ⟨0, found.1, found.2⟩) ++ seenIn parser.input)

theorem pullFrom_seen {stream : TokenStream} {seen : Seen} {later : List Seen}
    (sight : seenIn stream = seen :: later) (context : Context) :
    (pullFrom stream context).1 = (seen.token, seen.span) ∧
      seenIn (pullFrom stream context).2.1 = later ∧
      stream.size = seen.comments + 1 + (pullFrom stream context).2.1.size := by
  have items := stream.items_afterComments
  have sized := stream.afterComments.size_eq
  have whole : stream.size = stream.comments.length + stream.afterComments.size := by
    rw [sized, stream.size_eq, items, ← List.length_append]
    exact congrArg List.length List.takeWhile_append_dropWhile.symm
  have split : seenIn stream =
      seenOf stream.comments.length (stream.afterComments.items.map Lexed.located) := by
    have dropped : ∀ found ∈ stream.comments.map Lexed.located, found.1 = .comment := by
      intro found member
      obtain ⟨item, among, rfl⟩ := List.mem_map.1 member
      simpa [Lexed.isComment, Lexed.located] using List.mem_takeWhile_imp among
    have all := seenOf_append dropped 0 (stream.afterComments.items.map Lexed.located)
    rw [← List.map_append, items, TokenStream.comments, List.takeWhile_append_dropWhile,
      Nat.zero_add, List.length_map, ← TokenStream.comments, ← items] at all
    exact all
  rw [sight] at split
  unfold pullFrom
  simp only [TokenStream.next]
  cases found : stream.afterComments.items with
  | nil =>
    rw [found] at split
    cases split
  | cons item rest =>
    have written : item.located.1 ≠ .comment := by
      have first := List.head?_dropWhile_not Lexed.isComment stream.items
      rw [← items, found] at first
      simpa [Lexed.isComment, Lexed.located] using first
    rw [found, List.map_cons, seenOf_cons written, List.cons.injEq] at split
    obtain ⟨rfl, rfl⟩ := split
    rw [found, List.length_cons] at sized
    refine ⟨rfl, ?_, ?_⟩
    · simp only [seenIn, TokenStream.drop, found, List.drop_succ_cons, List.drop_zero]
    · simp only [TokenStream.drop]
      omega

/-- At the start of a text the lookahead is the first token in sight. -/
theorem sight_start {stream : TokenStream} {seen : Seen} {later : List Seen}
    (inStream : seenIn stream = seen :: later) (context : Context) :
    (start stream context).sight = seen.near :: later := by
  obtain ⟨pulled, behind, -⟩ := pullFrom_seen inStream context
  change (⟨0, (pullFrom stream context).1.1, (pullFrom stream context).1.2⟩ : Seen) ::
    ([] ++ seenIn (pullFrom stream context).2.1) = _
  rw [pulled, behind]
  rfl

theorem sight_consume {parser : Parser} {first second : Seen} {later : List Seen}
    (sight : parser.sight = first :: second :: later) :
    parser.consume.sight = second.near :: later ∧
      parser.remaining + (if parser.buffered = [] then (isInner second.token).toNat else 0) =
        (isInner first.token).toNat + second.comments + parser.consume.remaining +
          (if parser.buffered = [] then 1 else 0) := by
  unfold Parser.consume
  rw [Parser.sight, List.cons.injEq] at sight
  obtain ⟨rfl, rest⟩ := sight
  cases found : parser.buffered with
  | nil =>
    rw [found, List.map_nil, List.nil_append] at rest
    obtain ⟨pulled, seen, size⟩ := pullFrom_seen rest parser.context
    constructor
    · simp only [Parser.sight, pull, pulled, seen]
      rfl
    · simp only [remaining, pull, pulled, found, List.countP_nil, if_true]
      omega
  | cons next buffered =>
    rw [found, List.map_cons, List.cons_append, List.cons.injEq] at rest
    obtain ⟨rfl, rfl⟩ := rest
    refine ⟨rfl, ?_⟩
    simp only [remaining, found, List.countP_cons, reduceCtorEq, if_false, Nat.add_zero]
    cases isInner next.1 with
    | false =>
      simp only [Bool.toNat_false, Bool.false_eq_true, if_false]
      omega
    | true =>
      simp only [Bool.toNat_true, if_true]
      omega

/-- Filling the buffer drops the comments before the next token that is not in it. -/
theorem sight_fill {parser : Parser} {front later : List Seen} {next : Seen}
    (sight : parser.sight = front ++ next :: later)
    (length : front.length = parser.buffered.length + 1) :
    (parser.fill 1).sight = front ++ next.near :: later ∧
      parser.remaining + (isInner next.token).toNat =
        (parser.fill 1).remaining + next.comments + 1 := by
  obtain ⟨same, rest⟩ := List.append_inj (show
      (⟨0, parser.ahead, parser.aheadSpan⟩ ::
          parser.buffered.map (fun found => (⟨0, found.1, found.2⟩ : Seen))) ++
        seenIn parser.input = front ++ next :: later from sight) (by simp [length])
  obtain ⟨pulled, seen, size⟩ := pullFrom_seen rest parser.context
  constructor
  · rw [← same]
    simp only [Parser.sight, fill, pull, pulled, seen, List.map_append, List.map_cons,
      List.map_nil, List.append_assoc, List.cons_append]
    rfl
  · simp only [remaining, fill, pull, pulled, List.countP_append, List.countP_singleton]
    cases isInner next.token with
    | false =>
      simp only [Bool.toNat_false, Bool.false_eq_true, if_false]
      omega
    | true =>
      simp only [Bool.toNat_true, if_true]
      omega

end Parser

end Offside
