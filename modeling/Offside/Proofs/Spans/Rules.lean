import Offside.Proofs.Parser.Placement
import Offside.Proofs.Parser.Reading
import Offside.Proofs.Tree.Nodes

/-!
Rows of nodes. A row holds nodes of one file, each with a width, in the order of the text between two
places and without overlap. Rows are put together where one ends before the next begins, and a node may
take the place of those of a row that it covers.
-/

namespace Offside

set_option autoImplicit false

/-- A node ends behind the place where it starts. -/
def Node.IsWide (node : Node) : Prop := node.span.start < node.span.stop

structure Row (file : FileId) (floor : Position) (nodes : List Node) (ceiling : Position) :
    Prop where
  wide : ∀ node ∈ nodes, node.IsWide
  sameFile : ∀ node ∈ nodes, node.span.file = file
  above : ∀ node ∈ nodes, floor ≤ node.span.start
  below : ∀ node ∈ nodes, node.span.stop ≤ ceiling
  ordered : nodes.Pairwise fun earlier later => earlier.span.stop ≤ later.span.start

namespace Row

variable {file : FileId} {floor ceiling middle : Position} {nodes later : List Node} {node : Node}

theorem nil : Row file floor [] ceiling := by
  constructor <;> simp

theorem single (wide : node.IsWide) (own : node.span.file = file) (above : floor ≤ node.span.start)
    (below : node.span.stop ≤ ceiling) : Row file floor [node] ceiling := by
  constructor <;> simp [wide, own, above, below]

/-- A row may be seen between any places that its nodes stand between. -/
theorem within {lower higher : Position} (row : Row file floor nodes ceiling)
    (above : ∀ node ∈ nodes, lower ≤ node.span.start)
    (below : ∀ node ∈ nodes, node.span.stop ≤ higher) : Row file lower nodes higher :=
  { row with above, below }

theorem mono {lower higher : Position} (row : Row file floor nodes ceiling) (deeper : lower ≤ floor)
    (further : ceiling ≤ higher) : Row file lower nodes higher :=
  row.within (fun node member => le_trans deeper (row.above node member))
    fun node member => le_trans (row.below node member) further

/-- A row may be followed by one that starts where it ends or further on. -/
theorem append {start stop : Position} (row : Row file floor nodes stop)
    (behind : Row file start later ceiling) (apart : stop ≤ start) (above : floor ≤ start)
    (below : stop ≤ ceiling) : Row file floor (nodes ++ later) ceiling where
  wide := List.forall_mem_append.2 ⟨row.wide, behind.wide⟩
  sameFile := List.forall_mem_append.2 ⟨row.sameFile, behind.sameFile⟩
  above := List.forall_mem_append.2
    ⟨row.above, fun node member => le_trans above (behind.above node member)⟩
  below := List.forall_mem_append.2
    ⟨fun node member => le_trans (row.below node member) below, behind.below⟩
  ordered := by
    refine List.pairwise_append.2 ⟨row.ordered, behind.ordered, ?_⟩
    intro earlier member further among
    exact le_trans (row.below earlier member) (le_trans apart (behind.above further among))

theorem sublist {fewer : List Node} (row : Row file floor nodes ceiling)
    (inside : fewer.Sublist nodes) : Row file floor fewer ceiling where
  wide := fun node member => row.wide node (inside.subset member)
  sameFile := fun node member => row.sameFile node (inside.subset member)
  above := fun node member => row.above node (inside.subset member)
  below := fun node member => row.below node (inside.subset member)
  ordered := row.ordered.sublist inside

theorem stop_le_last {last : Node} (row : Row file floor nodes ceiling)
    (final : nodes.getLast? = some last) : ∀ node ∈ nodes, node.span.stop ≤ last.span.stop := by
  obtain ⟨front, rfl⟩ := List.getLast?_eq_some_iff.1 final
  intro node member
  rcases List.mem_append.1 member with early | late
  · have before := (List.pairwise_append.1 row.ordered).2.2 node early last (by simp)
    exact le_trans before (le_of_lt (row.wide last (by simp)))
  · rw [List.mem_singleton.1 late]

theorem first_le_start {first : Node} (row : Row file floor (first :: nodes) ceiling) :
    ∀ node ∈ first :: nodes, first.span.start ≤ node.span.start := by
  refine List.forall_mem_cons.2 ⟨le_refl _, fun node member => ?_⟩
  have behind := (List.pairwise_cons.1 row.ordered).1 node member
  exact le_trans (le_of_lt (row.wide first List.mem_cons_self)) behind

theorem floor_lt_ceiling (row : Row file floor nodes ceiling) (some : nodes ≠ []) :
    floor < ceiling := by
  obtain ⟨node, member⟩ := List.exists_mem_of_ne_nil nodes some
  exact lt_of_le_of_lt (row.above node member)
    (lt_of_lt_of_le (row.wide node member) (row.below node member))

end Row

def Node.Nests (node : Node) : Prop :=
  node.IsWide ∧ ∀ child ∈ node.children, node.span.contains child.span = true

structure NestedRow (file : FileId) (floor : Position) (nodes : List Node) (ceiling : Position) :
    Prop extends Row file floor nodes ceiling where
  nests : ∀ node ∈ nodes, node.Every Node.Nests

namespace NestedRow

variable {file : FileId} {floor ceiling : Position} {nodes later : List Node} {node : Node}

theorem nil : NestedRow file floor [] ceiling := ⟨Row.nil, by simp⟩

theorem append {start stop : Position} (row : NestedRow file floor nodes stop)
    (behind : NestedRow file start later ceiling) (apart : stop ≤ start) (above : floor ≤ start)
    (below : stop ≤ ceiling) : NestedRow file floor (nodes ++ later) ceiling :=
  ⟨row.toRow.append behind.toRow apart above below,
    List.forall_mem_append.2 ⟨row.nests, behind.nests⟩⟩

theorem sublist {fewer : List Node} (row : NestedRow file floor nodes ceiling)
    (inside : fewer.Sublist nodes) : NestedRow file floor fewer ceiling :=
  ⟨row.toRow.sublist inside, fun node member => row.nests node (inside.subset member)⟩

/-- A node over nodes of a row, which covers them from where it starts. -/
theorem every (row : NestedRow file floor nodes ceiling) (wide : node.IsWide)
    (inside : node.children ⊆ nodes) (own : node.span.file = file)
    (start : ∀ child ∈ nodes, node.span.start ≤ child.span.start)
    (stop : ∀ child ∈ nodes, child.span.stop ≤ node.span.stop) : node.Every Node.Nests := by
  refine .intro ⟨wide, fun child member => ?_⟩ fun child member => row.nests child (inside member)
  rw [Span.contains_iff, own]
  exact ⟨(row.sameFile child (inside member)).symm, start child (inside member),
    stop child (inside member)⟩

/-- A node from the floor to the ceiling of a row takes its place. -/
theorem close (row : NestedRow file floor nodes ceiling) (some : nodes ≠ [])
    (inside : node.children ⊆ nodes) (own : node.span.file = file)
    (start : node.span.start = floor) (stop : node.span.stop = ceiling) :
    NestedRow file floor [node] ceiling := by
  have wide : node.IsWide := by
    rw [Node.IsWide, start, stop]
    exact row.floor_lt_ceiling some
  have every := row.every wide inside own (by rw [start]; exact row.above)
    (by rw [stop]; exact row.below)
  exact ⟨Row.single every.own.1 own (le_of_eq start.symm) (le_of_eq stop),
    List.forall_mem_singleton.2 every⟩

/-- A node that ends with the last of some nodes takes their place among others. -/
theorem gather {front group : List Node} {last : Node}
    (row : NestedRow file floor (front ++ (group ++ later)) ceiling)
    (final : group.getLast? = some last) (inside : node.children ⊆ group)
    (own : node.span.file = file) (above : floor ≤ node.span.start)
    (apart : ∀ before ∈ front, before.span.stop ≤ node.span.start)
    (start : ∀ child ∈ group, node.span.start ≤ child.span.start)
    (stop : node.span.stop = last.span.stop) :
    NestedRow file floor (front ++ node :: later) ceiling := by
  have others := row.sublist (List.sublist_append_left front (group ++ later))
  have middle := row.sublist (List.sublist_append_right front (group ++ later))
  have covered := middle.sublist (List.sublist_append_left group later)
  have behind := middle.sublist (List.sublist_append_right group later)
  have among : last ∈ group := List.mem_of_mem_getLast? final
  have wide : node.IsWide := by
    rw [Node.IsWide, stop]
    exact lt_of_le_of_lt (start last among) (covered.wide last among)
  have every := covered.every wide inside own start (by rw [stop]; exact covered.stop_le_last final)
  have reached : node.span.stop ≤ ceiling := by
    rw [stop]
    exact covered.below last among
  have begun : ∀ further ∈ later, node.span.stop ≤ further.span.start := by
    rw [stop]
    exact (List.pairwise_append.1 middle.ordered).2.2 last among
  have before : NestedRow file floor front node.span.start :=
    ⟨others.toRow.within others.above apart, others.nests⟩
  have own : NestedRow file node.span.start [node] node.span.stop :=
    ⟨Row.single every.own.1 own (le_refl _) (le_refl _), List.forall_mem_singleton.2 every⟩
  have after : NestedRow file node.span.stop later ceiling :=
    ⟨behind.toRow.within begun behind.below, behind.nests⟩
  have width := le_of_lt every.own.1
  exact before.append (own.append after (le_refl _) width reached) (le_refl _) above
    (le_trans width reached)

/-- A node with the span of the only one below it takes the place of that one. -/
theorem cover {child : Node} (row : NestedRow file floor (child :: later) ceiling)
    (inside : node.children ⊆ [child]) (span : node.span = child.span) :
    NestedRow file floor (node :: later) ceiling := by
  refine @gather _ _ _ _ _ [] [child] child row rfl inside ?_ ?_ ?_ ?_ ?_
  · rw [span]
    exact row.sameFile child List.mem_cons_self
  · rw [span]
    exact row.above child List.mem_cons_self
  · simp
  · rw [span]
    exact List.forall_mem_singleton.2 (le_refl _)
  · rw [span]

/-- A node from the start of the first of some nodes to the end of the last takes their place. -/
theorem join {front group : List Node} {first last : Node}
    (row : NestedRow file floor (front ++ (first :: group ++ later)) ceiling)
    (final : (first :: group).getLast? = some last) (inside : node.children ⊆ first :: group)
    (span : node.span = first.span.through last.span) :
    NestedRow file floor (front ++ node :: later) ceiling := by
  have middle := row.sublist (List.sublist_append_right front (first :: group ++ later))
  have covered := middle.sublist (List.sublist_append_left (first :: group) later)
  refine row.gather final inside ?_ ?_ ?_ ?_ ?_
  · rw [span]
    exact covered.sameFile first List.mem_cons_self
  · rw [span]
    exact covered.above first List.mem_cons_self
  · rw [span]
    exact fun before member => (List.pairwise_append.1 row.ordered).2.2 before member first (by simp)
  · rw [span]
    exact covered.first_le_start
  · rw [span]
    rfl

end NestedRow

/-!
Where productions place the nodes that they make. A production keeps the parser tidy and lets it
advance, and if it ends clean then the nodes it made form a row, in which each covers what is below it,
from the token it started with to what it consumed last. What a production has read so far is owed: the
nodes of a row that starts with a span which was the lookahead once. The rules follow the shape of a
production as those for how it ends do.
-/

open Offside.Lexical Offside.Haskell

def Node.token (span : Span) : Node := .name (.simple span)

namespace Parse

open Offside.Parser

variable {α β γ : Type} {file : FileId}

/-- A production is run after nodes are owed that were read since a span was the lookahead. If it ends
clean, what its value holds is a row of nodes from there on. -/
def LocatesFrom (file : FileId) (origin : Span) (owed : List Node) (production : Parse α)
    (nodes : α → List Node) (parser : Parser) : Prop :=
  parser.Tidy file → parser.Since file origin →
    (production parser).2.Tidy file ∧ Advances file parser (production parser).2 ∧
      ((production parser).2.Clean → parser.Clean ∧
        (NestedRow file origin.start owed parser.previous.stop →
          NestedRow file origin.start (nodes (production parser).1)
            (production parser).2.previous.stop))

/-- A production is run with nothing owed. -/
abbrev Locates (file : FileId) (production : Parse α) (nodes : α → List Node)
    (parser : Parser) : Prop :=
  LocatesFrom file parser.aheadSpan [] production nodes parser

section Rules

variable {origin : Span} {owed others : List Node} {parser : Parser} {nodes : β → List Node}
  {token : Token} {production : Parse β}

@[simp] theorem locates_ahead {next : Token → Parse β} :
    LocatesFrom file origin owed (ahead >>= next) nodes parser ↔
      LocatesFrom file origin owed (next parser.ahead) nodes parser :=
  Iff.rfl

@[simp] theorem locates_aheadSpan {next : Span → Parse β} :
    LocatesFrom file origin owed (aheadSpan >>= next) nodes parser ↔
      LocatesFrom file origin owed (next parser.aheadSpan) nodes parser :=
  Iff.rfl

@[simp] theorem locates_isAt {next : Bool → Parse β} :
    LocatesFrom file origin owed (isAt token >>= next) nodes parser ↔
      LocatesFrom file origin owed (next (decide (parser.ahead = token))) nodes parser :=
  Iff.rfl

@[simp] theorem locates_isAtWord {word : String} {next : Bool → Parse β} :
    LocatesFrom file origin owed (isAtWord word >>= next) nodes parser ↔
      LocatesFrom file origin owed (next (parser.isAtWord word)) nodes parser :=
  Iff.rfl

@[simp] theorem locates_isAtEnd {next : Bool → Parse β} :
    LocatesFrom file origin owed (isAtEnd >>= next) nodes parser ↔
      LocatesFrom file origin owed (next parser.isAtEnd) nodes parser :=
  Iff.rfl

@[simp] theorem locates_spanFrom {start : Span} {next : Span → Parse β} :
    LocatesFrom file origin owed (spanFrom start >>= next) nodes parser ↔
      LocatesFrom file origin owed (next (parser.spanFrom start)) nodes parser :=
  Iff.rfl

@[simp] theorem locates_pure_bind {value : α} {next : α → Parse β} :
    LocatesFrom file origin owed (Pure.pure value >>= next) nodes parser ↔
      LocatesFrom file origin owed (next value) nodes parser :=
  Iff.rfl

@[simp] theorem locates_bind_assoc {first : Parse α} {second : α → Parse γ}
    {third : γ → Parse β} :
    LocatesFrom file origin owed ((first >>= second) >>= third) nodes parser ↔
      LocatesFrom file origin owed (first >>= fun value => second value >>= third) nodes parser :=
  Iff.rfl

@[simp] theorem locates_map {production : Parse α} {change : α → β} :
    LocatesFrom file origin owed (change <$> production) nodes parser ↔
      LocatesFrom file origin owed production (fun value => nodes (change value)) parser :=
  Iff.rfl

theorem LocatesFrom.pure {value : β} (same : nodes value = owed) :
    LocatesFrom file origin owed (pure value) nodes parser :=
  fun tidy _ => ⟨tidy, .refl parser, fun clean => ⟨clean, fun row => by
    rw [show (Pure.pure value : Parse β) parser = (value, parser) from rfl, same]
    exact row⟩⟩

theorem LocatesFrom.keep {value : β} (inside : (nodes value).Sublist owed) :
    LocatesFrom file origin owed (Pure.pure value) nodes parser := by
  intro tidy _
  exact ⟨tidy, .refl parser, fun clean => ⟨clean, fun row => row.sublist inside⟩⟩

/-- Nothing is promised where the state is not clean. -/
theorem LocatesFrom.spoiled {started : List Node} {made : β → List Node} (unclean : ¬parser.Clean)
    (locates : LocatesFrom file origin started production made parser) :
    LocatesFrom file origin owed production nodes parser := by
  intro tidy since
  obtain ⟨tidyEnd, advances, ending⟩ := locates tidy since
  exact ⟨tidyEnd, advances, fun clean => absurd (ending clean).1 unclean⟩

theorem LocatesFrom.of_unclean (leads : Leads (fun _ => True) parser (production parser).2)
    (unclean : ¬(production parser).2.Clean) :
    LocatesFrom file origin owed production nodes parser := by
  intro tidy _
  obtain ⟨tidyEnd, advances⟩ := leads.tidy tidy
  exact ⟨tidyEnd, advances, fun clean => absurd clean unclean⟩

theorem LocatesFrom.pure_of_unclean {value : β} (unclean : ¬parser.Clean) :
    LocatesFrom file origin owed (Pure.pure value) nodes parser :=
  .of_unclean (Leads.refl parser) unclean

theorem LocatesFrom.reown
    (turn : parser.Since file origin →
      NestedRow file origin.start owed parser.previous.stop →
        NestedRow file origin.start others parser.previous.stop)
    (locates : LocatesFrom file origin others production nodes parser) :
    LocatesFrom file origin owed production nodes parser := by
  intro tidy since
  obtain ⟨tidyEnd, advances, ending⟩ := locates tidy since
  exact ⟨tidyEnd, advances, fun clean =>
    ⟨(ending clean).1, fun row => (ending clean).2 (turn since row)⟩⟩

theorem LocatesFrom.fewer (inside : others.Sublist owed)
    (locates : LocatesFrom file origin others production nodes parser) :
    LocatesFrom file origin owed production nodes parser :=
  .reown (fun _ row => row.sublist inside) locates

/-- A node from the start to here takes the place of what is owed. -/
theorem LocatesFrom.close {node : Node} (some : owed ≠ []) (inside : node.children ⊆ owed)
    (span : node.span = parser.spanFrom origin)
    (locates : LocatesFrom file origin [node] production nodes parser) :
    LocatesFrom file origin owed production nodes parser := by
  refine .reown (fun since row => ?_) locates
  have whole := since.spanFrom (row.floor_lt_ceiling some)
  rw [whole] at span
  exact row.close some inside (by rw [span]; exact since.sameFile) (by rw [span]; rfl)
    (by rw [span]; rfl)

/-- A node with the span of the first one owed, over which it stands, takes its place. -/
theorem LocatesFrom.cover {child node : Node} (inside : node.children ⊆ [child])
    (span : node.span = child.span)
    (locates : LocatesFrom file origin (node :: owed) production nodes parser) :
    LocatesFrom file origin (child :: owed) production nodes parser :=
  .reown (fun _ row => row.cover inside span) locates

theorem LocatesFrom.identify {name : Name}
    (locates : LocatesFrom file origin (.expr (.identifier name) :: owed) production nodes parser) :
    LocatesFrom file origin (.name name :: owed) production nodes parser := by
  refine .cover ?_ ?_ locates
  · exact List.Subset.refl _
  · rfl

/-- The value has the span of the first node owed, over which it stands. -/
theorem LocatesFrom.pure_over {value : β} {child node : Node} (made : nodes value = node :: owed)
    (inside : node.children ⊆ [child]) (span : node.span = child.span) :
    LocatesFrom file origin (child :: owed) (Pure.pure value) nodes parser :=
  .cover inside span (.pure made)

/-- A node from the start to the end of the last of some nodes takes their place. -/
theorem LocatesFrom.reach {group later : List Node} {node last : Node}
    (final : group.getLast? = some last) (inside : node.children ⊆ group)
    (span : node.span = origin.through last.span)
    (locates : LocatesFrom file origin (node :: later) production nodes parser) :
    LocatesFrom file origin (group ++ later) production nodes parser := by
  refine .reown (fun since row => ?_) locates
  refine @NestedRow.gather _ _ _ _ _ [] group last row final inside ?_ ?_ (by simp) ?_ ?_
  · rw [span]
    exact since.sameFile
  · rw [span]
    exact le_refl _
  · rw [span]
    exact fun child member => row.above child (List.mem_append_left later member)
  · rw [span]
    rfl

/-- The value is one node from the start to here, over all that is owed. -/
theorem LocatesFrom.made {make : Span → β} {tag : β → Node} (some : owed ≠ [])
    (inside : ∀ span, (tag (make span)).children ⊆ owed)
    (own : ∀ span, (tag (make span)).span = span) :
    LocatesFrom file origin owed (do return make (← spanFrom origin)) (fun value => [tag value])
      parser :=
  locates_spanFrom.2 (.close some (inside _) (own _) (.pure rfl))

/-- The value is a node with another of its span below it, which goes from the start to here. -/
theorem LocatesFrom.made_over {make : Span → β} {tag : β → Node} (under : Span → Node)
    (some : owed ≠ []) (inside : ∀ span, (under span).children ⊆ owed)
    (own : ∀ span, (under span).span = span)
    (covers : ∀ span, (tag (make span)).children ⊆ [under span])
    (whole : ∀ span, (tag (make span)).span = span) :
    LocatesFrom file origin owed (do return make (← spanFrom origin)) (fun value => [tag value])
      parser :=
  locates_spanFrom.2 (.close some (inside _) (own _)
    (.cover (covers _) ((whole _).trans (own _).symm) (.pure rfl)))

/-- A production that starts here is followed by another, which knows how it ended. -/
theorem LocatesFrom.bind_known {production : Parse α} {next : α → Parse β}
    {part : α → List Node} (first : Locates file production part parser)
    (holds : α → Parser → Prop)
    (known : parser.Tidy file → holds (production parser).1 (production parser).2)
    (later : ∀ value after, holds value after →
      LocatesFrom file origin (owed ++ part value) (next value) nodes after) :
    LocatesFrom file origin owed (production >>= next) nodes parser := by
  intro tidy since
  obtain ⟨tidyMiddle, advances, endsFirst⟩ := first tidy tidy.since
  obtain ⟨tidyEnd, goesOn, endsLater⟩ :=
    later _ _ (known tidy) tidyMiddle (advances.since since)
  refine ⟨tidyEnd, advances.trans goesOn, fun clean => ?_⟩
  obtain ⟨cleanMiddle, whole⟩ := endsLater clean
  obtain ⟨cleanStart, read⟩ := endsFirst cleanMiddle
  exact ⟨cleanStart, fun row => whole (row.append (read .nil) tidy.behind since.start
    (advances.behind tidy))⟩

theorem LocatesFrom.bind {production : Parse α} {next : α → Parse β} {part : α → List Node}
    (first : Locates file production part parser)
    (later : ∀ value after, LocatesFrom file origin (owed ++ part value) (next value) nodes after) :
    LocatesFrom file origin owed (production >>= next) nodes parser :=
  first.bind_known (fun _ _ => True) (fun _ => trivial) fun value after _ => later value after

/-- A production that goes on with what is owed is followed by another. -/
theorem LocatesFrom.chain {production : Parse α} {next : α → Parse β} {part : α → List Node}
    (first : LocatesFrom file origin owed production part parser)
    (later : ∀ value after, LocatesFrom file origin (part value) (next value) nodes after) :
    LocatesFrom file origin owed (production >>= next) nodes parser := by
  intro tidy since
  obtain ⟨tidyMiddle, advances, endsFirst⟩ := first tidy since
  obtain ⟨tidyEnd, goesOn, endsLater⟩ := later _ _ tidyMiddle (advances.since since)
  refine ⟨tidyEnd, advances.trans goesOn, fun clean => ?_⟩
  obtain ⟨cleanMiddle, whole⟩ := endsLater clean
  obtain ⟨cleanStart, read⟩ := endsFirst cleanMiddle
  exact ⟨cleanStart, fun row => whole (read row)⟩

theorem LocatesFrom.finish {part : β → List Node} (locates : Locates file production part parser)
    (same : ∀ value, nodes value = owed ++ part value) :
    LocatesFrom file origin owed production nodes parser := by
  have whole : LocatesFrom file origin owed (production >>= Pure.pure) nodes parser :=
    locates.bind fun value after => .pure (same value)
  exact whole

/-- Productions that do the same from a state place the same from it. -/
theorem LocatesFrom.congr {production other : Parse β} (same : production parser = other parser)
    (locates : LocatesFrom file origin owed other nodes parser) :
    LocatesFrom file origin owed production nodes parser := by
  unfold LocatesFrom
  rw [same]
  exact locates

theorem LocatesFrom.of_tidy
    (locates : parser.Tidy file → LocatesFrom file origin owed production nodes parser) :
    LocatesFrom file origin owed production nodes parser :=
  fun tidy => locates tidy tidy

theorem LocatesFrom.of_leads (leads : Leads (fun _ => True) parser (production parser).2)
    (none : nodes (production parser).1 = []) : Locates file production nodes parser := by
  intro tidy _
  obtain ⟨tidyEnd, advances⟩ := leads.tidy tidy
  exact ⟨tidyEnd, advances, fun clean => ⟨leads.clean clean, fun _ => by rw [none]; exact .nil⟩⟩

theorem consume_locates (parser : Parser) : Locates file Parse.consume (fun _ => []) parser :=
  fun tidy _ => ⟨tidy.consume, .consume tidy, fun clean => ⟨clean_of_consume clean, fun _ => .nil⟩⟩

theorem wide_locates (wide : parser.aheadSpan.isPoint = false) :
    Locates file Parse.consume (fun _ => [.token parser.aheadSpan]) parser := by
  intro tidy _
  refine ⟨tidy.consume, .consume tidy, fun clean => ⟨clean_of_consume clean, fun _ => ?_⟩⟩
  have covered := (Passes.consume parser).covered tidy _ List.mem_cons_self wide
  have every : (Node.token parser.aheadSpan).Every Node.Nests :=
    .intro ⟨lt_of_le_of_ne tidy.forward (of_decide_eq_false wide), nofun⟩ nofun
  exact ⟨Row.single every.own.1 tidy.file_ahead (le_refl _) covered.2,
    List.forall_mem_singleton.2 every⟩

theorem token_locates (firm : isFirm parser.ahead = true) :
    Locates file Parse.consume (fun _ => [.token parser.aheadSpan]) parser :=
  .of_tidy fun tidy => wide_locates (tidy.wide firm)

theorem LocatesFrom.pass {production : Parse α} {next : α → Parse β}
    (quiet : Locates file production (fun _ => []) parser)
    (later : LocatesFrom file origin owed (next (production parser).1) nodes (production parser).2) :
    LocatesFrom file origin owed (production >>= next) nodes parser := by
  refine quiet.bind_known
    (fun value after => value = (production parser).1 ∧ after = (production parser).2)
    (fun _ => ⟨rfl, rfl⟩) ?_
  rintro _ _ ⟨rfl, rfl⟩
  rw [List.append_nil]
  exact later

/-- A step that makes no nodes and changes the state in a known way. -/
theorem LocatesFrom.step {production : Parse α} {next : α → Parse β} {value : α} {after : Parser}
    (known : production parser = (value, after)) (leads : Leads (fun _ => True) parser after)
    (later : LocatesFrom file origin owed (next value) nodes after) :
    LocatesFrom file origin owed (production >>= next) nodes parser := by
  refine .pass (.of_leads ?_ rfl) ?_
  · rw [known]
    exact leads
  · rw [known]
    exact later

theorem LocatesFrom.consume {next : Unit → Parse β}
    (later : LocatesFrom file origin owed (next ()) nodes parser.consume) :
    LocatesFrom file origin owed (Parse.consume >>= next) nodes parser :=
  .pass (consume_locates parser) later

theorem LocatesFrom.take {next : Unit → Parse β} (firm : isFirm parser.ahead = true)
    (later : LocatesFrom file origin (owed ++ [.token parser.aheadSpan]) (next ()) nodes
      parser.consume) :
    LocatesFrom file origin owed (Parse.consume >>= next) nodes parser := by
  refine (token_locates firm).bind_known (fun _ after => after = parser.consume) (fun _ => rfl) ?_
  rintro _ _ rfl
  exact later

theorem inner_of_firm (firm : isFirm token = true) : token ≠ .endOfInput := by
  simp only [isFirm, Bool.and_eq_true, bne_iff_ne] at firm
  exact firm.2

theorem LocatesFrom.accept {next : Bool → Parse β} (inner : token ≠ .endOfInput)
    (taken : parser.ahead = token → LocatesFrom file origin owed (next true) nodes parser.consume)
    (absent : parser.ahead ≠ token → LocatesFrom file origin owed (next false) nodes parser) :
    LocatesFrom file origin owed (Parse.accept token >>= next) nodes parser := by
  have known := accept_apply inner parser
  by_cases found : parser.ahead = token
  · rw [if_pos found] at known
    exact .step known (Leads.consume (isAtEnd_of_ahead inner found)) (taken found)
  · rw [if_neg found] at known
    exact .step known (Leads.refl parser) (absent found)

/-- Whether the token is taken makes no difference. -/
theorem LocatesFrom.accept_either {next : Bool → Parse β} (inner : token ≠ .endOfInput)
    (later : ∀ found after, LocatesFrom file origin owed (next found) nodes after) :
    LocatesFrom file origin owed (Parse.accept token >>= next) nodes parser :=
  .accept inner (fun _ => later true parser.consume) (fun _ => later false parser)

theorem LocatesFrom.takeIf {next : Bool → Parse β} (firm : isFirm token = true)
    (taken : LocatesFrom file origin (owed ++ [.token parser.aheadSpan]) (next true) nodes
      parser.consume)
    (absent : parser.ahead ≠ token → LocatesFrom file origin owed (next false) nodes parser) :
    LocatesFrom file origin owed (Parse.accept token >>= next) nodes parser := by
  have known := accept_apply (inner_of_firm firm) parser
  by_cases found : parser.ahead = token
  · rw [if_pos found] at known
    have takes : LocatesFrom file origin owed (Parse.consume >>= fun _ => next true) nodes parser :=
      .take (by rwa [found]) taken
    exact .congr (by rw [bind_apply, known]; rfl) takes
  · rw [if_neg found] at known
    exact .step known (Leads.refl parser) (absent found)

theorem LocatesFrom.due {next : Bool → Parse β} (inner : token ≠ .endOfInput)
    (found : parser.ahead = token → LocatesFrom file origin owed (next true) nodes parser.consume)
    (missing : LocatesFrom file origin owed (next false) nodes parser.fail) :
    LocatesFrom file origin owed (Parse.expect token >>= next) nodes parser := by
  have known := expect_apply inner parser
  by_cases same : parser.ahead = token
  · rw [if_pos same] at known
    exact .step known (Leads.consume (isAtEnd_of_ahead inner same)) (found same)
  · rw [if_neg same] at known
    exact .step known (Leads.fail parser) missing

/-- Whether a token that is due is found makes no difference. -/
theorem LocatesFrom.expect {next : Bool → Parse β} (inner : token ≠ .endOfInput)
    (later : ∀ found after, LocatesFrom file origin owed (next found) nodes after) :
    LocatesFrom file origin owed (Parse.expect token >>= next) nodes parser :=
  .due inner (fun _ => later true parser.consume) (later false parser.fail)

theorem LocatesFrom.takeDue {next : Bool → Parse β} (firm : isFirm token = true)
    (found : LocatesFrom file origin (owed ++ [.token parser.aheadSpan]) (next true) nodes
      parser.consume)
    (missing : LocatesFrom file origin owed (next false) nodes parser.fail) :
    LocatesFrom file origin owed (Parse.expect token >>= next) nodes parser := by
  have known := expect_apply (inner_of_firm firm) parser
  by_cases same : parser.ahead = token
  · rw [if_pos same] at known
    have takes : LocatesFrom file origin owed (Parse.consume >>= fun _ => next true) nodes parser :=
      .take (by rwa [same]) found
    exact .congr (by rw [bind_apply, known]; rfl) takes
  · rw [if_neg same] at known
    exact .step known (Leads.fail parser) missing

theorem LocatesFrom.expectOrSkipTo {next : Bool → Parse β} (inner : token ≠ .endOfInput)
    (later : ∀ found after, LocatesFrom file origin owed (next found) nodes after) :
    LocatesFrom file origin owed (Parse.expectOrSkipTo token >>= next) nodes parser := by
  have known := expectOrSkipTo_apply inner parser
  by_cases same : parser.ahead = token
  · rw [if_pos same] at known
    exact .step known (Leads.consume (isAtEnd_of_ahead inner same)) (later true parser.consume)
  · rw [if_neg same] at known
    have skips : Leads (fun _ => True) parser.fail
        (Parse.accept token (parser.fail.skipTo token)).2 :=
      (Leads.skipTo token parser.fail).trans (Leads.accept inner _)
    exact .step known ((Leads.fail parser).trans skips) (later false _)

theorem LocatesFrom.fail {next : Unit → Parse β}
    (later : LocatesFrom file origin owed (next ()) nodes parser.fail) :
    LocatesFrom file origin owed (Parse.fail >>= next) nodes parser :=
  .step rfl (Leads.fail parser) later

theorem LocatesFrom.reportUnexpected {next : Unit → Parse β}
    (later : LocatesFrom file origin owed (next ()) nodes parser.reportUnexpected) :
    LocatesFrom file origin owed (Parse.reportUnexpected >>= next) nodes parser :=
  .step rfl ⟨_, Run.report parser⟩ later

/-- A report harms the state and leaves the tokens where they are. -/
theorem LocatesFrom.report {problem : Problem} {span : Span} {next : Unit → Parse β}
    (later : LocatesFrom file origin owed (next ()) nodes
      { parser with context := parser.context.report problem span }) :
    LocatesFrom file origin owed
      ((modify fun parser =>
        { parser with context := parser.context.report problem span }) >>= next)
      nodes parser := by
  intro tidy since
  have aside : Advances file parser
      { parser with context := parser.context.report problem span } := .of_same rfl rfl
  obtain ⟨tidyEnd, advances, ending⟩ := later (tidy.of_same rfl rfl) (aside.since since)
  exact ⟨tidyEnd, aside.trans advances, fun clean => absurd (ending clean).1 report_spoils⟩

theorem LocatesFrom.skipAll {next : Unit → Parse β}
    (later : LocatesFrom file origin owed (next ()) nodes (parser.skipAll token)) :
    LocatesFrom file origin owed (Parse.skipAll token >>= next) nodes parser :=
  .step rfl (Leads.skipAll token parser) later

theorem LocatesFrom.skipToAny {tokens : List Token} {next : Unit → Parse β}
    (later : LocatesFrom file origin owed (next ()) nodes (parser.skipToAny tokens 0)) :
    LocatesFrom file origin owed (Parse.skipToAny tokens >>= next) nodes parser :=
  .step rfl (Leads.skipToAny tokens 0 parser) later

theorem LocatesFrom.join {first last : Span} {next : Span → Parse β}
    (joined : LocatesFrom file origin owed (next (first.through last)) nodes parser)
    (harmed : ∀ span after, ¬after.Clean → LocatesFrom file origin owed (next span) nodes after) :
    LocatesFrom file origin owed (Parse.join first last >>= next) nodes parser := by
  rcases join_cases first last parser with known | ⟨after, known, leads, unclean⟩
  · exact .step known (Leads.refl parser) joined
  · exact .step known leads (harmed default after unclean)

structure Looks (question : Parse α) (parser : Parser) : Prop where
  leads : Leads (fun _ => True) parser (question parser).2
  alike : Alike parser (question parser).2

theorem LocatesFrom.look {question : Parse α} {next : α → Parse β} (looks : Looks question parser)
    (later : ∀ value after, (question parser).1 = value → Alike parser after →
      LocatesFrom file origin owed (next value) nodes after) :
    LocatesFrom file origin owed (question >>= next) nodes parser :=
  .step rfl looks.leads (later _ _ rfl looks.alike)

namespace Looks

theorem pure {value : α} : Looks (Pure.pure value) parser := ⟨Leads.refl parser, rfl, rfl, rfl⟩

theorem bind {first : Parse α} {next : α → Parse β} (looks : Looks first parser)
    (later : ∀ value after, Looks (next value) after) : Looks (first >>= next) parser where
  leads := looks.leads.trans (later _ _).leads
  alike := looks.alike.trans (later _ _).alike

theorem ahead {next : Token → Parse β} (looks : Looks (next parser.ahead) parser) :
    Looks (Parse.ahead >>= next) parser := ⟨looks.leads, looks.alike⟩

theorem isAt {next : Bool → Parse β} (looks : Looks (next (decide (parser.ahead = token))) parser) :
    Looks (Parse.isAt token >>= next) parser := ⟨looks.leads, looks.alike⟩

theorem aheadSpan {next : Span → Parse β} (looks : Looks (next parser.aheadSpan) parser) :
    Looks (Parse.aheadSpan >>= next) parser := ⟨looks.leads, looks.alike⟩

theorem get {next : Parser → Parse β} (looks : Looks (next parser) parser) :
    Looks (MonadState.get >>= next) parser := ⟨looks.leads, looks.alike⟩

theorem peek {distance : Nat} (near : 1 ≤ distance) (within : distance ≤ reach) :
    Looks (Parse.peek distance) parser :=
  ⟨Leads.peek near within parser, Alike.peek near within parser⟩

theorem peekSpan {distance : Nat} (near : 1 ≤ distance) (within : distance ≤ reach) :
    Looks (Parse.peekSpan distance) parser :=
  ⟨Leads.peek near within parser, Alike.peek near within parser⟩

theorem ite {condition : Prop} [Decidable condition] {first second : Parse β}
    (taken : condition → Looks first parser) (missed : ¬condition → Looks second parser) :
    Looks (if condition then first else second) parser := by
  split
  · exact taken ‹_›
  · exact missed ‹_›

end Looks

end Rules

section Repetition

variable {tag : α → Node} {last : β → Node} {nodes : α → List Node} {parser : Parser}

/-- By induction on the bound: each round places its node behind those of the rounds before it. What
holds of a state when a round starts has to hold again behind the round. -/
theorem repeatBelow_locates {more : Parse Bool} {item : Parse (α ⊕ β)} {holds : Parser → Prop}
    (rounds : ∀ start, holds start → Locates file (oneRound more item)
      (fun found => found.toList.map (Sum.elim tag last)) start)
    (kept : ∀ start, start.Tidy file → holds start → holds (oneRound more item start).2)
    (bound : Nat) (parser : Parser) (held : holds parser) :
    Locates file (repeatBelow more item bound)
      (fun found => found.1.map tag ++ found.2.toList.map last) parser := by
  induction bound using Nat.strong_induction_on generalizing parser with
  | _ bound induction =>
    apply LocatesFrom.congr (repeatBelow_eq more item bound parser)
    apply LocatesFrom.bind_known (rounds parser held) (fun _ after => holds after)
      fun tidy => kept parser tidy held
    intro found after heldAfter
    match found with
    | none => exact .pure rfl
    | some (.inr last) => exact .pure rfl
    | some (.inl value) =>
      by_cases progress : after.remaining < bound
      · let below : Parse (List α × Option β) := repeatBelow more item after.remaining
        have goesOn : afterRound more item bound (some (.inl value)) after =
            ((fun found => (value :: found.1, found.2)) <$> below) after := if_pos progress
        apply LocatesFrom.congr goesOn
        apply locates_map.2
        exact (induction _ progress after heldAfter).finish fun _ => rfl
      · have stalls : afterRound more item bound (some (.inl value)) after =
            (([value], none), after.raise .stalled) := if_neg progress
        intro tidy _
        rw [stalls]
        exact ⟨tidy.of_same rfl rfl, .of_same rfl rfl,
          fun clean => absurd clean (raise_spoils after _)⟩

theorem repeatUntil_locates {more : Parse Bool} {item : Parse (α ⊕ β)}
    (rounds : ∀ start, Locates file (oneRound more item)
      (fun found => found.toList.map (Sum.elim tag last)) start) (parser : Parser) :
    Locates file (repeatUntil more item)
      (fun found => found.1.map tag ++ found.2.toList.map last) parser :=
  @repeatBelow_locates _ _ file tag last _ _ (fun _ => True) (fun start _ => rounds start)
    (fun _ _ _ => trivial) parser.remaining parser trivial

theorem many_locates_along {more : Parse Bool} {item : Parse α} {holds : Parser → Prop}
    (rounds : ∀ start, holds start → Locates file (oneRound more item)
      (fun found => found.toList.map tag) start)
    (kept : ∀ start, start.Tidy file → holds start → holds (oneRound more item start).2)
    (parser : Parser) (held : holds parser) :
    Locates file (many more item) (List.map tag) parser := by
  have same := oneRound_map more item (Sum.inl : α → α ⊕ Empty)
  have each : ∀ start, holds start →
      Locates file (oneRound more (Sum.inl <$> item : Parse (α ⊕ Empty)))
        (fun found => found.toList.map (Sum.elim tag Empty.elim)) start := by
    intro start held
    apply LocatesFrom.congr (same start)
    apply locates_map.2
    apply (rounds start held).finish
    intro found
    cases found with
    | none => rfl
    | some value => rfl
  have keeps : ∀ start, start.Tidy file → holds start →
      holds (oneRound more (Sum.inl <$> item : Parse (α ⊕ Empty)) start).2 := by
    intro start tidy held
    rw [same]
    exact kept start tidy held
  have whole : Locates file (repeatUntil more (Sum.inl <$> item : Parse (α ⊕ Empty)))
      (fun found => found.1.map tag ++ found.2.toList.map Empty.elim) parser :=
    repeatBelow_locates each keeps parser.remaining parser held
  unfold many
  apply LocatesFrom.bind whole
  rintro ⟨values, last⟩ after
  cases last with
  | none => exact .pure (by simp)
  | some last => exact last.elim

/-- What rounds keep, and a round that stalls keeps, a repetition keeps. -/
theorem many_keeps {more : Parse Bool} {item : Parse α} {holds : Parser → Prop}
    (rounds : ∀ start, holds start → holds (oneRound more item start).2)
    (stalls : ∀ start : Parser, holds start → holds (start.raise .stalled)) (parser : Parser)
    (held : holds parser) : holds (many more item parser).2 := by
  induction bound : parser.remaining using Nat.strong_induction_on generalizing parser with
  | _ bound induction =>
    have round := rounds parser held
    rw [oneRound, bind_apply] at round
    rw [many_unroll]
    split
    · rename_i goes
      rw [if_pos goes] at round
      split
      · rename_i progress
        exact induction _ (bound ▸ progress) _ round rfl
      · exact stalls _ round
    · rename_i ends
      rw [if_neg ends] at round
      exact round

theorem many_locates {more : Parse Bool} {item : Parse α}
    (rounds : ∀ start, Locates file (oneRound more item) (fun found => found.toList.map tag) start)
    (parser : Parser) : Locates file (many more item) (List.map tag) parser :=
  @many_locates_along _ file tag _ _ (fun _ => True) (fun start _ => rounds start)
    (fun _ _ _ => trivial) parser trivial

theorem round_locates {origin : Span} {item : Parse α}
    (each : Locates file item (fun value => [tag value]) parser) :
    LocatesFrom file origin [] (do return some (← item)) (fun found => found.toList.map tag) parser :=
  .bind each fun _ _ => .pure rfl

/-- Items that are read as long as the lookahead is of a kind. -/
theorem many_while_locates {isKind : Token → Bool} {item : Parse α}
    (each : ∀ start, Locates file item (fun value => [tag value]) start) (parser : Parser) :
    Locates file (many (do return isKind (← Parse.ahead)) item) (List.map tag) parser := by
  apply many_locates
  intro start
  unfold oneRound
  simp only [locates_bind_assoc, locates_ahead, locates_pure_bind]
  split
  · exact round_locates (each start)
  · exact .pure rfl

theorem many_accept_locates {separator : Token} {item : Parse α} (inner : separator ≠ .endOfInput)
    (each : ∀ start, Locates file item (fun value => [tag value]) start) (parser : Parser) :
    Locates file (many (accept separator) item) (List.map tag) parser := by
  apply many_locates
  intro start
  apply LocatesFrom.accept inner
  · intro _
    exact round_locates (each start.consume)
  · intro _
    exact .pure rfl

theorem separated_locates {separator : Token} {item : Parse α} (inner : separator ≠ .endOfInput)
    (each : ∀ start, Locates file item (fun value => [tag value]) start) (parser : Parser) :
    Locates file (separated separator item) (List.map tag) parser := by
  unfold separated
  apply LocatesFrom.bind (each parser)
  intro first afterFirst
  apply LocatesFrom.bind (many_accept_locates inner each afterFirst)
  intro later final
  exact .pure rfl

theorem refuse_locates {refused : Span → α} (parser : Parser) :
    Locates file (refuse refused) nodes parser := by
  let reported : Parser :=
    { parser with context := parser.context.report .nestingTooDeep parser.aheadSpan }
  have leads : Leads (fun _ => True) reported parser.refuseNesting.2 := Leads.consumeInner reported
  intro tidy _
  have aside : Advances file parser reported := .of_same rfl rfl
  obtain ⟨tidyEnd, advances⟩ := leads.tidy (tidy.of_same rfl rfl)
  exact ⟨tidyEnd, aside.trans advances, fun clean => absurd clean (refuseNesting_spoils parser)⟩

theorem leaveNesting_tidy (tidy : parser.Tidy file) :
    parser.leaveNesting.Tidy file ∧ Advances file parser parser.leaveNesting ∧
      parser.leaveNesting.previous = parser.previous := by
  unfold Parser.leaveNesting
  split
  · exact ⟨tidy.of_same rfl rfl, .of_same rfl rfl, rfl⟩
  · exact ⟨tidy.of_same rfl rfl, .of_same rfl rfl, rfl⟩

/-- Neither the depth nor a level that was entered makes a difference to where nodes stand. -/
theorem nested_locates {refused : Span → α} {production : Parse α}
    (locates : Locates file production nodes { parser with depth := parser.depth + 1 }) :
    Locates file (nested refused production) nodes parser := by
  intro tidy since
  by_cases room : parser.depth < nestingLimit
  · have enters : enterNesting parser = (none, { parser with depth := parser.depth + 1 }) := by
      change parser.enterNesting = _
      rw [Parser.enterNesting, if_pos room]
    have entered : ({ parser with depth := parser.depth + 1 } : Parser).Tidy file :=
      tidy.of_same rfl rfl
    obtain ⟨tidyInside, advances, ending⟩ := locates entered entered.since
    obtain ⟨tidyEnd, leaves, previous⟩ := leaveNesting_tidy tidyInside
    rw [nested, bind_apply, enters]
    refine ⟨tidyEnd, ⟨le_trans advances.start leaves.start, le_trans advances.stop leaves.stop, ?_⟩,
      fun clean => ?_⟩
    · exact previous ▸ advances.previous
    · obtain ⟨cleanStart, made⟩ := ending (clean_of_leaveNesting clean)
      exact ⟨{ cleanStart with }, fun row => previous ▸ made row⟩
  · have refuses : enterNesting parser =
        (some parser.refuseNesting.1, parser.refuseNesting.2) := by
      change parser.enterNesting = _
      rw [Parser.enterNesting, if_neg room]
    rw [nested, bind_apply, refuses]
    have refusal : Locates file (refuse refused) nodes parser := refuse_locates parser
    exact refusal tidy since

end Repetition

end Parse

end Offside
