import Offside.Haskell.Layout
import Offside.Haskell.Scan
import Offside.Lexical.Reader

/-!
Tokens of a Haskell text, with the braces and semicolons of layout among them. Reading a written token
may call for several tokens: the first carries the effects of reading and the others wait. Comments
take no part in layout.
-/

namespace Offside.Haskell

set_option autoImplicit false

open Offside.Lexical

structure Lexer where
  cursor : Cursor
  /-- The line on which the last written token starts. -/
  lastLine : Option Nat := none
  /-- The place where the last written token ends, if it is a proper identifier. -/
  properEnd : Option Position := none
  layout : Layout := {}
  /-- Tokens of the last written one that are still to be handed out. -/
  pending : List Lexed := []

namespace Lexer

def start (source : List Char) : Lexer := { cursor := Cursor.ofText source }

/-- Hands out the first of the tokens that a written one calls for. -/
def release (lexer : Lexer) (added : List Token) (item : Lexed) : Move Lexer :=
  match added.map fun token => Lexed.silent token item.span.atStart with
  | [] => .emit item lexer
  | first :: later =>
      .emit { first with reports := item.reports, entries := item.entries }
        { lexer with pending := later ++ [.silent item.token item.span] }

def read (file : FileId) (lexer : Lexer) : Move Lexer :=
  let cursor := lexer.cursor.skipWhile Text.isBlank
  let scan := scan (lexer.properEnd == some cursor.position) cursor.ahead
  let item := scan.lexed file cursor (cursor.ahead.take scan.width)
  let after := cursor.skip scan.width
  if scan.token = .comment then .emit item { lexer with cursor := after }
  else
    let line := cursor.position.line
    let written : Written :=
      { token := scan.token
        span := item.span
        column := cursor.indentation
        firstOnLine := lexer.lastLine != some line }
    release
      { lexer with
        cursor := after
        lastLine := some line
        properEnd := if scan.token = .properIdentifier then some after.position else none
        layout := (lexer.layout.step written).2 }
      (lexer.layout.step written).1 item

def move (file : FileId) (lexer : Lexer) : Move Lexer :=
  match lexer.pending with
  | item :: later => .emit item { lexer with pending := later }
  | [] => lexer.read file

/-- Tokens that wait and are not the end of input. -/
def waiting (lexer : Lexer) : Nat := lexer.pending.countP fun item => !item.isFinal

/-- A written token may add four to what layout still has to add. -/
def weight (lexer : Lexer) : Nat :=
  5 * lexer.cursor.ahead.length + lexer.waiting + lexer.layout.burden

theorem release_weight_le (lexer : Lexer) (added : List Token) (item : Lexed)
    (idle : lexer.pending = []) :
    (release lexer added item).state.weight ≤ lexer.weight + added.length := by
  unfold release
  split
  · exact Nat.le_add_right _ _
  · rename_i first later found
    have lengths := congrArg List.length found
    have bound := List.countP_le_length (p := fun item : Lexed => !item.isFinal)
      (l := later ++ [.silent item.token item.span])
    simp only [List.length_map, List.length_cons] at lengths
    simp only [List.length_append, List.length_singleton] at bound
    simp only [Move.emit, weight, waiting, idle, List.countP_nil]
    omega

theorem release_final_weight_lt (lexer : Lexer) (added : List Token) (item : Lexed)
    (idle : lexer.pending = []) (final : item.token = .endOfInput)
    (goesOn : (release lexer added item).isFinal = false) :
    (release lexer added item).state.weight < lexer.weight + added.length := by
  unfold release at goesOn ⊢
  split
  · rename_i found
    simp [found, Move.isFinal, Move.emit, Lexed.isFinal, final] at goesOn
  · rename_i first later found
    have lengths := congrArg List.length found
    have bound := List.countP_le_length (p := fun item : Lexed => !item.isFinal) (l := later)
    simp only [List.length_map, List.length_cons] at lengths
    simp only [Move.emit, weight, waiting, idle, List.countP_nil, List.countP_append,
      List.countP_singleton, Lexed.silent, Lexed.isFinal, final]
    simp only [Lexed.isFinal] at bound
    simp
    omega

theorem read_descends (file : FileId) (lexer : Lexer) (idle : lexer.pending = [])
    (goesOn : (lexer.read file).isFinal = false) :
    (lexer.read file).state.weight < lexer.weight := by
  have skipped := Cursor.length_ahead_skipWhile_le Text.isBlank lexer.cursor
  unfold read at goesOn ⊢
  simp only at goesOn ⊢
  generalize lexer.cursor.skipWhile Text.isBlank = cursor at *
  by_cases remains : cursor.ahead = []
  · have ended : scan (lexer.properEnd == some cursor.position) cursor.ahead =
        { token := .endOfInput, width := 0 } := by
      rw [remains]
      rfl
    simp only [ended, reduceCtorEq, if_false] at goesOn ⊢
    refine Nat.lt_of_lt_of_le (release_final_weight_lt _ _ _ (by exact idle) (by rfl) goesOn) ?_
    have burden := Layout.step_endOfInput_burden
      { token := .endOfInput
        span := spanAhead file cursor 0
        column := cursor.indentation
        firstOnLine := lexer.lastLine != some cursor.position.line } lexer.layout rfl
    simp only [weight, waiting, idle, Cursor.skip, remains, List.countP_nil, List.length_nil,
      Scan.lexed]
    omega
  · have moves := scan_width_pos (lexer.properEnd == some cursor.position) remains
    generalize scan (lexer.properEnd == some cursor.position) cursor.ahead = scan at *
    have shorter := Cursor.length_ahead_skip_lt moves remains
    split
    · simp only [Move.emit, weight, waiting]
      omega
    · refine Nat.lt_of_le_of_lt (release_weight_le _ _ _ (by exact idle)) ?_
      have burden := Layout.step_burden
        { token := scan.token
          span := spanAhead file cursor scan.width
          column := cursor.indentation
          firstOnLine := lexer.lastLine != some cursor.position.line } lexer.layout
      simp only [weight, waiting, idle, List.countP_nil, Scan.lexed]
      omega

theorem move_descends (file : FileId) (lexer : Lexer)
    (goesOn : (move file lexer).isFinal = false) :
    (move file lexer).state.weight < lexer.weight := by
  unfold move at goesOn ⊢
  split at goesOn
  · rename_i item later found
    have unfinished : item.isFinal = false := by
      simpa [Move.isFinal, Move.emit] using goesOn
    simp [found, Move.emit, weight, waiting, unfinished]
  · rename_i found
    exact read_descends file lexer found goesOn

end Lexer

def reader : Reader Lexer where
  start := Lexer.start
  move := Lexer.move
  weight := Lexer.weight
  descends := Lexer.move_descends

end Offside.Haskell
