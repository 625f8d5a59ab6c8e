import Offside.Haskell.Lexer
import Offside.Proofs.Source.Slices
import Offside.Python.Lexer

/-!
The spans of what a reader hands out. A span goes from a place to one that is not before it, and both
are places of the text, whose lines and columns are at most as many as its characters. This holds of
tokens and of reports, of comments and of what waits to be handed out.
-/

namespace Offside

set_option autoImplicit false

open Offside.Lexical

structure Span.Fits (file : FileId) (limit : Nat) (span : Span) : Prop where
  built : Span.between span.start span.stop file = .ok span
  start : span.start.line < limit ∧ span.start.column < limit
  stop : span.stop.line < limit ∧ span.stop.column < limit

theorem Span.Fits.mono {file : FileId} {limit higher : Nat} {span : Span} (le : limit ≤ higher)
    (fits : span.Fits file limit) : span.Fits file higher where
  built := fits.built
  start := ⟨Nat.lt_of_lt_of_le fits.start.1 le, Nat.lt_of_lt_of_le fits.start.2 le⟩
  stop := ⟨Nat.lt_of_lt_of_le fits.stop.1 le, Nat.lt_of_lt_of_le fits.stop.2 le⟩

namespace Cursor

variable {source : List Char} {cursor : Cursor}

end Cursor

theorem Span.file_of_between {span : Span} {file : FileId}
    (built : Span.between span.start span.stop file = .ok span) : span.file = file := by
  unfold Span.between at built
  split at built
  · exact congrArg Span.file (Except.ok.inj built).symm
  · cases built

theorem Span.Fits.atStart {file : FileId} {limit : Nat} {span : Span}
    (fits : span.Fits file limit) : span.atStart.Fits file limit where
  built := by
    simp [Span.atStart, Span.point, Span.between, Position.le_refl,
      Span.file_of_between fits.built]
  start := fits.start
  stop := fits.start

namespace Lexical

def Lexed.spans (item : Lexed) : List Span := item.span :: item.reports.map Diagnostic.span

def Lexed.Fits (file : FileId) (limit : Nat) (item : Lexed) : Prop :=
  ∀ span ∈ item.spans, span.Fits file limit

structure Move.Fits {State : Type} (cursor : State → Cursor) (source : List Char) (file : FileId)
    (move : Move State) : Prop where
  item : ∀ item ∈ move.item, item.Fits file (source.length + 1)
  reads : (cursor move.state).Reads source

section

variable {State : Type} {cursor : State → Cursor} {source : List Char} {file : FileId}
  {state : State}

end

end Lexical

namespace Python.Lexer

variable {source : List Char} {lexer : Lexer}

end Python.Lexer

namespace Haskell.Lexer

structure Fits (source : List Char) (file : FileId) (lexer : Lexer) : Prop where
  reads : lexer.cursor.Reads source
  pending : ∀ item ∈ lexer.pending, item.Fits file (source.length + 1)

end Haskell.Lexer

end Offside
