import Offside.Haskell.Lexer
import Offside.Proofs.Parser.Run

/-!
What a reader hands out, by induction over its moves: what every move keeps of the state and says of
its token holds of all tokens. In particular all tokens of a text belong to the file that is read.
-/

namespace Offside

set_option autoImplicit false

open Offside.Lexical

namespace Lexical.Reader

variable {State : Type} {reader : Reader State} {file : FileId}

theorem mem_items {keeps : State → Prop} {holds : Lexed → Prop}
    (step : ∀ state, keeps state →
      (∀ item ∈ (reader.move file state).item, holds item) ∧
        keeps (reader.move file state).state)
    (state : State) (kept : keeps state) : ∀ item ∈ reader.items file state, holds item := by
  fun_induction Reader.items reader file state with
  | case1 state found lower induction => exact induction (step state kept).2
  | case2 state item found final =>
    intro other member
    rw [List.mem_singleton.1 member]
    exact (step state kept).1 item found
  | case3 state item found goesOn lower induction =>
    intro other member
    rcases List.mem_cons.1 member with rfl | member
    · exact (step state kept).1 other found
    · exact induction (step state kept).2 other member

theorem items_ne_nil (state : State) : reader.items file state ≠ [] := by
  fun_induction Reader.items reader file state with
  | case1 state found lower induction => exact induction
  | case2 state item found final => simp
  | case3 state item found goesOn lower induction => simp

theorem items_split (state : State) :
    ∃ inner final, reader.items file state = inner ++ [final] ∧ final.isFinal = true ∧
      ∀ item ∈ inner, item.isFinal = false := by
  fun_induction Reader.items reader file state with
  | case1 state found lower induction => exact induction
  | case2 state item found final => exact ⟨[], item, rfl, final, by simp⟩
  | case3 state item found goesOn lower induction =>
    obtain ⟨inner, final, split, ended, others⟩ := induction
    refine ⟨item :: inner, final, by rw [split, List.cons_append], ended, ?_⟩
    exact List.forall_mem_cons.2 ⟨by simpa using goesOn, others⟩

theorem within_ofItems {files : FileId → Prop} {items : List Lexed} (nonempty : items ≠ [])
    (within : ∀ item ∈ items, files item.span.file) :
    (TokenStream.ofItems items).Within files := by
  refine ⟨within, ?_⟩
  have last := List.getLast?_eq_some_getLast nonempty
  simp only [TokenStream.ofItems, TokenStream.finishOf, last]
  exact within _ (List.getLast_mem nonempty)

end Lexical.Reader

namespace Lexical.Move

variable {State : Type}

/-- What a move hands out belongs to a file. -/
def InFile (file : FileId) (move : Move State) : Prop := ∀ item ∈ move.item, item.span.file = file

@[simp] theorem inFile_emit {file : FileId} {item : Lexed} {state : State} :
    (emit item state).InFile file ↔ item.span.file = file := by
  simp [InFile, emit]

end Lexical.Move

namespace Haskell

namespace Lexer

def WaitsIn (file : FileId) (lexer : Lexer) : Prop := ∀ item ∈ lexer.pending, item.span.file = file

theorem release_file {file : FileId} {lexer : Lexer} {item : Lexed} (added : List Token)
    (idle : lexer.pending = []) (located : item.span.file = file) :
    (lexer.release added item).InFile file ∧ (lexer.release added item).state.WaitsIn file := by
  unfold release
  cases added with
  | nil =>
    simp only [List.map_nil, Move.inFile_emit]
    exact ⟨located, by simp [WaitsIn, Move.emit, idle]⟩
  | cons first later =>
    simp only [List.map_cons, Move.inFile_emit]
    refine ⟨located, ?_⟩
    intro waiting member
    rcases List.mem_append.1 member with fresh | final
    · obtain ⟨token, _, rfl⟩ := List.mem_map.1 fresh
      exact located
    · rw [List.mem_singleton.1 final]
      exact located

theorem move_file {file : FileId} {lexer : Lexer} (waiting : lexer.WaitsIn file) :
    (lexer.move file).InFile file ∧ (lexer.move file).state.WaitsIn file := by
  unfold move
  cases found : lexer.pending with
  | cons first later =>
    rw [WaitsIn, found] at waiting
    simp only [Move.inFile_emit]
    exact ⟨waiting first List.mem_cons_self,
      fun item member => waiting item (List.mem_cons_of_mem first member)⟩
  | nil =>
    simp only [read]
    split
    · simp only [Move.inFile_emit]
      exact ⟨rfl, waiting⟩
    · apply release_file
      · exact found
      · rfl

end Lexer

theorem stream_within (file : FileId) (source : List Char) :
    (reader.stream file source).Within (· = file) := by
  apply Reader.within_ofItems (Reader.items_ne_nil _)
  have started : (Lexer.start source).WaitsIn file := by simp [Lexer.WaitsIn, Lexer.start]
  have step : ∀ lexer : Lexer, lexer.WaitsIn file →
      (lexer.move file).InFile file ∧ (lexer.move file).state.WaitsIn file :=
    fun lexer waiting => Lexer.move_file waiting
  exact Reader.mem_items step _ started

end Haskell

end Offside
