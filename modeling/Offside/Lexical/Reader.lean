import Offside.Lexical.Lexed

/-!
Readers: state machines that turn a text into tokens. Each move either hands out a token or silently
passes over text without one. A reader carries a weight that every move lowers, unless the move hands
out the end of input, so from any state the end of input is reached after finitely many moves.
-/

namespace Offside.Lexical

set_option autoImplicit false

structure Move (State : Type) where
  item : Option Lexed
  state : State

namespace Move

variable {State : Type}

def isFinal (move : Move State) : Bool := move.item.any Lexed.isFinal

def emit (item : Lexed) (state : State) : Move State := ⟨some item, state⟩

def pass (state : State) : Move State := ⟨none, state⟩

end Move

structure Reader (State : Type) where
  /-- The state before the first token of a text. -/
  start : List Char → State
  move : FileId → State → Move State
  weight : State → Nat
  descends : ∀ file state, (move file state).isFinal = false →
    weight (move file state).state < weight state

namespace Reader

variable {State : Type}

/-- The next token. Comments are passed over unless they are kept, but what reading them reported is
reported with the token. -/
def next (reader : Reader State) (keepComments : Bool) (file : FileId) (state : State) :
    Lexed × State :=
  match found : (reader.move file state).item with
  | none =>
      have lower := reader.descends file state (by simp [Move.isFinal, found])
      reader.next keepComments file (reader.move file state).state
  | some item =>
      if comment : item.token = .comment ∧ keepComments = false then
        have lower := reader.descends file state
          (by simp [Move.isFinal, found, Lexed.isFinal, comment.1])
        let (later, final) := reader.next keepComments file (reader.move file state).state
        ({ later with reports := item.reports ++ later.reports }, final)
      else (item, (reader.move file state).state)
termination_by reader.weight state

def items (reader : Reader State) (file : FileId) (state : State) : List Lexed :=
  match found : (reader.move file state).item with
  | none =>
      have lower := reader.descends file state (by simp [Move.isFinal, found])
      reader.items file (reader.move file state).state
  | some item =>
      if final : item.isFinal = true then [item]
      else
        have lower := reader.descends file state (by simpa [Move.isFinal, found] using final)
        item :: reader.items file (reader.move file state).state
termination_by reader.weight state

end Reader

end Offside.Lexical
