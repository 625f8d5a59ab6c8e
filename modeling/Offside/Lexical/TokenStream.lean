import Offside.Lexical.Reader

/-!
Token streams: finitely many tokens, then the end of input for ever. The end of input may also stand
among the tokens, and comments may. A stream knows its size, so that progress through it can be
measured at any time without counting.
-/

namespace Offside.Lexical

set_option autoImplicit false

structure TokenStream where
  items : List Lexed
  /-- Where the end of input is found once all tokens were handed out. -/
  finish : Span
  size : Nat
  size_eq : size = items.length

namespace TokenStream

def finishOf (items : List Lexed) : Span :=
  match items.getLast? with
  | some last => Span.point last.span.stop last.span.file
  | none => .zero

def ofItems (items : List Lexed) : TokenStream := ⟨items, finishOf items, items.length, rfl⟩

def drop (stream : TokenStream) (count : Nat) : TokenStream :=
  ⟨stream.items.drop count, stream.finish, stream.size - count, by
    rw [List.length_drop, stream.size_eq]⟩

def next (stream : TokenStream) : Lexed × TokenStream :=
  match stream.items with
  | [] => (.silent .endOfInput stream.finish, stream)
  | item :: _ => (item, stream.drop 1)

def comments (stream : TokenStream) : List Lexed := stream.items.takeWhile Lexed.isComment

def afterComments (stream : TokenStream) : TokenStream := stream.drop stream.comments.length

theorem ext {left right : TokenStream} (items : left.items = right.items)
    (finish : left.finish = right.finish) : left = right := by
  obtain ⟨_, _, _, leftSize⟩ := left
  obtain ⟨_, _, _, rightSize⟩ := right
  cases items
  cases finish
  cases leftSize
  cases rightSize
  rfl

@[simp] theorem items_ofItems (items : List Lexed) : (ofItems items).items = items := rfl

theorem items_afterComments (stream : TokenStream) :
    stream.afterComments.items = stream.items.dropWhile Lexed.isComment := by
  have split := List.takeWhile_append_dropWhile (p := Lexed.isComment) (l := stream.items)
  calc stream.items.drop (stream.items.takeWhile Lexed.isComment).length
      = (stream.items.takeWhile Lexed.isComment ++
          stream.items.dropWhile Lexed.isComment).drop
            (stream.items.takeWhile Lexed.isComment).length := by rw [split]
    _ = stream.items.dropWhile Lexed.isComment := List.drop_left

theorem size_drop_le (stream : TokenStream) (count : Nat) :
    (stream.drop count).size ≤ stream.size :=
  Nat.sub_le _ _

/-- A token other than the end of input is handed out of the stream. -/
theorem size_next (stream : TokenStream) (inner : stream.next.1.isFinal = false) :
    stream.next.2.size < stream.size := by
  have sized := stream.size_eq
  unfold next at inner ⊢
  split
  · rename_i found
    simp [found, Lexed.isFinal, Lexed.silent] at inner
  · rename_i found
    rw [found, List.length_cons] at sized
    change stream.size - 1 < stream.size
    omega

theorem size_next_le (stream : TokenStream) : stream.next.2.size ≤ stream.size := by
  unfold next
  split
  · exact Nat.le_refl _
  · exact size_drop_le stream 1

end TokenStream

def Reader.stream {State : Type} (reader : Reader State) (file : FileId) (source : List Char) :
    TokenStream :=
  .ofItems (reader.items file (reader.start source))

end Offside.Lexical
