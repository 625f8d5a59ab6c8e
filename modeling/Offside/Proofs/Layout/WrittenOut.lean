import Mathlib.Data.List.Nodup
import Offside.Proofs.Layout.Braced

/-!
Layout stands for explicit braces. The tokens that layout adds are written into the source, each at the
byte offset of its place, and the new source is read: nothing is wrong with it, layout adds nothing to
it, and it holds the same tokens with the same texts.
-/

namespace Offside

set_option autoImplicit false

open Offside.Lexical

/-- A text with another one put in after its first bytes. -/
def insertBytes (offset : Nat) (text source : List Char) : List Char :=
  match splitBytes? offset source with
  | some (front, back) => front ++ (text ++ back)
  | none => source

theorem insertBytes_append (front text back : List Char) :
    insertBytes (byteCount front) text (front ++ back) = front ++ (text ++ back) := by
  rw [insertBytes, splitBytes?_append]

/-- The lexemes at the tokens of some width, in their order. -/
def Context.lexemesOf (context : Context) (tokens : List (Token × Span)) : List Lexeme :=
  (tokens.filter fun found => !found.2.isPoint).filterMap fun found =>
    context.lexemeAt found.2.start

namespace Haskell

def isUnwritten (found : Token × Span) : Bool := Layout.isAdded found.1 && found.2.isPoint

/-- A source with all unwritten braces and semicolons of its tokens put in, each on a line of its own.
The last is put in first, so that the offsets of the others stay. -/
def writtenOut (source : List Char) (tokens : List (Token × Span)) : List Char :=
  (tokens.filter isUnwritten).foldr
    (fun found text =>
      insertBytes (byteOffset source found.2.start)
        ('\n' :: (found.1.display.toList ++ ['\n'])) text)
    source

namespace Lexer

theorem behind_place (lexer : Lexer) :
    lexer.place.behind.reverse = lexer.cursor.behind.reverse ++ lexer.gap := by
  rw [place, Cursor.skipWhile, Cursor.behind_skip, gap]
  congr 1
  exact (List.prefix_iff_eq_take.1 (List.takeWhile_prefix _)).symm

theorem cursor_behind_pastNext (lexer : Lexer) :
    lexer.pastNext.cursor.behind.reverse =
      lexer.cursor.behind.reverse ++ (lexer.gap ++ lexer.nextText) := by
  rw [cursor_pastNext, Cursor.behind_skip, behind_place, List.append_assoc]
  rfl

theorem stands_pastNext {source : List Char} {lexer : Lexer}
    (stands : lexer.cursor.Stands source) : lexer.pastNext.cursor.Stands source := by
  rw [cursor_pastNext]
  exact (stands.skipWhile _).skip _

theorem byteOffset_place {source : List Char} {lexer : Lexer}
    (stands : lexer.cursor.Stands source) :
    byteOffset source lexer.place.position =
      byteCount (lexer.cursor.behind.reverse ++ lexer.gap) := by
  have placed : lexer.place.Stands source := stands.skipWhile _
  have whole : lexer.place.behind.reverse ++ lexer.place.ahead = source := placed.text
  rw [placed.position, ← behind_place, ← byteOffset_afterAll _ lexer.place.ahead, whole]

/-- Tokens that layout adds at one place are put in there in their order. -/
theorem insert_added {source : List Char} {lexer : Lexer} (stands : lexer.cursor.Stands source)
    (file : FileId) (added : List Token) (text : List Char) :
    (added.map (·, (lexer.nextWritten file).span.atStart)).foldr
      (fun found text =>
        insertBytes (byteOffset source found.2.start)
          ('\n' :: (found.1.display.toList ++ ['\n'])) text)
      (lexer.cursor.behind.reverse ++ lexer.gap ++ text) =
    lexer.cursor.behind.reverse ++ lexer.gap ++ (inserted added ++ text) := by
  induction added with
  | nil => rfl
  | cons token added induction =>
    have here : byteOffset source (lexer.nextWritten file).span.atStart.start =
        byteCount (lexer.cursor.behind.reverse ++ lexer.gap) := byteOffset_place stands
    rw [List.map_cons, List.foldr_cons, induction, here, insertBytes_append]
    simp [inserted]

theorem filter_added {added : List Token} (known : Layout.AreAdded added) (span : Span) :
    (added.map (·, span.atStart)).filter isUnwritten = added.map (·, span.atStart) := by
  rw [List.filter_eq_self]
  intro found member
  obtain ⟨token, among, rfl⟩ := List.mem_map.1 member
  simp [isUnwritten, known token among, Layout.atStart_point]

theorem nextWritten_isWritten (file : FileId) (lexer : Lexer) :
    isUnwritten ((lexer.nextWritten file).token, (lexer.nextWritten file).span) = false := by
  have wide := nextWritten_wide file lexer
  by_cases ended : (lexer.nextWritten file).token = .endOfInput
  · simp [isUnwritten, ended, Layout.isAdded]
  · simp [isUnwritten, wide, ended]

/-- By induction over the text: what is put in after the part that was read makes layout written out
of the part ahead. -/
theorem writtenOut_ahead {source : List Char} (file : FileId) (layout : Layout) (lexer : Lexer)
    (stands : lexer.cursor.Stands source) :
    writtenOut source (layout.spread (lexer.scanned file)) =
      lexer.cursor.behind.reverse ++ lexer.bracedText file layout := by
  have isWritten := fun lexer => nextWritten_isWritten file lexer
  fun_induction bracedText file layout lexer with
  | case1 layout lexer step ended =>
    have other : (lexer.nextWritten file).token ≠ .comment := by simp [nextWritten, ended]
    have known := Layout.step_added (lexer.nextWritten file) layout
    have whole : source = lexer.cursor.behind.reverse ++ lexer.gap ++ [] := by
      have none : lexer.place.ahead = [] := by
        by_contra remains
        exact nextScan_inner remains ended
      rw [← stands.text, Cursor.text, ← gap_append, none, List.append_assoc]
    rw [scanned, dif_pos ended, Layout.spread_of_written other, writtenOut, List.filter_append,
      filter_added known, List.filter_cons_of_neg (by simpa using isWritten lexer)]
    simp only [Layout.spread, List.filter_nil, List.append_nil]
    have put := insert_added stands file step.1 []
    rw [← whole] at put
    rw [put, List.append_nil, List.append_assoc]
  | case2 layout lexer inner shorter comment induction =>
    rw [scanned, dif_neg inner, Layout.spread_of_comment comment, writtenOut,
      List.filter_cons_of_neg (by simpa using isWritten lexer)]
    refine (induction (stands_pastNext stands)).trans ?_
    rw [cursor_behind_pastNext, List.append_assoc, List.append_assoc]
  | case3 layout lexer step inner shorter other induction =>
    have known := Layout.step_added (lexer.nextWritten file) layout
    have later := induction (stands_pastNext stands)
    rw [writtenOut, cursor_behind_pastNext, List.append_assoc, List.append_assoc,
      ← List.append_assoc] at later
    rw [scanned, dif_neg inner, Layout.spread_of_written other, writtenOut, List.filter_append,
      filter_added known, List.filter_cons_of_neg (by simpa using isWritten lexer),
      List.foldr_append, later, insert_added stands, List.append_assoc]

theorem texts_tokens (file : FileId) (lexer : Lexer) :
    lexer.texts.map Prod.fst = (lexer.scanned file).map Written.token := by
  fun_induction texts lexer with
  | case1 lexer ended =>
    rw [scanned, dif_pos ended]
    simp [nextWritten, ended]
  | case2 lexer inner shorter induction =>
    rw [scanned, dif_neg inner, List.map_cons, List.map_cons, induction]
    rfl

theorem bracedTexts_tokens (file : FileId) (layout : Layout) (lexer : Lexer) :
    (lexer.bracedTexts file layout).map Prod.fst =
      (layout.spread (lexer.scanned file)).map Prod.fst := by
  have added : ∀ (tokens : List Token) (span : Span),
      (tokens.map spelled).map Prod.fst = (tokens.map (·, span)).map Prod.fst := by
    intro tokens span
    rw [List.map_map, List.map_map]
    rfl
  fun_induction bracedTexts file layout lexer with
  | case1 layout lexer step ended =>
    have other : (lexer.nextWritten file).token ≠ .comment := by simp [nextWritten, ended]
    rw [scanned, dif_pos ended, Layout.spread_of_written other, List.map_append,
      List.map_append, added step.1 (lexer.nextWritten file).span.atStart]
    exact congrArg (_ ++ [·]) ended.symm
  | case2 layout lexer inner shorter comment induction =>
    rw [scanned, dif_neg inner, Layout.spread_of_comment comment, List.map_cons, List.map_cons,
      induction]
    exact congrArg (· :: _) comment.symm
  | case3 layout lexer step inner shorter other induction =>
    rw [scanned, dif_neg inner, Layout.spread_of_written other, List.map_append,
      List.map_append, added step.1 (lexer.nextWritten file).span.atStart, List.map_cons,
      List.map_cons, induction]
    rfl

def lexemesIn (texts : List (Token × List Char)) : List Lexeme :=
  texts.filterMap fun found =>
    (Lexeme.Category.ofToken? found.1).map (⟨·, String.ofList found.2⟩)

theorem lexemesIn_append (first second : List (Token × List Char)) :
    lexemesIn (first ++ second) = lexemesIn first ++ lexemesIn second :=
  List.filterMap_append

theorem lexemesIn_added {added : List Token} (known : Layout.AreAdded added)
    (keeps : Token → Bool) :
    lexemesIn ((added.map spelled).filter fun found => keeps found.1) = [] := by
  apply List.filterMap_eq_nil_iff.2
  intro found member
  obtain ⟨token, among, rfl⟩ := List.mem_map.1 (List.mem_of_mem_filter member)
  have kind := known token among
  simp only [Layout.isAdded, Bool.or_eq_true, decide_eq_true_eq] at kind
  rcases kind with (rfl | rfl) | rfl
  · rfl
  · rfl
  · rfl

theorem lexemesIn_bracedTexts (file : FileId) (layout : Layout) (lexer : Lexer)
    (keeps : Token → Bool) :
    lexemesIn ((lexer.bracedTexts file layout).filter fun found => keeps found.1) =
      lexemesIn (lexer.texts.filter fun found => keeps found.1) := by
  have cons : ∀ (found : Token × List Char) {left right : List (Token × List Char)},
      lexemesIn (left.filter fun found => keeps found.1) =
        lexemesIn (right.filter fun found => keeps found.1) →
      lexemesIn ((found :: left).filter fun found => keeps found.1) =
        lexemesIn ((found :: right).filter fun found => keeps found.1) := by
    intro found left right same
    rw [List.filter_cons, List.filter_cons]
    split
    · exact (lexemesIn_append [found] _).trans
        ((congrArg _ same).trans (lexemesIn_append [found] _).symm)
    · exact same
  fun_induction bracedTexts file layout lexer with
  | case1 layout lexer step ended =>
    rw [texts, dif_pos ended, List.filter_append, lexemesIn_append,
      lexemesIn_added (Layout.step_added _ _), List.nil_append]
  | case2 layout lexer inner shorter comment induction =>
    rw [texts, dif_neg inner, comment]
    exact cons _ induction
  | case3 layout lexer step inner shorter other induction =>
    rw [texts, dif_neg inner, List.filter_append, lexemesIn_append,
      lexemesIn_added (Layout.step_added _ _), List.nil_append]
    exact cons _ induction

theorem readings_entries (file : FileId) (lexer : Lexer) :
    ∀ reading ∈ lexer.readings file, ∀ entry ∈ reading.entries,
      entry.place = reading.span.start ∧ entry.token = reading.token := by
  have next : ∀ (lexer : Lexer), ∀ entry ∈ (lexer.nextItem file).entries,
      entry.place = (lexer.nextItem file).span.start ∧
        entry.token = (lexer.nextItem file).token := by
    intro lexer entry own
    rw [List.mem_singleton.1 own]
    exact ⟨rfl, rfl⟩
  fun_induction Lexer.readings file lexer with
  | case1 lexer ended =>
    intro reading read
    rw [List.mem_singleton.1 read]
    exact next lexer
  | case2 lexer inner shorter induction =>
    exact List.forall_mem_cons.2 ⟨next lexer, induction⟩

/-- What a table holds where the tokens start are the lexemes of their texts. -/
theorem lexemesIn_texts (file : FileId) (lexer : Lexer) (keeps : Token → Bool)
    (look : Position → Option Lexeme)
    (known : ∀ reading ∈ lexer.readings file, keeps reading.token = true →
      ∀ entry ∈ reading.entries, look reading.span.start = entry.lexeme?) :
    (((lexer.scanned file).filter fun written =>
        keeps written.token && written.token != .endOfInput).filterMap
      fun written => look written.span.start) =
      lexemesIn (lexer.texts.filter fun found => keeps found.1) := by
  fun_induction Lexer.readings file lexer with
  | case1 lexer ended =>
    rw [scanned, dif_pos ended, texts, dif_pos ended,
      List.filter_cons_of_neg (by simp [nextWritten, ended])]
    by_cases kept : keeps .endOfInput = true
    · rw [List.filter_cons_of_pos (by simpa using kept)]
      rfl
    · rw [List.filter_cons_of_neg (by simpa using kept)]
      rfl
  | case2 lexer inner shorter induction =>
    rw [List.forall_mem_cons] at known
    have later := induction known.2
    rw [scanned, dif_neg inner, texts, dif_neg inner]
    by_cases kept : keeps lexer.nextScan.token = true
    · have here := known.1 kept _ (List.mem_singleton_self _)
      have found : look (lexer.nextWritten file).span.start =
          (Lexeme.Category.ofToken? lexer.nextScan.token).map
            (⟨·, String.ofList lexer.nextText⟩) := here
      rw [List.filter_cons_of_pos (by simp [nextWritten, kept, inner]),
        List.filter_cons_of_pos (by simpa using kept), List.filterMap_cons, found, later,
        lexemesIn, lexemesIn, List.filterMap_cons]
    · rw [List.filter_cons_of_neg (by simp [nextWritten, kept]),
        List.filter_cons_of_neg (by simpa using kept), later]

end Lexer

section Lexing

variable {file : FileId} {keepComments : Bool} {source : List Char}

theorem lex_located (context : Context) (source : List Char) :
    (context.lex .haskell source).1 =
      (Layout.spread {} (scannedTokens context.file source)).filter
        fun found => context.keepComments || found.1 != .comment := by
  rw [← stream_located, List.filter_map]
  rfl

theorem lex_diagnostics (source : List Char) (file : FileId) (keepComments : Bool) :
    (({ file, keepComments } : Context).lex .haskell source).2.diagnostics = #[] ↔
      reportsOf (sourceReadings file source) = [] := by
  have reports : (({ file, keepComments } : Context).lex .haskell source).2.diagnostics =
      (#[] : Array Diagnostic) ++ reportsOf (reader.stream file source).items := by
    change (Context.absorbAll _ (reader.stream file source).items).diagnostics = _
    rw [Context.absorbAll_eq]
  rw [reports, stream_reports, ← Array.toList_inj]
  simp

/-- The lexeme found where a token starts that was read is the one that it left. -/
theorem lexemeAt_start (source : List Char) (file : FileId) (keepComments : Bool)
    {reading : Lexed} (read : reading ∈ sourceReadings file source)
    (shown : (keepComments || reading.token != .comment) = true)
    {entry : Entry} (own : entry ∈ reading.entries) (here : entry.place = reading.span.start)
    (kind : entry.token = reading.token) :
    (({ file, keepComments } : Context).lex .haskell source).2.lexemeAt reading.span.start =
      entry.lexeme? := by
  have accounts := stream_accounts file source
  have among : entry ∈ entriesOf (sourceReadings file source) :=
    List.mem_flatMap.2 ⟨reading, read, own⟩
  have nodup : ((entriesOf (sourceReadings file source)).map Entry.place).Nodup :=
    ((Lexer.readings_increasing file _).1.imp Position.ne_of_lt).map _ fun _ _ differs => differs
  apply Option.ext
  intro lexeme
  refine (accounts.lexemeAt rfl reading.span.start lexeme).trans ?_
  constructor
  · rintro ⟨other, readOther, found, ownFound, -, place, lexed⟩
    have amongFound : found ∈ entriesOf (sourceReadings file source) :=
      List.mem_flatMap.2 ⟨other, readOther, ownFound⟩
    rw [List.inj_on_of_nodup_map nodup among amongFound (here.trans place.symm)]
    exact lexed
  · intro lexed
    refine ⟨reading, read, entry, own, ?_, here, lexed⟩
    rw [Context.records, kind]
    exact shown

theorem lexemesOf_lex (source : List Char) (file : FileId) (keepComments : Bool) :
    let lexed := ({ file, keepComments } : Context).lex .haskell source
    lexed.2.lexemesOf lexed.1 =
      Lexer.lexemesIn ((Lexer.start source).texts.filter fun found =>
        keepComments || found.1 != .comment) := by
  intro lexed
  have wide : lexed.1.filter (fun found => !found.2.isPoint) =
      ((scannedTokens file source).filter fun written =>
        (keepComments || written.token != .comment) && written.token != .endOfInput).map
          Written.located := by
    rw [show lexed.1 = _ from lex_eq_spread _ _,
      Layout.spread_wide (shownTokens_wide keepComments file source) {}, List.filter_map,
      shownTokens, List.filter_filter]
    congr 1
    apply List.filter_congr
    intro written _
    exact Bool.and_comm _ _
  rw [Context.lexemesOf, wide, List.filterMap_map]
  apply Lexer.lexemesIn_texts file (Lexer.start source)
    (fun token => keepComments || token != .comment)
  intro reading read shown entry own
  obtain ⟨here, kind⟩ := Lexer.readings_entries file _ reading read entry own
  exact lexemeAt_start source file keepComments read shown own here kind

/-- Which tokens are unwritten does not depend on whether comments are kept. -/
theorem writtenOut_lex (context : Context) (source : List Char) :
    writtenOut source (context.lex .haskell source).1 =
      writtenOut source (Layout.spread {} (scannedTokens context.file source)) := by
  rw [writtenOut, writtenOut, lex_located, List.filter_filter]
  congr 1
  apply List.filter_congr
  rintro ⟨token, span⟩ _
  cases added : Layout.isAdded token with
  | false => simp [isUnwritten, added]
  | true => simp [isUnwritten, added, Layout.added_ne_comment added]

theorem start_yields (sound : reportsOf (sourceReadings file source) = []) :
    (Lexer.start ((Lexer.start source).bracedText file {})).Yields file {}
      ((Lexer.start source).bracedTexts file {}) := by
  have behind : ∀ source, (Lexer.start source).EndsBehind := fun source place ends => nomatch ends
  have sane : (Lexer.start source).Sane file {} :=
    { behind := behind source
      fresh := fun _ => rfl
      idle := fun _ => rfl
      near := fun touches => nomatch touches
      sound }
  exact Lexer.yields_braced sane
    { behind := behind _
      explicit := fun block member => nomatch member
      ahead := rfl
      blank := fun character member => nomatch member }
    rfl rfl rfl

end Lexing

/-- Layout is as good as braces. A source in which nothing is wrong is read again with all braces and
semicolons written out that layout had added: nothing is wrong with it either, layout adds nothing to
it, and the tokens and their texts are the same. -/
theorem layout_written_out (source : List Char) (file : FileId) (keepComments : Bool) :
    let context : Context := { file, keepComments }
    let lexed := context.lex .haskell source
    let again := context.lex .haskell (writtenOut source lexed.1)
    lexed.2.diagnostics = #[] →
      again.2.diagnostics = #[] ∧
        (∀ found ∈ again.1, found.2.isPoint = true → found.1 = .endOfInput) ∧
        again.1.map Prod.fst = lexed.1.map Prod.fst ∧
        again.2.lexemesOf again.1 = lexed.2.lexemesOf lexed.1 := by
  intro context lexed again clean
  have braced : writtenOut source lexed.1 = (Lexer.start source).bracedText file {} := by
    rw [writtenOut_lex]
    exact Lexer.writtenOut_ahead file {} (Lexer.start source) (Cursor.stands_ofText source)
  have yields := start_yields ((lex_diagnostics source file keepComments).1 clean)
  rw [← braced] at yields
  have tokens : again.1 = ((scannedTokens file (writtenOut source lexed.1)).map
      Written.located).filter fun found => keepComments || found.1 != .comment := by
    rw [scannedTokens, ← yields.silent]
    exact lex_located context _
  refine ⟨(lex_diagnostics _ file keepComments).2 yields.sound, ?_, ?_, ?_⟩
  · intro found member point
    rw [tokens] at member
    obtain ⟨written, scanned, rfl⟩ := List.mem_map.1 (List.mem_of_mem_filter member)
    have wide := Lexer.scanned_wide file _ written scanned
    rw [show written.span.isPoint = true from point] at wide
    exact beq_iff_eq.1 wide.symm
  · have names : ∀ (tokens : List (Token × Span)),
        (tokens.filter fun found => keepComments || found.1 != .comment).map Prod.fst =
          (tokens.map Prod.fst).filter fun token => keepComments || token != .comment := by
      intro tokens
      rw [List.filter_map]
      rfl
    have located : ((scannedTokens file (writtenOut source lexed.1)).map
        Written.located).map Prod.fst =
        (scannedTokens file (writtenOut source lexed.1)).map Written.token := by
      rw [List.map_map]
      rfl
    rw [tokens, names, located, scannedTokens, ← Lexer.texts_tokens, yields.texts,
      Lexer.bracedTexts_tokens, show lexed.1 = _ from lex_located context source, names]
    rfl
  · rw [show again.2.lexemesOf again.1 = _ from lexemesOf_lex _ file keepComments,
      show lexed.2.lexemesOf lexed.1 = _ from lexemesOf_lex _ file keepComments, yields.texts]
    exact Lexer.lexemesIn_bracedTexts file {} (Lexer.start source)
      fun token => keepComments || token != .comment

/-- A text of three blocks, of which the last is closed by the bracket around it. -/
def blockText : List Char := "f = do\n  a M.! b\n  (case c of d -> 1)\ng = 2".toList

theorem layout_written_out_blocks :
    (({} : Context).lex .haskell blockText).2.diagnostics = #[] ∧
      (({} : Context).lex .haskell
        (writtenOut blockText (({} : Context).lex .haskell blockText).1)).2.diagnostics = #[] := by
  have clean : (({} : Context).lex .haskell blockText).2.diagnostics = #[] :=
    (lex_diagnostics blockText .single false).2 (by decide +kernel)
  exact ⟨clean, (layout_written_out blockText .single false clean).1⟩

end Haskell

end Offside
