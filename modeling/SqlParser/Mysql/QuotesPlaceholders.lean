import SqlParser.Core.BindScannerOrder
import SqlParser.Mysql.QuotesPublicLexer

/-! # Placeholders of the quote pass and of the bind scanner

Where the public lexer agrees with every piece of the quote pass, the bind scanner
reports exactly the placeholders that the quote pass numbers.
-/

namespace SqlParser.Mysql

open SqlParser.Core

/-! ## The pieces of a text -/

/-- A turn of the loop at its offset in the text. -/
structure PlacedPiece where
  start : Nat
  text : Text
  piece : Piece
  behind : Text
  turns : Turns text piece behind

def PlacedPiece.stop (placed : PlacedPiece) : Nat :=
  placed.start + placed.piece.source.length

/-- The turns of the loop over a text whose rest begins at an offset. -/
def placedPieces (start : Nat) (text : Text) : Except Error (List PlacedPiece) :=
  match text with
  | [] => .ok []
  | byte :: rest =>
    match _turn : nextPiece true byte rest with
    | .error error => .error error
    | .ok (piece, behind) =>
      (placedPieces (start + piece.source.length) behind).map
        (⟨start, byte :: rest, piece, behind, nextPiece_turns _turn⟩ :: ·)
termination_by text.length
decreasing_by exact nextPiece_shorter _turn

theorem placedPieces_cons {byte : UInt8} {rest behind : Text} {piece : Piece} (start : Nat)
    (turn : nextPiece true byte rest = .ok (piece, behind)) :
    placedPieces start (byte :: rest) =
      (placedPieces (start + piece.source.length) behind).map
        (⟨start, byte :: rest, piece, behind, nextPiece_turns turn⟩ :: ·) := by
  rw [placedPieces]
  split
  next fails => rw [turn] at fails; cases fails
  next takes => rw [turn] at takes; cases takes; rfl

def quotePieces (sql : Text) : List PlacedPiece :=
  match placedPieces 0 sql with
  | .ok pieces => pieces
  | .error _ => []

def PlacedPiece.isPlaceholder (placed : PlacedPiece) : Bool :=
  placed.piece.kind = .placeholder

/-- The offsets of the placeholders that the quote pass replaces. -/
def replacedOffsets (sql : Text) : List Nat :=
  ((quotePieces sql).filter PlacedPiece.isPlaceholder).map PlacedPiece.start

theorem finishPiece_count {state next : QuoteState} {piece : Piece} {output : Text}
    (finished : finishPiece state piece = .ok (next, output)) :
    next.positionalParamCount = state.positionalParamCount + if piece.kind = .placeholder then 1 else 0 := by
  unfold finishPiece at finished
  split at finished
  next kind =>
    cases finished
    rw [kind]
    rfl
  next kind =>
    cases finished
    rw [kind]
    rfl
  next kind =>
    split at finished
    next => cases finished
    next =>
      cases finished
      rw [if_pos kind]
  next _ _ other =>
    cases finished
    rw [if_neg other]
    rfl

/-- An accepted text has pieces, and the state counts their placeholders. -/
theorem preprocessLoop_pieces {text out output : Text} {state next : QuoteState} (start : Nat)
    (accepted : preprocessLoop (some state) text out = .ok (some next, output)) :
    ∃ pieces, placedPieces start text = .ok pieces ∧
      next.positionalParamCount =
        state.positionalParamCount + (pieces.filter PlacedPiece.isPlaceholder).length := by
  generalize given : some state = current at accepted
  fun_induction preprocessLoop current text out generalizing state start with
  | case1 => 
    cases accepted
    cases given
    rw [placedPieces]
    exact ⟨[], rfl, rfl⟩
  | case2 => cases accepted
  | case3 => cases given
  | case4 => cases accepted
  | case5 out byte rest piece behind current turn later output' finished _ inductionHypothesis =>
    cases given
    obtain ⟨pieces, read, counted⟩ := inductionHypothesis (start + piece.source.length) rfl accepted
    refine ⟨⟨start, byte :: rest, piece, behind, nextPiece_turns turn⟩ :: pieces, ?_, ?_⟩
    · rw [placedPieces_cons start turn, read]
      rfl
    · rw [counted, finishPiece_count finished, List.filter_cons]
      unfold PlacedPiece.isPlaceholder
      split
      next kind => simp_all; omega
      next kind => simp_all

/-- The piece stands at its offset. -/
def PlacedPiece.LocatedIn (placed : PlacedPiece) (sql : Text) : Prop :=
  sql.drop placed.start = placed.text

section located

variable {placed : PlacedPiece} {sql : Text}

theorem PlacedPiece.LocatedIn.inside (located : placed.LocatedIn sql) : placed.start < sql.length := by
  have := (placed.turns.split).2
  have size : (sql.drop placed.start).length = placed.text.length := congrArg _ located
  rw [List.length_drop] at size
  omega

theorem PlacedPiece.LocatedIn.drop_stop (located : placed.LocatedIn sql) : sql.drop placed.stop = placed.behind := by
  rw [PlacedPiece.stop, ← List.drop_drop, located, ← placed.turns.split.1, List.drop_left]

theorem PlacedPiece.LocatedIn.stop_le (located : placed.LocatedIn sql) : placed.stop ≤ sql.length := by
  have inside := located.inside
  have size : (sql.drop placed.start).length = (placed.piece.source ++ placed.behind).length := by
    rw [located, placed.turns.split.1]
  rw [List.length_drop, List.length_append] at size
  unfold PlacedPiece.stop
  omega

theorem PlacedPiece.LocatedIn.offsetOf_behind (located : placed.LocatedIn sql) :
    offsetOf sql placed.behind = placed.stop := by
  rw [← located.drop_stop, offsetOf_drop located.stop_le]

/-- An item ends with the piece if the same rest stands behind both. -/
theorem PlacedPiece.LocatedIn.ends_iff (located : placed.LocatedIn sql) {rest : Text} (suffix : rest <:+ placed.text) :
    offsetOf sql rest = placed.stop ↔ rest = placed.behind := by
  have inText : placed.text <:+ sql := by
    rw [← located]
    exact List.drop_suffix _ _
  constructor
  · intro same
    rw [← drop_offsetOf (suffix.trans inText), same, located.drop_stop]
  · rintro rfl
    exact located.offsetOf_behind

end located

/-! ## Agreement piece by piece -/

/-- The public lexer ends the quoted item or comment of a piece where the piece ends, up to the
line feed behind a comment, and sees no such item in a piece of code. -/
def PlacedPiece.AgreesWithPublicLexer (placed : PlacedPiece) (sql : Text) : Prop :=
  let skip := publicSkipQuotedOrComment .mysql sql
  match placed.piece.kind with
  | .dashComment =>
    skip placed.start = placed.stop ∨
      (skip placed.start + 1 = placed.stop ∧ byteAt sql (skip placed.start) = Byte.lineFeed)
  | .blockComment | .hashComment | .backtickIdentifier | .stringLiteral => skip placed.start = placed.stop
  | .nationalLiteral => skip placed.start = placed.start ∧ skip (placed.start + 1) = placed.stop
  | .dashes | .placeholder | .code => ∀ index, placed.start ≤ index → index < placed.stop → skip index = index

/-- The pieces on which the two lexers cannot fall out of step. -/
def PlacedPiece.inStep (placed : PlacedPiece) : Bool :=
  match placed.piece.kind with
  | .dashes => !(byteAt placed.behind 0 = Byte.dash && endsDashes (byteAt placed.behind 1))
  | .blockComment => byteAt placed.text 2 ≠ Byte.slash || placed.behind.isEmpty
  | .backtickIdentifier => backtickInStep (placed.text.drop 1)
  | _ => true

theorem behindLineFeed_ends {sql tail : Text} (suffix : tail <:+ sql) :
    offsetOf sql (behindLine tail) = offsetOf sql (behindLineFeed tail) ∨
      (offsetOf sql (behindLine tail) + 1 = offsetOf sql (behindLineFeed tail) ∧
        byteAt sql (offsetOf sql (behindLine tail)) = Byte.lineFeed) := by
  have lineSuffix : behindLine tail <:+ sql := (untilStop_suffix _ _).trans suffix
  unfold behindLineFeed
  cases line : behindLine tail with
  | nil => exact .inl rfl
  | cons feed rest =>
    have isFeed : feed = Byte.lineFeed := by
      have := List.head?_dropWhile_not (fun byte => !decide (byte = Byte.lineFeed)) tail
      have jumped : tail.dropWhile (fun byte => !decide (byte = Byte.lineFeed)) = feed :: rest := line
      rw [jumped] at this
      simpa using this
    rw [line] at lineSuffix
    have size := lineSuffix.length_le
    refine .inr ⟨?_, ?_⟩
    · rw [List.length_cons] at size
      simp [offsetOf]
      omega
    · rw [byteAt_eq_head, drop_offsetOf lineSuffix, isFeed]
      rfl

/-! ### Code

No byte of a piece of code, and neither of two dashes, opens a quoted item or a comment.
-/

theorem consumed_untilStop (stop : UInt8 → Bool) (tail : Text) :
    consumed tail (untilStop stop tail) = tail.takeWhile fun byte => !stop byte := by
  have split := @List.takeWhile_append_dropWhile _ (fun byte => !stop byte) tail
  have whole := consumed_append (untilStop_suffix stop tail)
  exact List.append_cancel_right (whole.trans split.symm)

/-- A byte of the run of a piece of code. -/
theorem codeRun_byte {tail : Text} {offset : Nat}
    (inside : offset < (consumed tail (untilStop stopsCode tail)).length) :
    ∃ byte rest, tail.drop offset = byte :: rest ∧ stopsCode byte = false := by
  rw [consumed_untilStop] at inside
  have bound := inside.trans_le (List.takeWhile_prefix _).length_le
  refine ⟨tail[offset], tail.drop (offset + 1), List.drop_eq_getElem_cons bound, ?_⟩
  have listed := List.mem_takeWhile_imp (List.getElem_mem inside)
  rw [(List.takeWhile_prefix _).getElem inside] at listed
  simpa using listed

theorem publicSkip_code {sql rest : Text} {index : Nat} {byte : UInt8} (located : sql.drop index = byte :: rest)
    (plain : stopsCode byte = false) : publicSkipQuotedOrComment .mysql sql index = index := by
  simp only [stopsCode, Bool.or_eq_false_iff, decide_eq_false_iff_not] at plain
  exact publicSkip_plain located (by grind) (by grind) (by grind) (by grind) (by grind) (by grind)

theorem publicSkip_codeStart {sql tail : Text} {index : Nat} {byte : UInt8} (located : sql.drop index = byte :: tail)
    (noQuote : byte ≠ Byte.quote) (noDoubleQuote : byte ≠ Byte.doubleQuote) (noBacktick : byte ≠ Byte.backtick)
    (noHash : byte ≠ Byte.hash) (noDashes : ¬ (byte = Byte.dash ∧ byteAt tail 0 = Byte.dash))
    (noComment : ¬ (byte = Byte.slash ∧ byteAt tail 0 = Byte.star)) :
    publicSkipQuotedOrComment .mysql sql index = index := by
  have noItem : ¬ (byte = Byte.backtick ∨ byte = Byte.quote ∨ byte = Byte.doubleQuote) := by
    rintro (backtick | quote | doubleQuote)
    · exact noBacktick backtick
    · exact noQuote quote
    · exact noDoubleQuote doubleQuote
  rw [publicSkip_mysql located, if_neg noHash, if_neg noItem]
  split_ifs with dash second slash star
  · exact absurd ⟨dash, second.1⟩ noDashes
  · rfl
  · exact absurd ⟨slash, star⟩ noComment
  · rfl
  · rfl

theorem behindFlatComment_shorter {rest : Text} (present : rest ≠ []) :
    (behindFlatComment rest).length < rest.length := by
  have positive := List.length_pos_iff.mpr present
  unfold behindFlatComment
  cases found : behindDelimiter [Byte.star, Byte.slash] rest with
  | none => exact positive
  | some tail =>
    have := behindDelimiter_shorter (by decide) found
    exact this

/-- The quote pass lets a comment end with the star that opens it, the public lexer does not. -/
theorem flatComment_agrees (tail : Text) :
    behindFlatComment tail = behindFlatComment (Byte.star :: tail) ↔
      (byteAt tail 0 ≠ Byte.slash || (behindFlatComment (Byte.star :: tail)).isEmpty) := by
  cases tail with
  | nil => exact ⟨fun _ => rfl, fun _ => rfl⟩
  | cons next tail =>
    by_cases slash : next = Byte.slash
    case neg =>
      have passes : behindFlatComment (Byte.star :: next :: tail) = behindFlatComment (next :: tail) := by
        rw [behindFlatComment, behindDelimiter, if_neg (by simp [Ne.symm slash])]
      rw [passes]
      simp [byteAt, slash]
    case pos =>
      subst slash
      have closes : behindFlatComment (Byte.star :: Byte.slash :: tail) = tail := rfl
      have passes : behindFlatComment (Byte.slash :: tail) = behindFlatComment tail := rfl
      rw [closes, passes]
      constructor
      · intro same
        have atEnd : tail = [] := by
          by_contra present
          exact absurd (behindFlatComment_shorter present) (by rw [same]; exact lt_irrefl _)
        simp [atEnd]
      · intro inStep
        have atEnd : tail = [] := by simpa [byteAt] using inStep
        rw [atEnd]
        rfl

theorem agrees_iff_inStep {placed : PlacedPiece} {sql : Text} (located : placed.LocatedIn sql) :
    placed.AgreesWithPublicLexer sql ↔ placed.inStep := by
  have ends {rest : Text} := @PlacedPiece.LocatedIn.ends_iff placed sql located rest
  have stops := located.offsetOf_behind
  have inText : placed.text <:+ sql := by
    rw [← located]
    exact List.drop_suffix _ _
  obtain ⟨start, text, piece, behind, turns⟩ := placed
  unfold PlacedPiece.LocatedIn at located
  dsimp only at located ends stops inText
  have locatedLater (offset : Nat) : sql.drop (start + offset) = text.drop offset := by
    rw [← List.drop_drop, located]
  cases turns with
  | @dashComment tail blank =>
    have tailSuffix : tail <:+ sql := (List.suffix_cons _ _).trans ((List.suffix_cons _ _).trans inText)
    have skip := publicSkip_mysql located
    rw [if_pos rfl, if_pos ⟨rfl, blank⟩] at skip
    refine ⟨fun _ => rfl, fun _ => ?_⟩
    unfold PlacedPiece.AgreesWithPublicLexer
    dsimp only
    rw [skip, ← stops]
    exact behindLineFeed_ends tailSuffix
  | dashes plain =>
    have first : publicSkipQuotedOrComment .mysql sql start = start := by
      rw [publicSkip_mysql located, if_pos rfl, if_neg]
      rintro ⟨-, blank⟩
      exact absurd blank (by rw [show byteAt (Byte.dash :: behind) 1 = byteAt behind 0 from rfl, plain]; decide)
    have second := publicSkip_mysql (locatedLater 1)
    rw [if_pos rfl] at second
    have tailSuffix : behind <:+ sql := (List.suffix_cons _ _).trans ((List.suffix_cons _ _).trans inText)
    unfold PlacedPiece.AgreesWithPublicLexer PlacedPiece.inStep
    dsimp only
    constructor
    · intro agrees
      have same := agrees (start + 1) (by omega) (by simp [PlacedPiece.stop])
      rw [second] at same
      split at same
      next opens =>
        -- the comment of the second dash would end before it begins
        have shorter : (behindLine (behind.drop 1)).length ≤ behind.length :=
          ((untilStop_suffix _ _).trans (List.drop_suffix 1 behind)).length_le
        simp only [PlacedPiece.stop, List.length_cons, List.length_nil] at stops
        unfold offsetOf at same stops
        omega
      next closed =>
        rw [Bool.not_eq_true', ← Bool.not_eq_true, Bool.and_eq_true, decide_eq_true_eq]
        exact closed
    · intro inStep index starts before
      obtain rfl | rfl : index = start ∨ index = start + 1 := by
        simp only [PlacedPiece.stop, List.length_cons, List.length_nil] at before
        omega
      · exact first
      · rw [Bool.not_eq_true', ← Bool.not_eq_true, Bool.and_eq_true, decide_eq_true_eq] at inStep
        rw [second, if_neg inStep]
  | @blockComment tail => 
    have skip := publicSkip_mysql located
    rw [if_neg (by decide), if_neg (by decide), if_pos rfl,
      if_pos (show byteAt (Byte.star :: tail) 0 = Byte.star from rfl)] at skip
    unfold PlacedPiece.AgreesWithPublicLexer PlacedPiece.inStep
    dsimp only
    rw [skip, ends ((behindFlatComment_suffix _).trans ((List.drop_suffix _ _).trans (List.suffix_cons _ _)))]
    rw [List.drop_one, List.tail_cons]
    exact flatComment_agrees tail
  | @nationalLiteral letter body output behind isN copied =>
    have first : publicSkipQuotedOrComment .mysql sql start = start := by
      obtain rfl | rfl := isN <;>
        exact publicSkip_plain located (by decide) (by decide) (by decide) (by decide) (by decide) (by decide)
    have second := publicSkip_mysql (locatedLater 1)
    rw [if_neg (by decide), if_neg (by decide), if_neg (by decide), if_pos (.inr (.inl rfl)),
      copyStringLiteral_public (by decide) copied] at second
    refine ⟨fun _ => rfl, fun _ => ?_⟩
    exact ⟨first, second.trans stops⟩
  | backtickIdentifier found =>
    have skip := publicSkip_mysql located
    rw [if_neg (by decide), if_neg (by decide), if_neg (by decide), if_pos (.inl rfl)] at skip
    unfold PlacedPiece.AgreesWithPublicLexer PlacedPiece.inStep
    dsimp only
    rw [skip, ends ((behindQuoted_suffix _ _ _).trans (List.suffix_cons _ _))]
    exact copyBacktickBody_agrees found
  | @stringLiteral quote body output behind isQuote copied =>
    have plain : quote ≠ Byte.backslash := by obtain rfl | rfl := isQuote <;> decide
    have skip : publicSkipQuotedOrComment .mysql sql start = offsetOf sql (behindQuoted quote true body) := by
      rw [publicSkip_mysql located]
      obtain rfl | rfl := isQuote <;> rfl
    refine ⟨fun _ => rfl, fun _ => ?_⟩
    unfold PlacedPiece.AgreesWithPublicLexer
    dsimp only
    rw [skip, copyStringLiteral_public plain copied]
    exact stops
  | hashComment =>
    refine ⟨fun _ => rfl, fun _ => ?_⟩
    unfold PlacedPiece.AgreesWithPublicLexer
    dsimp only
    rw [publicSkip_mysql located]
    exact stops
  | placeholder =>
    refine ⟨fun _ => rfl, fun _ index starts before => ?_⟩
    have same : index = start := by
      simp only [PlacedPiece.stop, List.length_singleton] at starts before
      omega
    rw [same]
    exact publicSkip_plain located (by decide) (by decide) (by decide) (by decide) (by decide) (by decide)
  | @code byte tail noQuote noDoubleQuote noBacktick noHash _ noDashes noComment _ =>
    refine ⟨fun _ => rfl, fun _ index starts before => ?_⟩
    obtain ⟨offset, rfl⟩ := Nat.exists_eq_add_of_le starts
    cases offset with
    | zero => exact publicSkip_codeStart located noQuote noDoubleQuote noBacktick noHash noDashes noComment
    | succ offset =>
      simp only [PlacedPiece.stop, List.length_cons] at before
      obtain ⟨later, rest, located, plain⟩ := @codeRun_byte tail offset (by omega)
      exact publicSkip_code ((locatedLater (offset + 1)).trans located) plain

/-! ## The bind scanner over a text without executable comments -/

/-- A scanner that stands at an index of a MySQL text, outside of executable comments. -/
def scannerAt (sql : Text) (index codeStart : Nat) : BindScanner :=
  ⟨.mysql, sql, sql.length, index, codeStart, 0, 0, 0, false⟩

/-- The offsets that are reported from an index on, whatever the scanner remembers of the statement. -/
def Reports (sql : Text) (index : Nat) (starts : List Nat) : Prop :=
  ∀ codeStart, (bindTokens (scannerAt sql index codeStart)).map BindToken.start = starts

section scanner

variable {sql : Text} {index codeStart : Nat} {starts : List Nat}

theorem reports_end (beyond : sql.length ≤ index) : Reports sql index [] := by
  intro codeStart
  have stops : (scannerAt sql index codeStart).turn = .stops := if_pos (Nat.not_lt_of_le beyond)
  rw [bindTokens_stops stops]
  rfl

/-- In MySQL only a question mark is a token. -/
theorem bindTokenAt_mysql (other : byteAt sql index ≠ Byte.question) :
    bindTokenAt (scannerAt sql index codeStart) index = none := by
  cases found : bindTokenAt (scannerAt sql index codeStart) index with
  | none => rfl
  | some token =>
    exfalso
    obtain question | dollar | colon | at' := bindTokenAt_cases found
    · exact other (bindQuestionToken_some question).1
    · obtain ⟨-, -, -, -, -, known, -⟩ := bindDollarToken_some dollar
      cases known with
      | inl isPublic => cases isPublic
      | inr marked => cases marked
    · cases (bindColonToken_some colon).1
    · cases (bindAtToken_some at').1

theorem reports_pass (inside : index < sql.length)
    (unskipped : publicSkipQuotedOrComment .mysql sql index = index) (other : byteAt sql index ≠ Byte.question)
    (rest : Reports sql (index + 1) starts) : Reports sql index starts := by
  intro codeStart
  have turn : ∃ codeStart', (scannerAt sql index codeStart).turn = .continues (scannerAt sql (index + 1) codeStart') := by
    have noToken := @bindTokenAt_mysql sql index codeStart other
    unfold scannerAt at noToken ⊢
    unfold BindScanner.turn
    dsimp only at noToken ⊢
    rw [if_neg (not_not.mpr inside), if_neg (fun leaves => leaves.1 rfl)]
    split
    next => exact ⟨_, rfl⟩
    next =>
      split
      next => exact ⟨_, rfl⟩
      next =>
        rw [if_neg (not_not.mpr unskipped), noToken]
        exact ⟨_, rfl⟩
  obtain ⟨codeStart', turn⟩ := turn
  rw [bindTokens_continues turn]
  exact rest codeStart'

theorem reports_question (question : byteAt sql index = Byte.question)
    (rest : Reports sql (index + 1) starts) : Reports sql index (index :: starts) := by
  intro codeStart
  have inside := lt_of_byteAt (question.trans_ne (by decide))
  have located := drop_eq_byteAt inside
  rw [question] at located
  have unskipped : publicSkipQuotedOrComment .mysql sql index = index :=
    publicSkip_plain located (by decide) (by decide) (by decide) (by decide) (by decide) (by decide)
  have turn : (scannerAt sql index codeStart).turn =
      .finds ⟨index, index + 1, 0, 0, .positional⟩ (scannerAt sql (index + 1) sizeMax) := by
    unfold scannerAt BindScanner.turn
    dsimp only
    rw [if_neg (not_not.mpr inside), if_neg (fun leaves => leaves.1 rfl), if_neg (by rw [question]; decide),
      if_neg (by rw [question]; decide), if_neg (not_not.mpr unskipped), bindTokenAt,
      bindQuestionToken_of question rfl]
    rfl
  rw [bindTokens_finds turn, List.map_cons, rest sizeMax]

theorem stopsCode_visible {byte : UInt8} (stops : stopsCode byte) : isSpace byte = false ∧ byte ≠ Byte.semicolon := by
  simp only [stopsCode, Bool.or_eq_true, decide_eq_true_eq] at stops
  obtain ((((((((rfl | rfl) | rfl) | rfl) | rfl) | rfl) | rfl) | rfl) | rfl) | rfl := stops <;> decide

/-- A quoted item or a comment that is no executable comment is skipped. -/
theorem reports_skip {skipped : Nat} (inside : index < sql.length)
    (skips : publicSkipQuotedOrComment .mysql sql index = skipped) (forward : skipped ≠ index)
    (ordinary : byteAt sql index = Byte.slash → byteAt sql (index + 2) ≠ Byte.bang)
    (rest : Reports sql skipped starts) : Reports sql index starts := by
  intro codeStart
  -- what is skipped begins with none of the bytes of a piece of code
  have opens : stopsCode (byteAt sql index) := by
    by_contra plain
    exact forward (skips.symm.trans (publicSkip_code (drop_eq_byteAt inside) (by simpa using plain)))
  obtain ⟨visible, inStatement⟩ := stopsCode_visible opens
  have noBody : bindMysqlExecutableBody (scannerAt sql index codeStart) index skipped = none := by
    cases found : bindMysqlExecutableBody (scannerAt sql index codeStart) index skipped with
    | none => rfl
    | some body =>
      obtain ⟨slash, bang⟩ := bindMysqlExecutableBody_opens found
      exact absurd bang (ordinary slash)
  have lands : publicSkipQuotedOrComment (scannerAt sql index codeStart).dialect
      (scannerAt sql index codeStart).sql (scannerAt sql index codeStart).index = skipped := skips
  have turn := @BindScanner.turn_skips (scannerAt sql index codeStart) inside rfl visible inStatement
    (lands.trans_ne forward)
  rw [lands, BindScanner.passSkipped_outside rfl noBody] at turn
  rw [bindTokens_continues turn]
  exact rest sizeMax

theorem reports_range {stop : Nat} (order : index ≤ stop) (fits : stop ≤ sql.length)
    (plain : ∀ position, index ≤ position → position < stop →
      publicSkipQuotedOrComment .mysql sql position = position ∧ byteAt sql position ≠ Byte.question)
    (rest : Reports sql stop starts) : Reports sql index starts := by
  induction stop, order using Nat.le_induction with
  | base => exact rest
  | succ stop order inductionHypothesis =>
    obtain ⟨unskipped, other⟩ := plain stop order (Nat.lt_succ_self stop)
    exact inductionHypothesis (by omega) (fun position starts before => plain position starts (by omega))
      (reports_pass (by omega) unskipped other rest)

end scanner

/-! ## The placeholders of both -/

/-- A block comment that MySQL executes. -/
def PlacedPiece.isExecutable (placed : PlacedPiece) : Bool :=
  placed.piece.kind = .blockComment && byteAt placed.text 2 = Byte.bang

section pieces

variable {placed : PlacedPiece} {sql : Text} {starts : List Nat}

/-- Over a piece on which the lexers agree, the bind scanner reports what the quote pass replaces. -/
theorem reports_piece (located : placed.LocatedIn sql) (agrees : placed.AgreesWithPublicLexer sql)
    (ordinary : placed.isExecutable = false) (rest : Reports sql placed.stop starts) :
    Reports sql placed.start (if placed.isPlaceholder then placed.start :: starts else starts) := by
  have inside := located.inside
  have stopLe := located.stop_le
  obtain ⟨start, text, piece, behind, turns⟩ := placed
  have byteHere (offset : Nat) : byteAt sql (start + offset) = byteAt text offset := by
    rw [← byteAt_drop]
    exact congrArg (byteAt · offset) located
  dsimp only at inside
  change Reports sql start _
  -- only a block comment begins with a slash
  have noBang {byte : UInt8} (first : byteAt sql start = byte) (noSlash : byte ≠ Byte.slash) :
      byteAt sql start = Byte.slash → byteAt sql (start + 2) ≠ Byte.bang :=
    fun slash => absurd (first.symm.trans slash) noSlash
  unfold PlacedPiece.AgreesWithPublicLexer at agrees
  cases turns with
  | @dashComment tail blank =>
    have first : byteAt sql start = Byte.dash := byteHere 0
    dsimp only [PlacedPiece.stop, List.length_cons] at agrees rest stopLe
    obtain ends | ⟨ends, feed⟩ := agrees
    · exact reports_skip inside ends (by omega) (noBang first (by decide)) rest
    · have before : publicSkipQuotedOrComment .mysql sql start < sql.length := by omega
      refine reports_skip inside rfl (by omega) (noBang first (by decide)) (reports_pass before ?_ ?_ ?_)
      · exact publicSkip_code (drop_eq_byteAt before) (by rw [feed]; decide)
      · rw [feed]
        decide
      · rw [ends]
        exact rest
  | dashes plain =>
    have first : byteAt sql start = Byte.dash := byteHere 0
    have second : byteAt sql (start + 1) = Byte.dash := byteHere 1
    refine reports_range (Nat.le_add_right _ _) stopLe (fun position starts before => ?_) rest
    refine ⟨agrees position starts before, ?_⟩
    dsimp only [PlacedPiece.stop, List.length_cons, List.length_nil] at starts before
    obtain rfl | rfl : position = start ∨ position = start + 1 := by omega
    · exact first.trans_ne (by decide)
    · exact second.trans_ne (by decide)
  | blockComment =>
    have third : byteAt sql (start + 2) ≠ Byte.bang := by
      rw [byteHere 2]
      simpa [PlacedPiece.isExecutable] using ordinary
    exact reports_skip inside agrees (by simp [PlacedPiece.stop]) (fun _ => third) rest
  | @nationalLiteral letter body output behind isN copied =>
    have first : byteAt sql start = letter := byteHere 0
    have second : byteAt sql (start + 1) = Byte.quote := byteHere 1
    have notQuestion : byteAt sql start ≠ Byte.question := by
      rw [first]
      obtain rfl | rfl := isN <;> decide
    dsimp only [PlacedPiece.stop, List.length_cons] at agrees rest stopLe
    refine reports_pass inside agrees.1 notQuestion (reports_skip (by omega) agrees.2 (by omega) ?_ rest)
    exact fun slash => absurd (second.symm.trans slash) (by decide)
  | backtickIdentifier found =>
    have first : byteAt sql start = Byte.backtick := byteHere 0
    exact reports_skip inside agrees (by simp [PlacedPiece.stop]) (noBang first (by decide)) rest
  | @stringLiteral quote body output behind isQuote copied =>
    have first : byteAt sql start = quote := byteHere 0
    have noSlash : quote ≠ Byte.slash := by obtain rfl | rfl := isQuote <;> decide
    exact reports_skip inside agrees (by simp [PlacedPiece.stop]) (noBang first noSlash) rest
  | hashComment =>
    have first : byteAt sql start = Byte.hash := byteHere 0
    exact reports_skip inside agrees (by simp [PlacedPiece.stop]) (noBang first (by decide)) rest
  | placeholder => exact reports_question (byteHere 0) rest
  | @code byte tail _ _ _ _ noQuestion _ _ _ =>
    refine reports_range (Nat.le_add_right _ _) stopLe (fun position starts before => ?_) rest
    refine ⟨agrees position starts before, ?_⟩
    obtain ⟨offset, rfl⟩ := Nat.exists_eq_add_of_le starts
    cases offset with
    | zero =>
      have first : byteAt sql start = byte := byteHere 0
      exact first.trans_ne noQuestion
    | succ offset =>
      dsimp only [PlacedPiece.stop, List.length_cons] at before
      obtain ⟨later, rest, run, plain⟩ := @codeRun_byte tail offset (by omega)
      have here : byteAt sql (start + (offset + 1)) = later := by
        rw [byteHere, byteAt_cons_succ, byteAt_eq_head, run]
        rfl
      rw [here]
      rintro rfl
      exact absurd plain (by decide)

theorem placedPieces_located {start : Nat} {text : Text} {pieces : List PlacedPiece} (located : sql.drop start = text)
    (read : placedPieces start text = .ok pieces) : ∀ placed ∈ pieces, placed.LocatedIn sql := by
  fun_induction placedPieces start text generalizing pieces with
  | case1 =>
    cases read
    exact fun _ listed => nomatch listed
  | case2 => cases read
  | case3 start byte rest piece behind turn inductionHypothesis =>
    obtain ⟨later, readLater, rfl⟩ := ok_of_map read
    have here : (PlacedPiece.mk start (byte :: rest) piece behind (nextPiece_turns turn)).LocatedIn sql := located
    intro placed listed
    cases listed with
    | head => exact here
    | tail _ listed => exact inductionHypothesis here.drop_stop readLater placed listed

/-- Over a text on whose pieces the lexers agree, the bind scanner reports what the quote pass replaces. -/
theorem reports_pieces {start : Nat} {text : Text} {pieces : List PlacedPiece} (located : sql.drop start = text)
    (read : placedPieces start text = .ok pieces)
    (agrees : ∀ placed ∈ pieces, placed.AgreesWithPublicLexer sql ∧ placed.isExecutable = false) :
    Reports sql start ((pieces.filter PlacedPiece.isPlaceholder).map PlacedPiece.start) := by
  fun_induction placedPieces start text generalizing pieces with
  | case1 =>
    cases read
    exact reports_end (List.drop_eq_nil_iff.mp located)
  | case2 => cases read
  | case3 start byte rest piece behind turn inductionHypothesis =>
    obtain ⟨later, readLater, rfl⟩ := ok_of_map read
    have here : (PlacedPiece.mk start (byte :: rest) piece behind (nextPiece_turns turn)).LocatedIn sql := located
    have behindReports := inductionHypothesis here.drop_stop readLater
      (fun placed listed => agrees placed (.tail _ listed))
    have first := agrees _ (.head _)
    have reports := reports_piece here first.1 first.2 behindReports
    rw [List.filter_cons]
    split at reports
    next isPlaceholder =>
      rw [if_pos isPlaceholder]
      exact reports
    next other =>
      rw [if_neg other]
      exact reports

end pieces

/-- The offsets of the placeholders agree, and the lexers agree on every piece, exactly when all pieces are in step. -/
theorem placeholders_agree_iff {sql output : Text} {state : QuoteState}
    (accepted : preprocessQuotes sql (some .fresh) = .ok (some state, output))
    (ordinary : ∀ placed ∈ quotePieces sql, placed.isExecutable = false) :
    (state.positionalParamCount = (replacedOffsets sql).length ∧
        (bindTokens (bindScannerInit .mysql sql)).map BindToken.start = replacedOffsets sql ∧
        ∀ placed ∈ quotePieces sql, placed.AgreesWithPublicLexer sql) ↔
      ∀ placed ∈ quotePieces sql, placed.inStep := by
  obtain ⟨pieces, read, counted⟩ := preprocessLoop_pieces 0 accepted
  have whole : quotePieces sql = pieces := by
    unfold quotePieces
    rw [read]
  have located := placedPieces_located (List.drop_zero : sql.drop 0 = sql) read
  unfold replacedOffsets
  rw [whole] at ordinary ⊢
  constructor
  · rintro ⟨-, -, agrees⟩ placed listed
    exact (agrees_iff_inStep (located placed listed)).mp (agrees placed listed)
  · intro inStep
    have agrees (placed : PlacedPiece) (listed : placed ∈ pieces) : placed.AgreesWithPublicLexer sql :=
      (agrees_iff_inStep (located placed listed)).mpr (inStep placed listed)
    refine ⟨?_, ?_, agrees⟩
    · rw [counted, List.length_map]
      exact Nat.zero_add _
    · exact reports_pieces List.drop_zero read (fun placed listed => ⟨agrees placed listed, ordinary placed listed⟩) 0

theorem placeholders_agree_iff_spaced :
    (bindTokens (bindScannerInit .mysql (ascii "? `b`"))).map BindToken.start = replacedOffsets (ascii "? `b`") := by
  have ordinary : (quotePieces (ascii "? `b`")).all (fun placed => !placed.isExecutable) = true := by decide +kernel
  have inStep : (quotePieces (ascii "? `b`")).all PlacedPiece.inStep = true := by decide +kernel
  refine ((@placeholders_agree_iff (ascii "? `b`") (ascii "$1 \"b\"") ⟨1, [], 0⟩ (by decide +kernel) ?_).mpr ?_).2.1
  · intro placed listed
    simpa using List.all_eq_true.mp ordinary placed listed
  · exact List.all_eq_true.mp inStep

/-- A backslash before the backtick that ends an identifier hides the placeholder from the bind scanner. -/
theorem placeholders_disagree_backslash :
    (∃ state output, preprocessQuotes (ascii "`a\\` ?") (some .fresh) = .ok (some state, output)) ∧
      (∀ placed ∈ quotePieces (ascii "`a\\` ?"), placed.isExecutable = false) ∧
      replacedOffsets (ascii "`a\\` ?") = [5] ∧
      bindTokens (bindScannerInit .mysql (ascii "`a\\` ?")) = [] := by
  have ordinary : (quotePieces (ascii "`a\\` ?")).all (fun placed => !placed.isExecutable) = true := by decide +kernel
  refine ⟨⟨⟨1, [], 0⟩, ascii "\"a\\\" $1", by decide +kernel⟩, ?_, by decide +kernel, by decide +kernel⟩
  intro placed listed
  simpa using List.all_eq_true.mp ordinary placed listed

end SqlParser.Mysql
