import SqlParser.Core.BindScannerOrder
import SqlParser.Library.Numbering
import SqlParser.Oracle.PreprocessPublicLexer

/-! # Placeholders of the Oracle preprocessor and of the bind scanner

Where the public lexer agrees with every piece of the preprocessor, the bind scanner reports
exactly the placeholders that the preprocessor numbers.
-/

namespace SqlParser.Oracle

open SqlParser.Core
open SqlParser.Library.Numbering

/-! ## The bind scanner in Oracle texts -/

/-- A scanner that stands at an index of an Oracle text. -/
def scannerAt (sql : Text) (index codeStart : Nat) : BindScanner :=
  ⟨.oracle, sql, sql.length, index, codeStart, 0, 0, 0, false⟩

/-- The tokens that are reported from an index on, whatever the scanner remembers of the statement. -/
def Reports (sql : Text) (index : Nat) (tokens : List BindToken) : Prop :=
  ∀ codeStart, bindTokens (scannerAt sql index codeStart) = tokens

section scanner

variable {sql : Text} {index : Nat} {tokens : List BindToken}

theorem reports_end (beyond : sql.length ≤ index) : Reports sql index [] := by
  intro codeStart
  have stops : (scannerAt sql index codeStart).turn = .stops := if_pos (Nat.not_lt_of_le beyond)
  exact bindTokens_stops stops

theorem bindDollarToken_oracle (codeStart start : Nat) : bindDollarToken (scannerAt sql index codeStart) start = none := by
  cases found : bindDollarToken (scannerAt sql index codeStart) start with
  | none => rfl
  | some token =>
    obtain ⟨-, -, -, -, -, known, -⟩ := bindDollarToken_some found
    cases known with
    | inl isPublic => cases isPublic
    | inr marked => cases marked

theorem bindTokenAt_other (noQuestion : byteAt sql index ≠ Byte.question) (noColon : byteAt sql index ≠ Byte.colon)
    (codeStart : Nat) : bindTokenAt (scannerAt sql index codeStart) index = none := by
  unfold bindTokenAt
  rw [bindQuestionToken_none noQuestion, bindDollarToken_oracle, bindColonToken_none noColon]
  rfl

/-- A byte that the public lexer leaves alone and that begins no token is passed. -/
theorem reports_pass (inside : index < sql.length)
    (unskipped : publicSkipQuotedOrComment .oracle sql index = index)
    (noToken : ∀ codeStart, bindTokenAt (scannerAt sql index codeStart) index = none)
    (rest : Reports sql (index + 1) tokens) : Reports sql index tokens := by
  intro codeStart
  have turn : ∃ codeStart', (scannerAt sql index codeStart).turn = .continues (scannerAt sql (index + 1) codeStart') := by
    have noToken := noToken codeStart
    unfold scannerAt at noToken ⊢
    unfold BindScanner.turn
    dsimp only at noToken ⊢
    rw [if_neg (not_not.mpr inside), if_neg (fun leaves => leaves.1 rfl)]
    split
    next => exact ⟨_, rfl⟩
    next =>
      split
      next => exact ⟨_, rfl⟩
      next =>
        rw [if_neg (not_not.mpr unskipped), noToken]
        exact ⟨_, rfl⟩
  obtain ⟨codeStart', turn⟩ := turn
  rw [bindTokens_continues turn]
  exact rest codeStart'

theorem reports_token {token : BindToken} (inside : index < sql.length)
    (unskipped : publicSkipQuotedOrComment .oracle sql index = index)
    (found : ∀ codeStart, bindTokenAt (scannerAt sql index codeStart) index = some token)
    (rest : Reports sql token.stop tokens) : Reports sql index (token :: tokens) := by
  intro codeStart
  have first : byteAt sql index = Byte.question ∨ byteAt sql index = Byte.dollar ∨ byteAt sql index = Byte.colon ∨
      byteAt sql index = Byte.at' := bindTokenAt_first (found codeStart)
  have visible : ¬ isSpace (byteAt sql index) := by
    obtain first | first | first | first := first <;> (rw [first]; decide)
  have inStatement : byteAt sql index ≠ Byte.semicolon := by
    obtain first | first | first | first := first <;> (rw [first]; decide)
  have turn : (scannerAt sql index codeStart).turn = .finds token (scannerAt sql token.stop sizeMax) := by
    have found := found codeStart
    unfold scannerAt at found ⊢
    unfold BindScanner.turn
    dsimp only at found ⊢
    rw [if_neg (not_not.mpr inside), if_neg (fun leaves => leaves.1 rfl), if_neg visible,
      if_neg (fun separates => inStatement separates.2), if_neg (not_not.mpr unskipped), found]
    rfl
  rw [bindTokens_finds turn, rest sizeMax]

/-- Neither a space nor a semicolon opens an item. -/
theorem publicSkip_blank (blank : isSpace (byteAt sql index) ∨ byteAt sql index = Byte.semicolon) :
    publicSkipQuotedOrComment .oracle sql index = index := by
  have closed : opensItem (byteAt sql index) = false ∧ toLower (byteAt sql index) ≠ 113 ∧ toLower (byteAt sql index) ≠ 110 := by
    revert blank
    generalize byteAt sql index = byte
    revert byte
    decide +kernel
  exact publicSkip_closed (noPrefix_of_toLower closed.2.1 closed.2.2) closed.1

theorem reports_skip {skipped : Nat} (inside : index < sql.length)
    (skips : publicSkipQuotedOrComment .oracle sql index = skipped) (forward : skipped ≠ index)
    (rest : Reports sql skipped tokens) : Reports sql index tokens := by
  intro codeStart
  have opens : ¬ (isSpace (byteAt sql index) ∨ byteAt sql index = Byte.semicolon) :=
    fun blank => forward (skips.symm.trans (publicSkip_blank blank))
  have visible : isSpace (byteAt sql index) = false := by
    simpa using fun space => opens (.inl space)
  have noBody : bindMysqlExecutableBody (scannerAt sql index codeStart) index skipped = none := by
    cases found : bindMysqlExecutableBody (scannerAt sql index codeStart) index skipped with
    | none => rfl
    | some body => cases (bindMysqlExecutableBody_some found).1
  have lands : publicSkipQuotedOrComment (scannerAt sql index codeStart).dialect
      (scannerAt sql index codeStart).sql (scannerAt sql index codeStart).index = skipped := skips
  have turn := @BindScanner.turn_skips (scannerAt sql index codeStart) inside rfl visible
    (fun separates => opens (.inr separates)) (lands.trans_ne forward)
  rw [lands, BindScanner.passSkipped_outside rfl noBody] at turn
  rw [bindTokens_continues turn]
  exact rest sizeMax

theorem reports_range {stop : Nat} (order : index ≤ stop) (fits : stop ≤ sql.length)
    (plain : ∀ position, index ≤ position → position < stop →
      publicSkipQuotedOrComment .oracle sql position = position ∧ byteAt sql position ≠ Byte.question ∧
        byteAt sql position ≠ Byte.colon)
    (rest : Reports sql stop tokens) : Reports sql index tokens := by
  induction stop, order using Nat.le_induction with
  | base => exact rest
  | succ stop order inductionHypothesis =>
    obtain ⟨unskipped, noQuestion, noColon⟩ := plain stop order (Nat.lt_succ_self stop)
    apply inductionHypothesis (by omega) fun position starts before => plain position starts (by omega)
    exact reports_pass (by omega) unskipped (bindTokenAt_other noQuestion noColon) rest

/-- A name with a link is passed over name by name. -/
theorem reports_names {names : List (Nat × Nat)} {start stop : Nat} (chain : NameChain sql start names stop)
    (inside : start ≤ sql.length) (noDollar : Byte.dollar ∉ sql)
    (agrees : ∀ token ∈ names, TokenAgrees sql token.1 token.2) (rest : Reports sql stop tokens) :
    Reports sql start tokens := by
  have reportsToken {start stop : Nat} (token : NameToken sql start stop) (inside : start ≤ sql.length)
      (agrees : TokenAgrees sql start stop) (rest : Reports sql stop tokens) : Reports sql start tokens := by
    have order := token.order inside
    have fits : stop ≤ sql.length := token.ends ▸ (identifierTokenEnd_bounds inside).2
    unfold TokenAgrees at agrees
    split at agrees
    next first => exact reports_skip (by omega) agrees (by omega) rest
    next first =>
      refine reports_range order.le fits (fun position starts before => ?_) rest
      have closed := closed_of_identChar ((token.plain first).1 position starts before) (ne_dollar noDollar position)
      exact ⟨agrees position starts before, closed.2.1, closed.2.2.1⟩
  induction chain with
  | last token => exact reportsToken token inside (agrees _ (.head _)) rest
  | @next start mid stop names token separated chain inductionHypothesis =>
    have midInside : mid < sql.length := by
      apply lt_of_byteAt
      obtain same | same := separated <;> rw [same] <;> decide
    apply reportsToken token inside (agrees _ (.head _))
    have closed : opensItem (byteAt sql mid) = false ∧ toLower (byteAt sql mid) ≠ 113 ∧ toLower (byteAt sql mid) ≠ 110 := by
      obtain same | same := separated <;> rw [same] <;> decide
    have noToken : byteAt sql mid ≠ Byte.question ∧ byteAt sql mid ≠ Byte.colon := by
      obtain same | same := separated <;> rw [same] <;> decide
    apply reports_pass midInside (publicSkip_closed (noPrefix_of_toLower closed.2.1 closed.2.2) closed.1)
      (bindTokenAt_other noToken.1 noToken.2)
    exact inductionHypothesis midInside (fun token listed => agrees token (.tail _ listed)) rest

end scanner

/-! ## Placeholders -/

def Piece.isPlaceholder (piece : Piece) : Bool :=
  piece.kind = .question || piece.kind = .bind

/-- The placeholders that the preprocessor replaces. -/
def placeholders (sql : Text) : List Piece :=
  (pieces sql).filter Piece.isPlaceholder

/-- A byte of an identifier, a period or a colon. -/
def touching (byte : UInt8) : Bool :=
  publicCharIsIdent byte || byte = Byte.dot || byte = Byte.colon

def Piece.touches (piece : Piece) (sql : Text) : Bool :=
  (0 < piece.start && touching (byteAt sql (piece.start - 1))) || touching (byteAt sql piece.stop)

/-- The token of a placeholder. -/
def Piece.token (piece : Piece) (sql : Text) : BindToken :=
  match piece.kind with
  | .bind =>
    ⟨piece.start, piece.stop, piece.start + 1, piece.stop - piece.start - 1,
      if isDigit (byteAt sql (piece.start + 1)) then .positional else .named⟩
  | _ => ⟨piece.start, piece.stop, 0, 0, .positional⟩

section pieces

variable {sql : Text} {intoStart : Option Nat} {index : Nat} {piece : Piece} {tokens : List BindToken}

/-- A bind is a colon with a name or a number behind it. -/
theorem Reads.bind_shape (reads : Reads sql intoStart index piece) (isBind : piece.kind = .bind) :
    byteAt sql piece.start = Byte.colon ∧ piece.start + 1 < piece.stop ∧ piece.stop ≤ sql.length ∧
      bindPlaceholderEnd sql piece.start = some piece.stop := by
  cases reads with
  | @bind stop first found =>
    have fits := (bindPlaceholderEnd_bounds found).2
    refine ⟨first, ?_, fits, found⟩
    rw [bindPlaceholderEnd] at found
    dsimp only
    split at found
    next digit =>
      cases found
      exact lt_runEnd (by decide) digit
    next =>
      split at found
      next name =>
        cases found
        exact (bindOracleNameEnd_bounds (lt_of_byteAt (bindOracleNameStart_ne_zero name))).1
      next => cases found
  | _ => cases isBind

/-- What a placeholder must not touch is what the boundaries of a bind token exclude. -/
theorem Reads.bindTokenAt_placeholder (reads : Reads sql intoStart index piece) (isPlaceholder : piece.isPlaceholder)
    (apart : piece.touches sql = false) (codeStart : Nat) :
    bindTokenAt (scannerAt sql piece.start codeStart) piece.start = some (piece.token sql) := by
  simp only [Piece.touches, touching, Bool.or_eq_false_iff, Bool.and_eq_false_imp, decide_eq_true_eq,
    decide_eq_false_iff_not] at apart
  obtain ⟨before, ⟨noIdent, noDot⟩, -⟩ := apart
  simp only [Piece.isPlaceholder, Bool.or_eq_true, decide_eq_true_eq] at isPlaceholder
  obtain isQuestion | isBind := isPlaceholder
  · have first : byteAt sql piece.start = Byte.question := by
      cases reads with
      | question first => exact first
      | _ => cases isQuestion
    have stop : piece.stop = piece.start + 1 := by
      cases reads with
      | question first => rfl
      | _ => cases isQuestion
    have found := @bindQuestionToken_of (scannerAt sql piece.start codeStart) piece.start first rfl
    simp only [bindTokenAt, found, Piece.token, isQuestion, stop]
    rfl
  · obtain ⟨first, longer, fits, found⟩ := reads.bind_shape isBind
    have single : 0 < piece.start → byteAt sql (piece.start - 1) ≠ Byte.colon := fun positive => (before positive).2
    have boundary : bindBoundaryBefore .oracle sql piece.start := by
      unfold bindBoundaryBefore
      by_cases atStart : piece.start = 0
      · rw [if_pos atStart]
      · obtain ⟨⟨noIdentBefore, noDotBefore⟩, -⟩ := before (by omega)
        simp [atStart, noIdentBefore, noDotBefore, Dialect.isSqlserverCompatible]
    have colon : bindColonToken (scannerAt sql piece.start codeStart) piece.start = some (piece.token sql) := by
      simp only [Piece.token, isBind]
      rw [bindPlaceholderEnd] at found
      split at found
      next digit =>
        rw [if_pos digit]
        exact bindColonToken_of_digits rfl first single boundary digit (Option.some.inj found) noIdent
      next noDigit =>
        split at found
        next name =>
          rw [if_neg noDigit]
          have notDigit : isDigit (byteAt sql (piece.start + 1)) = false := by simpa using noDigit
          have after : bindBoundaryAfter .oracle sql piece.stop := by
            simp [bindBoundaryAfter, noIdent, noDot, Dialect.isSqlserverCompatible]
          exact @bindColonToken_of_name (scannerAt sql piece.start codeStart) piece.start piece.stop rfl first single boundary
            notDigit name (Option.some.inj found) after
        next => cases found
    unfold bindTokenAt
    rw [bindQuestionToken_none (first.trans_ne (by decide)), bindDollarToken_oracle, colon]
    rfl

/-- Over a piece on which the lexers agree, the bind scanner reports what the preprocessor replaces. -/
theorem reports_piece (reads : Reads sql intoStart index piece) (fits : IntoFits sql intoStart) (inside : index < sql.length)
    (noDollar : Byte.dollar ∉ sql) (agrees : piece.AgreesWithPublicLexer sql)
    (apart : piece.isPlaceholder → piece.touches sql = false) (rest : Reports sql piece.stop tokens) :
    Reports sql piece.start (if piece.isPlaceholder then piece.token sql :: tokens else tokens) := by
  obtain ⟨forward, stopFits⟩ := reads.bounds inside
  have stopFits := stopFits fits
  have atIndex := reads.start_eq
  have word {text : Text} (spelled : ((sql.drop index).take text.length).map toLower = text) (closed : isClosedWord text)
      (ends : piece.stop = index + text.length) : Reports sql index tokens := by
    refine reports_range forward.le stopFits (fun position starts before => ?_) rest
    exact publicSkip_word spelled closed starts (ends ▸ before)
  cases placeholder : piece.isPlaceholder with
  | true =>
    rw [if_pos rfl]
    -- a replaced piece starts where the public lexer reads code, so the bind scanner stands at it
    have unskipped : publicSkipQuotedOrComment .oracle sql piece.start = piece.start := by
      simp only [Piece.isPlaceholder, Bool.or_eq_true, decide_eq_true_eq] at placeholder
      unfold Piece.AgreesWithPublicLexer at agrees
      obtain kind | kind := placeholder <;> (rw [kind] at agrees; exact agrees)
    have stop : (piece.token sql).stop = piece.stop := by
      unfold Piece.token
      split <;> rfl
    exact reports_token (atIndex ▸ inside) unskipped (reads.bindTokenAt_placeholder placeholder (apart placeholder))
      (stop ▸ rest)
  | false =>
    rw [if_neg (by simp)]
    cases reads with
    | qString =>
      exact reports_skip inside agrees (Nat.ne_of_gt forward) rest
    | nationalString noPrefix national =>
      -- the letter passes as code, and the literal behind it is skipped whole
      simp only [isNStringLiteral, Bool.and_eq_true, Bool.or_eq_true, decide_eq_true_eq] at national
      have noToken : byteAt sql index ≠ Byte.question ∧ byteAt sql index ≠ Byte.colon := by
        obtain isN | isN := national.1 <;> rw [isN] <;> decide
      have quoteInside := lt_of_byteAt (national.2.trans_ne (by decide))
      have copied := (lt_copyQuotedOrComment_iff (ne_dollar noDollar (index + 1))).mpr (.inl (.inl national.2))
      apply reports_pass inside agrees.1 (bindTokenAt_other noToken.1 noToken.2)
      exact reports_skip quoteInside agrees.2 (by dsimp only; omega) rest
    | hierarchyKeyword found =>
      obtain ⟨text, spelled, closed, rfl⟩ := hierarchyInternalKeyword_word found
      exact word spelled closed rfl
    | databaseLink found => exact reports_names (databaseLinkAt_chain found) inside.le noDollar agrees rest
    | verbatim noPrefix notNational copied =>
      unfold Piece.AgreesWithPublicLexer at agrees
      dsimp only at agrees forward rest stopFits
      split at agrees
      next dash =>
        obtain ends | ⟨ends, feed⟩ := agrees
        · exact reports_skip inside ends (by omega) rest
        -- the preprocessor takes the line feed with the comment, the public lexer leaves it in front of the code
        · have stays : publicSkipQuotedOrComment .oracle sql index ≠ index := by
            intro same
            rw [same, dash] at feed
            cases feed
          apply reports_skip inside rfl stays
          have before : publicSkipQuotedOrComment .oracle sql index < sql.length := by omega
          apply reports_pass before
          · exact publicSkip_blank (.inl (by rw [feed]; decide))
          · exact bindTokenAt_other (by rw [feed]; decide) (by rw [feed]; decide)
          · rw [ends]
            exact rest
      next => exact reports_skip inside agrees (by omega) rest
    | into here =>
      have closed : isClosedWord (ascii "into") := by decide
      exact @word (ascii "into") (fits index here) closed rfl
    | returning found =>
      obtain ⟨keywordEnd, isReturning, -, -⟩ := returningIntoClauseAt_some found
      have closed : isClosedWord (ascii "returning") := by decide
      exact @word (ascii "returning") (returningIntoWordAt_spelled isReturning (by decide)) closed keywordEnd
    | question | bind => cases placeholder
    | minus found =>
      have closed : isClosedWord (ascii "minus") := by decide
      exact word (asciiWordEqual_spelled found (by decide)) closed rfl
    | except found =>
      have closed : isClosedWord (ascii "except") := by decide
      exact word (asciiWordEqual_spelled found (by decide)) closed rfl
    | code plain notQuestion notBind =>
      apply reports_pass inside (agrees index le_rfl (Nat.lt_succ_self index)) ?_ rest
      intro codeStart
      by_cases colon : byteAt sql index = Byte.colon
      case neg => exact bindTokenAt_other notQuestion colon codeStart
      case pos =>
        unfold bindTokenAt
        rw [bindQuestionToken_none notQuestion, bindDollarToken_oracle]
        cases found : bindColonToken (scannerAt sql index codeStart) index with
        | none => rfl
        | some token =>
          -- a bind that the scanner finds here is one that the preprocessor would have replaced
          exfalso
          obtain ⟨-, -, shape, -⟩ := bindColonToken_some found
          have named : isDigit (byteAt sql (index + 1)) ∨ bindOracleNameStart (byteAt sql (index + 1)) := by
            obtain ⟨digit, -⟩ | ⟨-, name, -⟩ := shape
            · exact .inl digit
            · exact .inr name
          obtain equals | colon' | zero | none := notBind colon
          · rw [equals] at named
            exact absurd named (by decide)
          · rw [colon'] at named
            exact absurd named (by decide)
          · rw [zero] at named
            exact absurd named (by decide)
          · unfold bindPlaceholderEnd at none
            split_ifs at none with digit name
            obtain isDigit | isName := named
            · exact digit isDigit
            · exact name isName

/-- What holds of every piece of a text. -/
theorem piecesFrom_reads {read : List Piece} (taken : piecesFrom sql intoStart index = .ok read)
    (fits : IntoFits sql intoStart) :
    ∀ piece ∈ read, ∃ intoStart, IntoFits sql intoStart ∧ Reads sql intoStart piece.start piece ∧
      piece.start < sql.length := by
  fun_induction piecesFrom sql intoStart index generalizing read with
  | case1 => cases taken
  | case2 intoStart index inside piece next inductionHypothesis =>
    obtain ⟨others, takenOthers, rfl⟩ := ok_of_map taken
    have reads := nextPiece_reads next
    intro listed member
    cases member with
    | head =>
      have atIndex := reads.start_eq
      exact ⟨intoStart, fits, by rw [atIndex]; exact reads, by omega⟩
    | tail _ member => exact inductionHypothesis takenOthers (fits.behind reads) listed member
  | case3 =>
    cases taken
    exact fun _ listed => nomatch listed

theorem reports_pieces {read : List Piece} (taken : piecesFrom sql intoStart index = .ok read)
    (fits : IntoFits sql intoStart) (noDollar : Byte.dollar ∉ sql)
    (agrees : ∀ piece ∈ read, piece.AgreesWithPublicLexer sql ∧ (piece.isPlaceholder → piece.touches sql = false)) :
    Reports sql index ((read.filter Piece.isPlaceholder).map fun piece => piece.token sql) := by
  fun_induction piecesFrom sql intoStart index generalizing read with
  | case1 => cases taken
  | case2 intoStart index inside piece next inductionHypothesis =>
    obtain ⟨others, takenOthers, rfl⟩ := ok_of_map taken
    have reads := nextPiece_reads next
    have behind := inductionHypothesis takenOthers (fits.behind reads) fun piece listed => agrees piece (.tail _ listed)
    obtain ⟨first, apart⟩ := agrees piece (.head _)
    have reports := reports_piece reads fits inside noDollar first apart behind
    rw [reads.start_eq] at reports
    rw [List.filter_cons]
    split at reports
    next placeholder =>
      rw [if_pos placeholder]
      exact reports
    next other =>
      rw [if_neg other]
      exact reports
  | case3 intoStart index outside =>
    cases taken
    exact reports_end (Nat.le_of_not_lt outside)

end pieces

/-! ## Numbers -/

/-- What a placeholder is numbered by. -/
def Piece.request (piece : Piece) (sql : Text) : Option Text :=
  if piece.kind = .question then none else some (slice sql piece.start piece.stop)

/-- What is written for the placeholders among some pieces. -/
def placeholderWrites : List Piece → List Text → List Text
  | piece :: others, written :: writes =>
    if piece.isPlaceholder then written :: placeholderWrites others writes else placeholderWrites others writes
  | _, _ => []

section numbers

variable {sql : Text}

theorem placeholderNumber_eq {piece : Piece} (isPlaceholder : piece.isPlaceholder) (names : List Text) :
    placeholderNumber sql names piece = number [Byte.question] names (piece.request sql) := by
  simp only [Piece.isPlaceholder, Bool.or_eq_true, decide_eq_true_eq] at isPlaceholder
  unfold placeholderNumber Piece.request
  obtain kind | kind := isPlaceholder
  · rw [kind]
    rfl
  · rw [kind]
    rfl

/-- A piece that is no placeholder leaves the names and the count. -/
theorem finishPiece_other {state finished : OracleState} {piece : Piece} {written : Text}
    (other : piece.isPlaceholder = false) (finishes : finishPiece sql state piece = .ok (finished, written)) :
    finished.bindNames = state.bindNames ∧ finished.bindOccurrenceCount = state.bindOccurrenceCount := by
  obtain ⟨start, stop, kind⟩ := piece
  cases kind with
  | qString national content =>
    cases finishes
    cases national <;> exact ⟨rfl, rfl⟩
  | verbatim =>
    cases finishes
    split <;> exact ⟨rfl, rfl⟩
  | databaseLink link =>
    simp only [finishPiece] at finishes
    split at finishes
    next => cases finishes
    next =>
      cases finishes
      exact ⟨rfl, rfl⟩
  | returning clause =>
    obtain ⟨items, -, same⟩ := ok_of_map finishes
    cases same
    exact ⟨rfl, rfl⟩
  | question | bind => cases other
  | nationalString | hierarchyKeyword | into | minus | except | code =>
    cases finishes
    exact ⟨rfl, rfl⟩

theorem finishPiece_placeholder {state finished : OracleState} {piece : Piece} {written : Text}
    (isPlaceholder : piece.isPlaceholder) (finishes : finishPiece sql state piece = .ok (finished, written)) :
    finished.bindNames = (number [Byte.question] state.bindNames (piece.request sql)).1 ∧
      finished.bindOccurrenceCount = state.bindOccurrenceCount + 1 ∧
      written = pgParam (number [Byte.question] state.bindNames (piece.request sql)).2 := by
  rw [← placeholderNumber_eq isPlaceholder]
  simp only [Piece.isPlaceholder, Bool.or_eq_true, decide_eq_true_eq] at isPlaceholder
  unfold finishPiece at finishes
  obtain kind | kind := isPlaceholder
  all_goals
    rw [kind] at finishes
    cases finishes
    exact ⟨rfl, rfl, rfl⟩

theorem finishPieces_numbers {read : List Piece} {state last : OracleState} {writes : List Text}
    (finishes : finishPieces sql read state = .ok (last, writes)) :
    placeholderWrites read writes =
        (numbers [Byte.question] state.bindNames
          ((read.filter Piece.isPlaceholder).map fun piece => piece.request sql)).map pgParam ∧
      last.bindOccurrenceCount = state.bindOccurrenceCount + (read.filter Piece.isPlaceholder).length := by
  induction read generalizing state writes with
  | nil =>
    cases finishes
    exact ⟨rfl, rfl⟩
  | cons piece others inductionHypothesis =>
    rw [finishPieces] at finishes
    split at finishes
    next => cases finishes
    next finished written finishesPiece =>
      obtain ⟨⟨last', rest⟩, finishesOthers, same⟩ := ok_of_map finishes
      cases same
      obtain ⟨written', counted⟩ := inductionHypothesis finishesOthers
      rw [placeholderWrites, List.filter_cons]
      cases placeholder : piece.isPlaceholder with
      | true =>
        obtain ⟨names, count, output⟩ := finishPiece_placeholder placeholder finishesPiece
        rw [names] at written'
        rw [if_pos rfl, if_pos rfl, List.map_cons, numbers, List.map_cons, written', output, counted, count,
          List.length_cons]
        exact ⟨rfl, by omega⟩
      | false =>
        obtain ⟨names, count⟩ := finishPiece_other placeholder finishesPiece
        rw [names] at written'
        rw [if_neg (by simp), if_neg (by simp), written', counted, count]
        exact ⟨rfl, rfl⟩

end numbers

/-! ## The placeholders of both -/

/-- The name or the number of a token. -/
def tokenKey (sql : Text) (token : BindToken) : Text :=
  slice sql token.keyStart (token.keyStart + token.keyLength)

/-- Two named binds of one name, or two numbered binds of one number. -/
def SameBind (sql : Text) (left right : BindToken) : Prop :=
  0 < left.keyLength ∧ left.kind = right.kind ∧ tokenKey sql left = tokenKey sql right

/-- What the preprocessor replaces is what the bind scanner reports, numbered alike exactly where the
binds are the same, and the lexers end every quoted item and comment alike. -/
structure PlaceholdersAgree (sql output : Text) (state : OracleState) : Prop where
  spans : (bindTokens (bindScannerInit .oracle sql)).map (fun token => (token.start, token.stop)) =
    (placeholders sql).map fun piece => (piece.start, piece.stop)
  counted : state.bindOccurrenceCount = (bindTokens (bindScannerInit .oracle sql)).length
  numbered : ∃ writes given, finishPieces sql (pieces sql) {} = .ok (state, writes) ∧ output = writes.flatten ∧
    placeholderWrites (pieces sql) writes = given.map pgParam ∧
    given.length = (bindTokens (bindScannerInit .oracle sql)).length ∧
    ((bindTokens (bindScannerInit .oracle sql)).zip given).Pairwise fun earlier later =>
      earlier.2 = later.2 ↔ SameBind sql earlier.1 later.1
  lexed : ∀ piece ∈ pieces sql, piece.AgreesWithPublicLexer sql

section both

variable {sql : Text}

/-- The shape of a placeholder in its text. -/
def Piece.Shaped (piece : Piece) (sql : Text) : Prop :=
  piece.isPlaceholder ∧ (piece.kind = .bind →
    byteAt sql piece.start = Byte.colon ∧ piece.start + 1 < piece.stop ∧ piece.stop ≤ sql.length)

theorem slice_cons {start stop : Nat} (before : start < stop) (fits : stop ≤ sql.length) :
    slice sql start stop = byteAt sql start :: slice sql (start + 1) stop := by
  have inside : start < (sql.take stop).length := by
    rw [List.length_take]
    omega
  rw [slice, drop_eq_byteAt inside, slice]
  congr 1
  have := @byteAt_slice sql 0 stop start (by omega)
  rw [Nat.zero_add] at this
  exact this

theorem Piece.Shaped.question_or_bind {piece : Piece} (shaped : piece.Shaped sql) :
    (piece.request sql = none ∧ (piece.token sql).keyLength = 0) ∨
      (∃ key, piece.request sql = some (Byte.colon :: key) ∧ tokenKey sql (piece.token sql) = key ∧
        0 < (piece.token sql).keyLength ∧ (piece.token sql).keyLength = key.length ∧
        (piece.token sql).kind = if isDigit (byteAt key 0) then .positional else .named) := by
  obtain ⟨isPlaceholder, bindShape⟩ := shaped
  simp only [Piece.isPlaceholder, Bool.or_eq_true, decide_eq_true_eq] at isPlaceholder
  obtain kind | kind := isPlaceholder
  · refine .inl ⟨if_pos kind, ?_⟩
    unfold Piece.token
    rw [kind]
  · obtain ⟨first, longer, fits⟩ := bindShape kind
    have notQuestion : piece.kind ≠ .question := by
      rw [kind]
      exact PieceKind.noConfusion
    have keyStop : piece.start + 1 + (piece.stop - piece.start - 1) = piece.stop := by omega
    refine .inr ⟨slice sql (piece.start + 1) piece.stop, ?_, ?_, ?_, ?_, ?_⟩
    · rw [Piece.request, if_neg notQuestion, slice_cons (by omega) fits, first]
    · simp only [tokenKey, Piece.token, kind, keyStop]
    · simp only [Piece.token, kind]
      omega
    · simp only [Piece.token, kind, slice_length fits]
      omega
    · rw [byteAt_slice (show piece.start + 1 + 0 < piece.stop from longer)]
      simp only [Piece.token, kind]

/-- Placeholders ask for one number exactly if their tokens are the same bind. -/
theorem same_request_iff {left right : Piece} (leftShaped : left.Shaped sql) (rightShaped : right.Shaped sql) :
    (left.request sql ≠ none ∧ left.request sql = right.request sql) ↔
      SameBind sql (left.token sql) (right.token sql) := by
  obtain ⟨unnamed, noKey⟩ | ⟨key, named, isKey, present, size, kind⟩ := leftShaped.question_or_bind
  · constructor
    · rintro ⟨isNamed, -⟩
      exact absurd unnamed isNamed
    · rintro ⟨present, -⟩
      omega
  · obtain ⟨unnamed, noKey⟩ | ⟨key', named', isKey', present', size', kind'⟩ := rightShaped.question_or_bind
    · rw [named, unnamed]
      constructor
      · rintro ⟨-, same⟩
        cases same
      · rintro ⟨-, -, same⟩
        have empty : tokenKey sql (right.token sql) = [] := by
          unfold tokenKey
          rw [noKey, Nat.add_zero, slice, List.drop_eq_nil_of_le]
          rw [List.length_take]
          exact Nat.min_le_left _ _
        rw [isKey, empty] at same
        rw [size, same] at present
        cases present
    · unfold SameBind
      rw [named, named', isKey, isKey', kind, kind']
      constructor
      · rintro ⟨-, same⟩
        cases same
        exact ⟨present, rfl, rfl⟩
      · rintro ⟨-, -, rfl⟩
        exact ⟨Option.some_ne_none _, rfl⟩

theorem placeholders_shaped {read : List Piece} (taken : piecesFrom sql none 0 = .ok read) :
    ∀ piece ∈ read.filter Piece.isPlaceholder, piece.Shaped sql := by
  intro piece listed
  obtain ⟨member, isPlaceholder⟩ := List.mem_filter.mp listed
  obtain ⟨intoStart, -, reads, -⟩ := piecesFrom_reads taken (fun _ remembered => nomatch remembered) piece member
  refine ⟨isPlaceholder, fun isBind => ?_⟩
  obtain ⟨first, longer, fits, -⟩ := reads.bind_shape isBind
  exact ⟨first, longer, fits⟩

/-- The tokens of shaped placeholders are numbered alike exactly where they are the same bind. -/
theorem numbers_tokens {found : List Piece} (shaped : ∀ piece ∈ found, piece.Shaped sql) (names : List Text) :
    ((found.map fun piece => piece.token sql).zip
        (numbers [Byte.question] names (found.map fun piece => piece.request sql))).Pairwise fun earlier later =>
      earlier.2 = later.2 ↔ SameBind sql earlier.1 later.1 := by
  have noLabel : some [Byte.question] ∉ found.map fun piece => piece.request sql := by
    intro listed
    obtain ⟨piece, member, same⟩ := List.mem_map.mp listed
    obtain ⟨unnamed, -⟩ | ⟨key, named, -⟩ := (shaped piece member).question_or_bind
    · rw [unnamed] at same
      cases same
    · rw [named] at same
      cases same
  have apart := numbers_pairwise [Byte.question] names (found.map fun piece => piece.request sql) noLabel
  rw [List.zip_map_left, List.pairwise_map] at apart ⊢
  refine apart.imp_of_mem fun {earlier later} earlierListed laterListed same => ?_
  have earlierShaped := shaped _ (List.of_mem_zip earlierListed).1
  have laterShaped := shaped _ (List.of_mem_zip laterListed).1
  exact same.trans (same_request_iff earlierShaped laterShaped)

end both

/-- The placeholders agree exactly when all pieces are in step. -/
theorem oracle_numbers_agree_iff {sql output : Text} {state : OracleState}
    (accepted : preprocessText sql {} = .ok (state, output)) (noDollar : Byte.dollar ∉ sql)
    (noEscape : ∀ piece ∈ pieces sql, piece.isEscapeString sql = false)
    (apart : ∀ piece ∈ placeholders sql, piece.touches sql = false) :
    PlaceholdersAgree sql output state ↔ ∀ piece ∈ pieces sql, piece.inStep sql := by
  obtain ⟨read, writes, taken, finishes, written⟩ := preprocessLoop_pieces accepted
  have whole : pieces sql = read := by
    unfold pieces
    rw [taken]
  have noInto : IntoFits sql none := fun _ remembered => nomatch remembered
  have agreesIff (piece : Piece) (listed : piece ∈ pieces sql) : piece.AgreesWithPublicLexer sql ↔ piece.inStep sql := by
    obtain ⟨intoStart, fits, reads, inside⟩ := piecesFrom_reads taken noInto piece (whole ▸ listed)
    exact reads.agrees_iff fits inside noDollar (noEscape piece listed)
  constructor
  · intro agree piece listed
    exact (agreesIff piece listed).mp (agree.lexed piece listed)
  · intro inStep
    have lexed (piece : Piece) (listed : piece ∈ pieces sql) := (agreesIff piece listed).mpr (inStep piece listed)
    have reported := reports_pieces taken noInto noDollar (fun piece listed => ⟨lexed piece (whole ▸ listed), fun
      isPlaceholder => apart piece (List.mem_filter.mpr ⟨whole ▸ listed, isPlaceholder⟩)⟩) 0
    have tokens : bindTokens (bindScannerInit .oracle sql) = (placeholders sql).map fun piece => piece.token sql := by
      unfold placeholders
      rw [whole]
      exact reported
    obtain ⟨placeholderWritten, counted⟩ := finishPieces_numbers finishes
    constructor
    · rw [tokens, List.map_map]
      apply List.map_congr_left
      intro piece listed
      simp only [Function.comp, Piece.token]
      split <;> rfl
    · rw [tokens, counted, placeholders, whole, List.length_map]
      exact Nat.zero_add _
    · refine ⟨writes, _, whole ▸ finishes, written, whole ▸ placeholderWritten, ?_, ?_⟩
      · rw [tokens, placeholders, whole, numbers_length, List.length_map, List.length_map]
      · rw [tokens, placeholders, whole]
        exact numbers_tokens (placeholders_shaped taken) _
    · exact lexed

theorem oracle_numbers_agree_iff_binds :
    PlaceholdersAgree (ascii "a = :x + ? - :x") (ascii "a = $1 + $2 - $1")
      { bindNames := [ascii ":x", ascii "?"], bindOccurrenceCount := 3 } := by
  have noEscape : (pieces (ascii "a = :x + ? - :x")).all (fun piece => !piece.isEscapeString (ascii "a = :x + ? - :x")) = true := by
    decide +kernel
  have apart : (placeholders (ascii "a = :x + ? - :x")).all (fun piece => !piece.touches (ascii "a = :x + ? - :x")) = true := by
    decide +kernel
  have inStep : (pieces (ascii "a = :x + ? - :x")).all (fun piece => piece.inStep (ascii "a = :x + ? - :x")) = true := by
    decide +kernel
  refine (oracle_numbers_agree_iff (by decide +kernel) (by decide) ?_ ?_).mpr (List.all_eq_true.mp inStep)
  · intro piece listed
    simpa using List.all_eq_true.mp noEscape piece listed
  · intro piece listed
    simpa using List.all_eq_true.mp apart piece listed

/-- A comment that begins with `/*/` ends there for the preprocessor, which replaces what stands in the comment. -/
theorem placeholders_disagree_comment :
    (∃ state output, preprocessText (ascii "/*/ ? */") {} = .ok (state, output)) ∧
      Byte.dollar ∉ ascii "/*/ ? */" ∧
      (∀ piece ∈ pieces (ascii "/*/ ? */"), piece.isEscapeString (ascii "/*/ ? */") = false) ∧
      (∀ piece ∈ placeholders (ascii "/*/ ? */"), piece.touches (ascii "/*/ ? */") = false) ∧
      (placeholders (ascii "/*/ ? */")).map Piece.start = [4] ∧
      bindTokens (bindScannerInit .oracle (ascii "/*/ ? */")) = [] := by
  have noEscape : (pieces (ascii "/*/ ? */")).all (fun piece => !piece.isEscapeString (ascii "/*/ ? */")) = true := by
    decide +kernel
  have apart : (placeholders (ascii "/*/ ? */")).all (fun piece => !piece.touches (ascii "/*/ ? */")) = true := by
    decide +kernel
  refine ⟨⟨{ bindNames := [ascii "?"], bindOccurrenceCount := 1 }, ascii "/*/ $1 */", by decide +kernel⟩, by decide, ?_, ?_,
    by decide +kernel, by decide +kernel⟩
  · intro piece listed
    simpa using List.all_eq_true.mp noEscape piece listed
  · intro piece listed
    simpa using List.all_eq_true.mp apart piece listed

end SqlParser.Oracle
