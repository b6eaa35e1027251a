import SqlParser.Core.PublicLexer
import SqlParser.Sqlserver.GoLine

/-! # Statements and the end of the text

Two scanners of `sqlparser_surface.c` read a text piece by piece: blanks, comments,
semicolons, lines that separate batches, and pieces of a statement's body.  One returns
the statements, the other what stands behind the last of them.
-/

namespace SqlParser.Core

open SqlParser.Sqlserver (isLineBreak lineIsGo lineIsGo_forward)

/-! ## The source -/

/-- `sqlparser_public_comment_at` -/
def publicCommentAt (dialect : Dialect) (sql : Text) (pos : Nat) : Bool :=
  if byteAt sql pos = Byte.slash ∧ byteAt sql (pos + 1) = Byte.star then true
  else if byteAt sql pos = Byte.dash ∧ byteAt sql (pos + 1) = Byte.dash then
    let third := byteAt sql (pos + 2)
    !dialect.isMysqlCompatible || third = 0 || isSpace third || isControl third
  else dialect.isMysqlCompatible && byteAt sql pos = Byte.hash

/-- `sqlparser_public_semantic_comment_kind_at` -/
def publicSemanticCommentKindAt (sql : Text) (pos : Nat) : Nat :=
  let third := byteAt sql (pos + 2)
  if byteAt sql pos = Byte.slash ∧ byteAt sql (pos + 1) = Byte.star ∧ (third = 43 ∨ third = Byte.bang) then
    if third = 43 then 1 else 2
  else if byteAt sql pos = Byte.dash ∧ byteAt sql (pos + 1) = Byte.dash ∧ third = 43 then 3
  else 0

/-- `sqlparser_public_sqlserver_go_at` -/
def publicSqlserverGoAt (dialect : Dialect) (sql : Text) (pos : Nat) : Option Nat :=
  if dialect.isSqlserverCompatible then lineIsGo sql pos else none

/-- `sqlparser_public_line_prefix_after` -/
def publicLinePrefixAfter (sql : Text) (start stop : Nat) (linePrefix comment : Bool) : Bool :=
  ((sql.take stop).drop start).foldl
    (fun linePrefix byte =>
      if isLineBreak byte then true else if !comment && !isSpace byte then false else linePrefix)
    linePrefix

/-- The test for a line that separates batches, which both scanners make before they read a byte of a body. -/
def separatorAfter (dialect : Dialect) (sql : Text) (pos : Nat) (linePrefix : Bool) : Option Nat :=
  if linePrefix && (byteAt sql pos = 103 || byteAt sql pos = 71) then publicSqlserverGoAt dialect sql pos else none

/-- The offset behind the piece of a body: a quoted item, or a single byte. -/
def behindBodyPiece (dialect : Dialect) (sql : Text) (pos : Nat) : Nat :=
  let skipped := publicSkipQuotedOrComment dialect sql pos
  if skipped ≠ pos then skipped else pos + 1

section forward

variable {dialect : Dialect} {sql : Text} {pos next : Nat} {linePrefix : Bool}

theorem publicCommentAt_forward (inside : pos < sql.length) (comment : publicCommentAt dialect sql pos) :
    pos < publicSkipQuotedOrComment dialect sql pos ∧ publicSkipQuotedOrComment dialect sql pos ≤ sql.length := by
  refine ⟨?_, (publicSkip_bounds dialect inside.le).2⟩
  have ahead {rest : Text} {shift : Nat} (suffix : rest <:+ sql.drop (pos + 1 + shift)) : pos < offsetOf sql rest := by
    have behind : rest <:+ sql.drop (pos + 1) := by
      rw [← List.drop_drop] at suffix
      exact suffix.trans (List.drop_suffix _ _)
    exact (le_offsetOf behind inside).1
  simp only [publicCommentAt] at comment
  split_ifs at comment with block line
  · have opens : publicSkipQuotedOrComment dialect sql pos =
        offsetOf sql (behindBlockComment (publicNestedComments dialect) 1 (sql.drop (pos + 2))) := by
      simp [publicSkipQuotedOrComment, block, Byte.slash, Byte.dollar, Byte.dash, Byte.hash, Byte.star]
    rw [opens]
    exact @ahead _ 1 (behindBlockComment_suffix _ _ _)
  · have opens : publicSkipQuotedOrComment dialect sql pos = offsetOf sql (behindLine (sql.drop (pos + 2))) := by
      simp only [Bool.or_eq_true, Bool.not_eq_true', decide_eq_true_eq] at comment
      obtain ((noMysql | noThird) | blank) | control := comment
      · simp [publicSkipQuotedOrComment, line, noMysql, Byte.dollar, Byte.dash]
      · simp [publicSkipQuotedOrComment, line, noThird, Byte.dollar, Byte.dash]
      · simp [publicSkipQuotedOrComment, line, blank, Byte.dollar, Byte.dash]
      · simp [publicSkipQuotedOrComment, line, control, Byte.dollar, Byte.dash]
    rw [opens]
    exact @ahead _ 1 (untilStop_suffix _ _)
  · simp only [Bool.and_eq_true, decide_eq_true_eq] at comment
    have opens : publicSkipQuotedOrComment dialect sql pos = offsetOf sql (behindLine (sql.drop (pos + 1))) := by
      simp [publicSkipQuotedOrComment, comment, Byte.dollar, Byte.dash, Byte.hash]
    rw [opens]
    exact @ahead _ 0 (untilStop_suffix _ _)

theorem separatorAfter_forward (inside : pos < sql.length)
    (found : separatorAfter dialect sql pos linePrefix = some next) : pos < next ∧ next ≤ sql.length := by
  simp only [separatorAfter, publicSqlserverGoAt] at found
  split_ifs at found
  exact lineIsGo_forward inside found

theorem behindBodyPiece_forward (inside : pos < sql.length) :
    pos < behindBodyPiece dialect sql pos ∧ behindBodyPiece dialect sql pos ≤ sql.length := by
  obtain ⟨order, bound⟩ := publicSkip_bounds dialect inside.le
  unfold behindBodyPiece
  dsimp only
  split <;> omega

end forward

/-- `sqlparser_terminal_scan_t` -/
structure TerminalScan where
  bodyEnd : Nat := 0
  lastSemanticEnd : Nat := 0
  length : Nat := 0
  semanticCount : Nat := 0
  hasBatchSeparator : Bool := false
  deriving DecidableEq, Repr

def TerminalScan.passComment (scan : TerminalScan) (semanticKind skipped : Nat) : TerminalScan :=
  if semanticKind ≠ 0 then { scan with semanticCount := scan.semanticCount + 1, lastSemanticEnd := skipped } else scan

/-- The loop of `sqlparser_public_terminal_scan`. -/
def terminalScanFrom (dialect : Dialect) (sql : Text) (pos : Nat) (linePrefix : Bool) (scan : TerminalScan) :
    TerminalScan :=
  if _inside : pos < sql.length then
    if isSpace (byteAt sql pos) then
      terminalScanFrom dialect sql (pos + 1) (isLineBreak (byteAt sql pos) || linePrefix) scan
    else if _comment : publicCommentAt dialect sql pos then
      let skipped := publicSkipQuotedOrComment dialect sql pos
      terminalScanFrom dialect sql skipped (publicLinePrefixAfter sql pos skipped linePrefix true)
        (scan.passComment (publicSemanticCommentKindAt sql pos) skipped)
    else if byteAt sql pos = Byte.semicolon then terminalScanFrom dialect sql (pos + 1) false scan
    else
      match _separator : separatorAfter dialect sql pos linePrefix with
      | some after => terminalScanFrom dialect sql after true { scan with hasBatchSeparator := true }
      | none =>
        let skipped := behindBodyPiece dialect sql pos
        terminalScanFrom dialect sql skipped (publicLinePrefixAfter sql pos skipped linePrefix false)
          { scan with bodyEnd := skipped, semanticCount := 0, lastSemanticEnd := 0 }
  else { scan with length := pos }
termination_by sql.length - pos
decreasing_by
  · omega
  · have forward := publicCommentAt_forward _inside _comment
    omega
  · omega
  · have forward := separatorAfter_forward _inside _separator
    omega
  · have forward := @behindBodyPiece_forward dialect _ _ _inside
    omega

/-- `sqlparser_public_terminal_scan` -/
def publicTerminalScan (dialect : Dialect) (sql : Text) : TerminalScan :=
  terminalScanFrom dialect sql 0 true {}

/-- `sqlparser_statement_scan_t`; its length is that of the text. -/
structure StatementScan where
  dialect : Dialect
  sql : Text
  pos : Nat := 0
  linePrefix : Bool := true
  deriving DecidableEq, Repr

structure ScanSpan where
  start : Nat
  stop : Nat
  deriving DecidableEq, Repr

/-- Where the inner loop of `sqlparser_public_statement_scan_next` leaves off, with the body that it has found. -/
structure StatementBody where
  pos : Nat
  linePrefix : Bool
  start : Option Nat
  stop : Nat
  deriving DecidableEq, Repr

/-- The inner loop, which ends at a semicolon or a line that separates batches. -/
def statementBodyFrom (dialect : Dialect) (sql : Text) (pos : Nat) (linePrefix : Bool) (start : Option Nat)
    (stop : Nat) : StatementBody :=
  if _inside : pos < sql.length then
    if isSpace (byteAt sql pos) then
      statementBodyFrom dialect sql (pos + 1) (isLineBreak (byteAt sql pos) || linePrefix) start stop
    else if _comment : publicCommentAt dialect sql pos then
      let skipped := publicSkipQuotedOrComment dialect sql pos
      statementBodyFrom dialect sql skipped (publicLinePrefixAfter sql pos skipped linePrefix true) start stop
    else if byteAt sql pos = Byte.semicolon then ⟨pos + 1, false, start, stop⟩
    else
      match _separator : separatorAfter dialect sql pos linePrefix with
      | some after => ⟨after, true, start, stop⟩
      | none =>
        let skipped := behindBodyPiece dialect sql pos
        statementBodyFrom dialect sql skipped (publicLinePrefixAfter sql pos skipped linePrefix false)
          (some (start.getD pos)) skipped
  else ⟨pos, linePrefix, start, stop⟩
termination_by sql.length - pos
decreasing_by
  · omega
  · have forward := publicCommentAt_forward _inside _comment
    omega
  · have forward := @behindBodyPiece_forward dialect _ _ _inside
    omega

def StatementScan.body (scan : StatementScan) : StatementBody :=
  statementBodyFrom scan.dialect scan.sql scan.pos scan.linePrefix none 0

theorem statementBody_forward (dialect : Dialect) {sql : Text} {pos : Nat} (linePrefix : Bool) (start : Option Nat)
    (stop : Nat) :
    pos ≤ (statementBodyFrom dialect sql pos linePrefix start stop).pos ∧
      (pos < sql.length → pos < (statementBodyFrom dialect sql pos linePrefix start stop).pos) := by
  fun_induction statementBodyFrom dialect sql pos linePrefix start stop with
  | case1 pos linePrefix start stop inside blank inductionHypothesis =>
    have later := inductionHypothesis.1
    omega
  | case2 pos linePrefix start stop inside _ comment skipped inductionHypothesis =>
    have forward := publicCommentAt_forward inside comment
    have later := inductionHypothesis.1
    omega
  | case3 => exact ⟨Nat.le_succ _, fun _ => Nat.lt_succ_self _⟩
  | case4 pos linePrefix start stop inside _ _ _ after separator =>
    have forward := separatorAfter_forward inside separator
    exact ⟨forward.1.le, fun _ => forward.1⟩
  | case5 pos linePrefix start stop inside _ _ _ _ skipped inductionHypothesis =>
    have forward := @behindBodyPiece_forward dialect _ _ inside
    have later := inductionHypothesis.1
    omega
  | case6 pos linePrefix start stop outside => exact ⟨le_rfl, fun inside => absurd inside outside⟩

/-- `sqlparser_public_statement_scan_next` -/
def statementScanNext (scan : StatementScan) : Option ScanSpan × StatementScan :=
  if _inside : scan.pos < scan.sql.length then
    let moved := { scan with pos := scan.body.pos, linePrefix := scan.body.linePrefix }
    match scan.body.start with
    | some start => (some ⟨start, scan.body.stop⟩, moved)
    | none => statementScanNext moved
  else (none, scan)
termination_by scan.sql.length - scan.pos
decreasing_by
  have forward := (statementBody_forward scan.dialect scan.linePrefix none 0).2 _inside
  exact Nat.sub_lt_sub_left _inside forward

theorem statementScanNext_forward {scan : StatementScan} {span : ScanSpan} {moved : StatementScan}
    (found : statementScanNext scan = (some span, moved)) :
    moved.sql = scan.sql ∧ scan.pos < scan.sql.length ∧ scan.pos < moved.pos := by
  fun_induction statementScanNext scan with
  | case1 scan inside later start body =>
    obtain ⟨-, rfl⟩ := Prod.mk.inj found
    exact ⟨rfl, inside, (statementBody_forward scan.dialect scan.linePrefix none 0).2 inside⟩
  | case2 scan inside later noBody inductionHypothesis =>
    obtain ⟨same, -, ahead⟩ := inductionHypothesis found
    exact ⟨same, inside, ((statementBody_forward scan.dialect scan.linePrefix none 0).2 inside).trans ahead⟩
  | case3 => cases found

/-- The spans that the iteration of `sqlparser_public_statement_scan_next` produces. -/
def StatementScan.spans (scan : StatementScan) : List ScanSpan :=
  match _found : statementScanNext scan with
  | (some span, moved) => span :: moved.spans
  | (none, _) => []
termination_by scan.sql.length - scan.pos
decreasing_by
  obtain ⟨same, inside, ahead⟩ := statementScanNext_forward _found
  rw [same]
  exact Nat.sub_lt_sub_left inside ahead

def statementSpans (dialect : Dialect) (sql : Text) : List ScanSpan :=
  StatementScan.spans { dialect := dialect, sql := sql }

/-! ## Pieces -/

inductive PieceKind where
  | blank
  | comment (semantic : Nat)
  | semicolon
  | batchSeparator
  | body
  deriving DecidableEq, Repr

/-- A piece of the text as the two scanners read it. -/
structure Piece where
  kind : PieceKind
  start : Nat
  stop : Nat
  deriving DecidableEq, Repr

def Piece.Covers (piece : Piece) (position : Nat) : Prop :=
  piece.start ≤ position ∧ position < piece.stop

def Piece.isBody (piece : Piece) : Bool :=
  piece.kind = .body

def Piece.isBatchSeparator (piece : Piece) : Bool :=
  piece.kind = .batchSeparator

def Piece.separates (piece : Piece) : Bool :=
  piece.kind = .semicolon || piece.kind = .batchSeparator

def Piece.isSemantic (piece : Piece) : Bool :=
  match piece.kind with
  | .comment semantic => semantic ≠ 0
  | _ => false

/-- The piece at an offset, and whether only blanks and comments stand before its end on the line. -/
def pieceAt (dialect : Dialect) (sql : Text) (pos : Nat) (linePrefix : Bool) : Piece × Bool :=
  if isSpace (byteAt sql pos) then (⟨.blank, pos, pos + 1⟩, isLineBreak (byteAt sql pos) || linePrefix)
  else if publicCommentAt dialect sql pos then
    let skipped := publicSkipQuotedOrComment dialect sql pos
    (⟨.comment (publicSemanticCommentKindAt sql pos), pos, skipped⟩,
      publicLinePrefixAfter sql pos skipped linePrefix true)
  else if byteAt sql pos = Byte.semicolon then (⟨.semicolon, pos, pos + 1⟩, false)
  else
    match separatorAfter dialect sql pos linePrefix with
    | some after => (⟨.batchSeparator, pos, after⟩, true)
    | none =>
      let skipped := behindBodyPiece dialect sql pos
      (⟨.body, pos, skipped⟩, publicLinePrefixAfter sql pos skipped linePrefix false)

theorem pieceAt_forward (dialect : Dialect) {sql : Text} {pos : Nat} (linePrefix : Bool) (inside : pos < sql.length) :
    (pieceAt dialect sql pos linePrefix).1.start = pos ∧ pos < (pieceAt dialect sql pos linePrefix).1.stop ∧
      (pieceAt dialect sql pos linePrefix).1.stop ≤ sql.length := by
  unfold pieceAt
  split
  next => exact ⟨rfl, Nat.lt_succ_self _, inside⟩
  next =>
    split
    next comment => exact ⟨rfl, publicCommentAt_forward inside comment⟩
    next =>
      split
      next => exact ⟨rfl, Nat.lt_succ_self _, inside⟩
      next =>
        split
        next after separator => exact ⟨rfl, separatorAfter_forward inside separator⟩
        next => exact ⟨rfl, behindBodyPiece_forward inside⟩

/-- The pieces from an offset on. -/
def piecesFrom (dialect : Dialect) (sql : Text) (pos : Nat) (linePrefix : Bool) : List Piece :=
  if _inside : pos < sql.length then
    let step := pieceAt dialect sql pos linePrefix
    step.1 :: piecesFrom dialect sql step.1.stop step.2
  else []
termination_by sql.length - pos
decreasing_by
  have forward := pieceAt_forward dialect linePrefix _inside
  omega

def pieces (dialect : Dialect) (sql : Text) : List Piece :=
  piecesFrom dialect sql 0 true

/-- What a piece does to the scan of the end of the text. -/
def TerminalScan.pass (scan : TerminalScan) (piece : Piece) : TerminalScan :=
  match piece.kind with
  | .blank => scan
  | .comment semantic => scan.passComment semantic piece.stop
  | .semicolon => scan
  | .batchSeparator => { scan with hasBatchSeparator := true }
  | .body => { scan with bodyEnd := piece.stop, semanticCount := 0, lastSemanticEnd := 0 }

/-- The span of a body that has begun. -/
def bodySpan (start : Option Nat) (stop : Nat) : List ScanSpan :=
  match start with
  | some start => [⟨start, stop⟩]
  | none => []

/-- The spans of the bodies between the separators of a list of pieces; the body that is being read begins at
`start`, if at all, and ends at `stop` so far. -/
def spansOf (start : Option Nat) (stop : Nat) : List Piece → List ScanSpan
  | [] => bodySpan start stop
  | piece :: later =>
    if piece.isBody then spansOf (some (start.getD piece.start)) piece.stop later
    else if piece.separates then bodySpan start stop ++ spansOf none 0 later
    else spansOf start stop later

/-! ## The scanners read the pieces -/

section reading

variable {dialect : Dialect} {sql : Text} {pos stop : Nat} {linePrefix : Bool} {start : Option Nat}

theorem piecesFrom_inside (inside : pos < sql.length) : piecesFrom dialect sql pos linePrefix =
    (pieceAt dialect sql pos linePrefix).1 ::
      piecesFrom dialect sql (pieceAt dialect sql pos linePrefix).1.stop (pieceAt dialect sql pos linePrefix).2 := by
  rw [piecesFrom, dif_pos inside]

theorem piecesFrom_outside (outside : ¬ pos < sql.length) : piecesFrom dialect sql pos linePrefix = [] := by
  rw [piecesFrom, dif_neg outside]

theorem pieceAt_blank (blank : isSpace (byteAt sql pos)) : pieceAt dialect sql pos linePrefix =
    (⟨.blank, pos, pos + 1⟩, isLineBreak (byteAt sql pos) || linePrefix) := by
  rw [pieceAt, if_pos blank]

theorem pieceAt_comment (noBlank : ¬ (isSpace (byteAt sql pos) = true)) (comment : publicCommentAt dialect sql pos) :
    pieceAt dialect sql pos linePrefix =
      (⟨.comment (publicSemanticCommentKindAt sql pos), pos, publicSkipQuotedOrComment dialect sql pos⟩,
        publicLinePrefixAfter sql pos (publicSkipQuotedOrComment dialect sql pos) linePrefix true) := by
  rw [pieceAt, if_neg noBlank, if_pos comment]

section code

variable (noBlank : ¬ (isSpace (byteAt sql pos) = true)) (noComment : ¬ (publicCommentAt dialect sql pos = true))
include noBlank noComment

theorem pieceAt_semicolon (semicolon : byteAt sql pos = Byte.semicolon) :
    pieceAt dialect sql pos linePrefix = (⟨.semicolon, pos, pos + 1⟩, false) := by
  rw [pieceAt, if_neg noBlank, if_neg noComment, if_pos semicolon]

theorem pieceAt_separator {after : Nat} (noSemicolon : ¬ byteAt sql pos = Byte.semicolon)
    (separator : separatorAfter dialect sql pos linePrefix = some after) :
    pieceAt dialect sql pos linePrefix = (⟨.batchSeparator, pos, after⟩, true) := by
  rw [pieceAt, if_neg noBlank, if_neg noComment, if_neg noSemicolon, separator]

theorem pieceAt_body (noSemicolon : ¬ byteAt sql pos = Byte.semicolon)
    (noSeparator : separatorAfter dialect sql pos linePrefix = none) :
    pieceAt dialect sql pos linePrefix = (⟨.body, pos, behindBodyPiece dialect sql pos⟩,
      publicLinePrefixAfter sql pos (behindBodyPiece dialect sql pos) linePrefix false) := by
  rw [pieceAt, if_neg noBlank, if_neg noComment, if_neg noSemicolon, noSeparator]

end code

/-- The scan of the end of the text is the run over the pieces. -/
theorem terminalScanFrom_pieces (scan : TerminalScan) (inside : pos ≤ sql.length) :
    terminalScanFrom dialect sql pos linePrefix scan =
      { (piecesFrom dialect sql pos linePrefix).foldl TerminalScan.pass scan with length := sql.length } := by
  fun_induction terminalScanFrom dialect sql pos linePrefix scan with
  | case1 pos linePrefix scan inText blank inductionHypothesis =>
    rw [inductionHypothesis inText, piecesFrom_inside inText, pieceAt_blank blank]
    rfl
  | case2 pos linePrefix scan inText noBlank comment skipped inductionHypothesis =>
    rw [inductionHypothesis (publicCommentAt_forward inText comment).2, piecesFrom_inside inText,
      pieceAt_comment noBlank comment]
    rfl
  | case3 pos linePrefix scan inText noBlank noComment semicolon inductionHypothesis =>
    rw [inductionHypothesis inText, piecesFrom_inside inText, pieceAt_semicolon noBlank noComment semicolon]
    rfl
  | case4 pos linePrefix scan inText noBlank noComment noSemicolon after separator inductionHypothesis =>
    rw [inductionHypothesis (separatorAfter_forward inText separator).2, piecesFrom_inside inText,
      pieceAt_separator noBlank noComment noSemicolon separator]
    rfl
  | case5 pos linePrefix scan inText noBlank noComment noSemicolon noSeparator skipped inductionHypothesis =>
    rw [inductionHypothesis (behindBodyPiece_forward inText).2, piecesFrom_inside inText,
      pieceAt_body noBlank noComment noSemicolon noSeparator]
    rfl
  | case6 pos linePrefix scan outside =>
    rw [piecesFrom_outside outside]
    simp only [List.foldl_nil]
    rw [Nat.le_antisymm inside (Nat.le_of_not_lt outside)]

/-- The inner loop reads the pieces of one body. -/
theorem statementBodyFrom_pieces :
    spansOf start stop (piecesFrom dialect sql pos linePrefix) =
      bodySpan (statementBodyFrom dialect sql pos linePrefix start stop).start
          (statementBodyFrom dialect sql pos linePrefix start stop).stop ++
        spansOf none 0 (piecesFrom dialect sql (statementBodyFrom dialect sql pos linePrefix start stop).pos
          (statementBodyFrom dialect sql pos linePrefix start stop).linePrefix) := by
  fun_induction statementBodyFrom dialect sql pos linePrefix start stop with
  | case1 pos linePrefix start stop inText blank inductionHypothesis =>
    rw [← inductionHypothesis, piecesFrom_inside inText, pieceAt_blank blank]
    rfl
  | case2 pos linePrefix start stop inText noBlank comment skipped inductionHypothesis =>
    rw [← inductionHypothesis, piecesFrom_inside inText, pieceAt_comment noBlank comment]
    rfl
  | case3 pos linePrefix start stop inText noBlank noComment semicolon =>
    rw [piecesFrom_inside inText, pieceAt_semicolon noBlank noComment semicolon]
    rfl
  | case4 pos linePrefix start stop inText noBlank noComment noSemicolon after separator =>
    rw [piecesFrom_inside inText, pieceAt_separator noBlank noComment noSemicolon separator]
    rfl
  | case5 pos linePrefix start stop inText noBlank noComment noSemicolon noSeparator skipped inductionHypothesis =>
    rw [← inductionHypothesis, piecesFrom_inside inText,
      pieceAt_body noBlank noComment noSemicolon noSeparator]
    rfl
  | case6 pos linePrefix start stop outside =>
    rw [piecesFrom_outside outside]
    simp [spansOf, bodySpan]

theorem statementScanNext_pieces (scan : StatementScan) :
    spansOf none 0 (piecesFrom scan.dialect scan.sql scan.pos scan.linePrefix) =
      match statementScanNext scan with
      | (some span, moved) => span :: spansOf none 0 (piecesFrom moved.dialect moved.sql moved.pos moved.linePrefix)
      | (none, _) => [] := by
  fun_induction statementScanNext scan with
  | case1 scan inside later start body =>
    rw [statementBodyFrom_pieces, show statementBodyFrom scan.dialect scan.sql scan.pos scan.linePrefix none 0 = scan.body
      from rfl, body]
    rfl
  | case2 scan inside later noBody inductionHypothesis =>
    rw [statementBodyFrom_pieces, show statementBodyFrom scan.dialect scan.sql scan.pos scan.linePrefix none 0 = scan.body
      from rfl, noBody, ← inductionHypothesis]
    rfl
  | case3 scan outside => rw [piecesFrom_outside outside]; rfl

/-- The iteration of the statement scan yields the spans between the separators. -/
theorem spans_pieces (scan : StatementScan) :
    scan.spans = spansOf none 0 (piecesFrom scan.dialect scan.sql scan.pos scan.linePrefix) := by
  fun_induction StatementScan.spans scan with
  | case1 scan span moved found inductionHypothesis =>
    rw [statementScanNext_pieces, found, inductionHypothesis]
  | case2 scan moved found => rw [statementScanNext_pieces, found]

end reading

/-! ## Spans of pieces -/

/-- Pieces that stand one behind the other up to the end of the text. -/
inductive Adjoining (length : Nat) : Nat → List Piece → Prop where
  | done : Adjoining length length []
  | cons {piece : Piece} {later : List Piece} (forward : piece.start < piece.stop)
      (rest : Adjoining length piece.stop later) : Adjoining length piece.start (piece :: later)

theorem piecesFrom_adjoining (dialect : Dialect) {sql : Text} {pos : Nat} (linePrefix : Bool)
    (inside : pos ≤ sql.length) : Adjoining sql.length pos (piecesFrom dialect sql pos linePrefix) := by
  fun_induction piecesFrom dialect sql pos linePrefix with
  | case1 pos linePrefix inText step inductionHypothesis =>
    obtain ⟨start, forward, bound⟩ := pieceAt_forward dialect linePrefix inText
    have later := inductionHypothesis bound
    have forward : step.1.start < step.1.stop := by
      rw [show step.1.start = pos from start]
      exact forward
    have whole := Adjoining.cons forward later
    rw [show step.1.start = pos from start] at whole
    exact whole
  | case2 pos linePrefix outside =>
    rw [Nat.le_antisymm inside (Nat.le_of_not_lt outside)]
    exact .done

def ScanSpan.Covers (span : ScanSpan) (position : Nat) : Prop :=
  span.start ≤ position ∧ position < span.stop

section spans

variable {length pos stop : Nat} {pieces : List Piece} {start : Option Nat}

theorem Adjoining.bounds (adjoining : Adjoining length pos pieces) :
    pos ≤ length ∧ ∀ piece ∈ pieces, pos ≤ piece.start ∧ piece.start < piece.stop ∧ piece.stop ≤ length := by
  induction adjoining with
  | done => exact ⟨le_rfl, nofun⟩
  | @cons piece later forward rest inductionHypothesis =>
    obtain ⟨bound, inside⟩ := inductionHypothesis
    refine ⟨forward.le.trans bound, fun other listed => ?_⟩
    cases listed with
    | head => exact ⟨le_rfl, forward, bound⟩
    | tail _ listed =>
      obtain ⟨first, ahead, last⟩ := inside other listed
      exact ⟨forward.le.trans first, ahead, last⟩

/-- Every position of the text stands in a piece. -/
theorem Adjoining.covers (adjoining : Adjoining length pos pieces) {position : Nat} (behind : pos ≤ position)
    (inside : position < length) : ∃ piece ∈ pieces, piece.Covers position := by
  induction adjoining with
  | done => omega
  | @cons piece later forward rest inductionHypothesis =>
    by_cases here : position < piece.stop
    · exact ⟨piece, List.mem_cons_self, behind, here⟩
    · obtain ⟨other, listed, covers⟩ := inductionHypothesis (Nat.le_of_not_lt here)
      exact ⟨other, List.mem_cons_of_mem _ listed, covers⟩

/-- A body that has begun, up to the position that the reader has reached. -/
def Begun (start : Option Nat) (stop pos : Nat) : Prop :=
  ∀ first ∈ start, first < stop ∧ stop ≤ pos

theorem bodySpan_mem {span : ScanSpan} (listed : span ∈ bodySpan start stop) :
    start = some span.start ∧ span.stop = stop := by
  cases start with
  | none => cases listed
  | some first =>
    cases List.mem_singleton.mp listed
    exact ⟨rfl, rfl⟩

theorem Begun.body {piece : Piece} (begun : Begun start stop piece.start) (forward : piece.start < piece.stop) :
    Begun (some (start.getD piece.start)) piece.stop piece.stop := by
  intro first same
  cases same
  refine ⟨?_, le_rfl⟩
  cases start with
  | none => exact forward
  | some first =>
    obtain ⟨ahead, reached⟩ := begun first rfl
    exact (ahead.trans_le reached).trans forward

theorem Begun.later {next : Nat} (begun : Begun start stop pos) (order : pos ≤ next) : Begun start stop next :=
  fun first same => ⟨(begun first same).1, (begun first same).2.trans order⟩

theorem Begun.none (pos : Nat) : Begun none 0 pos := nofun

theorem Begun.le (begun : Begun start stop pos) : start.getD pos ≤ pos := by
  cases start with
  | none => exact le_rfl
  | some first => exact (begun first rfl).1.le.trans (begun first rfl).2

/-- The spans stand one behind the other, behind the begin of the first body. -/
theorem spansOf_ordered (adjoining : Adjoining length pos pieces) (begun : Begun start stop pos) :
    (∀ span ∈ spansOf start stop pieces,
        start.getD pos ≤ span.start ∧ span.start < span.stop ∧ span.stop ≤ length) ∧
      (spansOf start stop pieces).Pairwise fun left right => left.stop ≤ right.start := by
  -- the span of the body that has begun ends before the reader
  have atBody {span : ScanSpan} {start : Option Nat} {stop pos : Nat} (begun : Begun start stop pos)
      (listed : span ∈ bodySpan start stop) :
      start.getD pos ≤ span.start ∧ span.start < span.stop ∧ span.stop ≤ pos := by
    obtain ⟨rfl, rfl⟩ := bodySpan_mem listed
    exact ⟨le_rfl, begun span.start rfl⟩
  induction adjoining generalizing start stop with
  | done =>
    refine ⟨fun span listed => atBody begun listed, ?_⟩
    cases start with
    | none => exact .nil
    | some first => exact List.pairwise_singleton _ _
  | @cons piece later forward rest inductionHypothesis =>
    rw [spansOf]
    split_ifs with body separates
    · exact inductionHypothesis (begun.body forward)
    · obtain ⟨inside, apart⟩ := inductionHypothesis (Begun.none piece.stop)
      have bound := rest.bounds.1
      refine ⟨fun span listed => ?_, List.pairwise_append.mpr ⟨?_, apart, fun left leftListed right rightListed => ?_⟩⟩
      · obtain listed | listed := List.mem_append.mp listed
        · obtain ⟨first, ahead, last⟩ := atBody begun listed
          exact ⟨first, ahead, last.trans (forward.le.trans bound)⟩
        · obtain ⟨first, ahead, last⟩ := inside span listed
          exact ⟨begun.le.trans (forward.le.trans first), ahead, last⟩
      · cases start with
        | none => exact .nil
        | some first => exact List.pairwise_singleton _ _
      · exact (atBody begun leftListed).2.2.trans (forward.le.trans (inside right rightListed).1)
    · obtain ⟨inside, apart⟩ := inductionHypothesis (begun.later forward.le)
      refine ⟨fun span listed => ?_, apart⟩
      obtain ⟨first, ahead, last⟩ := inside span listed
      refine ⟨?_, ahead, last⟩
      cases start with
      | none => exact forward.le.trans first
      | some _ => exact first

/-- A body that has begun is part of the first span. -/
theorem spansOf_begun {first : Nat} (adjoining : Adjoining length pos pieces) (begun : Begun (some first) stop pos) :
    ∃ span ∈ spansOf (some first) stop pieces, span.start = first ∧ stop ≤ span.stop := by
  induction adjoining generalizing stop with
  | done => exact ⟨_, List.mem_singleton_self _, rfl, le_rfl⟩
  | @cons piece later forward rest inductionHypothesis =>
    rw [spansOf]
    split_ifs with body separates
    · obtain ⟨span, listed, start, reached⟩ := inductionHypothesis (begun.body forward)
      exact ⟨span, listed, start, ((begun first rfl).2.trans forward.le).trans reached⟩
    · exact ⟨⟨first, stop⟩, List.mem_append_left _ (List.mem_singleton_self _), rfl, le_rfl⟩
    · exact inductionHypothesis (begun.later forward.le)

/-- Every piece of a body is part of a span. -/
theorem spansOf_body (adjoining : Adjoining length pos pieces) (begun : Begun start stop pos) {piece : Piece}
    (listed : piece ∈ pieces) (isBody : piece.isBody) :
    ∃ span ∈ spansOf start stop pieces, span.start ≤ piece.start ∧ piece.stop ≤ span.stop := by
  induction adjoining generalizing start stop with
  | done => cases listed
  | @cons head later forward rest inductionHypothesis =>
    rw [spansOf]
    cases listed with
    | head =>
      rw [if_pos isBody]
      obtain ⟨span, inSpans, start, reached⟩ := spansOf_begun rest (begun.body forward)
      exact ⟨span, inSpans, start.trans_le begun.le, reached⟩
    | tail _ listed =>
      split_ifs with body separates
      · exact inductionHypothesis (begun.body forward) listed
      · obtain ⟨span, inSpans, covers⟩ := inductionHypothesis (Begun.none head.stop) listed
        exact ⟨span, List.mem_append_right _ inSpans, covers⟩
      · exact inductionHypothesis (begun.later forward.le) listed

/-- No separator stands in a span. -/
theorem spansOf_separator (adjoining : Adjoining length pos pieces) (begun : Begun start stop pos) {piece : Piece}
    (listed : piece ∈ pieces) (separates : piece.separates) :
    ∀ span ∈ spansOf start stop pieces, span.stop ≤ piece.start ∨ piece.stop ≤ span.start := by
  induction adjoining generalizing start stop with
  | done => cases listed
  | @cons head later forward rest inductionHypothesis =>
    rw [spansOf]
    intro span inSpans
    cases listed with
    | head =>
      have noBody : ¬ (piece.isBody = true) := by
        simp only [Piece.separates, Bool.or_eq_true, decide_eq_true_eq] at separates
        obtain kind | kind := separates <;> simp [Piece.isBody, kind]
      rw [if_neg noBody, if_pos separates] at inSpans
      obtain inSpans | inSpans := List.mem_append.mp inSpans
      · obtain ⟨rfl, rfl⟩ := bodySpan_mem inSpans
        exact .inl (begun span.start rfl).2
      · exact .inr ((spansOf_ordered rest (Begun.none piece.stop)).1 span inSpans).1
    | tail _ listed =>
      split_ifs at inSpans with body here
      · exact inductionHypothesis (begun.body forward) listed span inSpans
      · obtain inSpans | inSpans := List.mem_append.mp inSpans
        · obtain ⟨rfl, rfl⟩ := bodySpan_mem inSpans
          exact .inl (((begun span.start rfl).2.trans forward.le).trans (rest.bounds.2 piece listed).1)
        · exact inductionHypothesis (Begun.none head.stop) listed span inSpans
      · exact inductionHypothesis (begun.later forward.le) listed span inSpans

end spans

/-! ## The end of the text -/

section terminal

variable {length pos stop : Nat} {pieces : List Piece} {start : Option Nat}

theorem TerminalScan.pass_bodyEnd (scan : TerminalScan) (piece : Piece) :
    (scan.pass piece).bodyEnd = if piece.isBody then piece.stop else scan.bodyEnd := by
  obtain ⟨kind, start, stop⟩ := piece
  cases kind with
  | comment semantic =>
    unfold TerminalScan.pass TerminalScan.passComment
    dsimp only
    split <;> rfl
  | _ => rfl

theorem TerminalScan.pass_hasBatchSeparator (scan : TerminalScan) (piece : Piece) :
    (scan.pass piece).hasBatchSeparator = (scan.hasBatchSeparator || piece.isBatchSeparator) := by
  obtain ⟨kind, start, stop⟩ := piece
  cases kind with
  | comment semantic =>
    unfold TerminalScan.pass TerminalScan.passComment
    dsimp only
    split <;> simp [Piece.isBatchSeparator]
  | _ => simp [TerminalScan.pass, Piece.isBatchSeparator]

theorem TerminalScan.pass_semanticCount (scan : TerminalScan) (piece : Piece) :
    (scan.pass piece).semanticCount = (if piece.isBody then 0 else scan.semanticCount) + piece.isSemantic.toNat := by
  obtain ⟨kind, start, stop⟩ := piece
  cases kind with
  | comment semantic =>
    unfold TerminalScan.pass TerminalScan.passComment
    dsimp only
    split
    next other => simp [Piece.isBody, Piece.isSemantic, other]
    next none => simp [Piece.isBody, Piece.isSemantic, not_not.mp none]
  | _ => rfl

theorem spansOf_nonempty (first stop : Nat) (pieces : List Piece) : spansOf (some first) stop pieces ≠ [] := by
  induction pieces generalizing stop with
  | nil => exact List.cons_ne_nil _ _
  | cons piece later inductionHypothesis =>
    rw [spansOf]
    split_ifs
    · exact inductionHypothesis piece.stop
    · exact List.append_ne_nil_of_left_ne_nil (List.cons_ne_nil _ _) _
    · exact inductionHypothesis stop

/-- The body ends with the last span. -/
theorem foldl_bodyEnd (scan : TerminalScan) (reached : start.isSome → scan.bodyEnd = stop) :
    (pieces.foldl TerminalScan.pass scan).bodyEnd =
      match (spansOf start stop pieces).getLast? with
      | some span => span.stop
      | none => scan.bodyEnd := by
  induction pieces generalizing scan start stop with
  | nil =>
    cases start with
    | none => rfl
    | some first => exact reached rfl
  | cons piece later inductionHypothesis =>
    rw [List.foldl_cons, spansOf]
    split_ifs with body separates
    · have here : (scan.pass piece).bodyEnd = piece.stop := by rw [TerminalScan.pass_bodyEnd, if_pos body]
      rw [inductionHypothesis (scan.pass piece) fun _ => here]
      have some := List.getLast?_eq_some_getLast (spansOf_nonempty (start.getD piece.start) piece.stop later)
      rw [some]
    · have here : (scan.pass piece).bodyEnd = scan.bodyEnd := by rw [TerminalScan.pass_bodyEnd, if_neg body]
      have noBody : (none : Option Nat).isSome → (scan.pass piece).bodyEnd = 0 := nofun
      rw [inductionHypothesis (scan.pass piece) noBody, List.getLast?_append, here]
      cases ends : (spansOf none 0 later).getLast? with
      | some last => rfl
      | none =>
        cases start with
        | none => rfl
        | some first => exact reached rfl
    · have here : (scan.pass piece).bodyEnd = scan.bodyEnd := by rw [TerminalScan.pass_bodyEnd, if_neg body]
      rw [inductionHypothesis (scan.pass piece) fun begun => here.trans (reached begun), here]

theorem foldl_hasBatchSeparator (scan : TerminalScan) :
    (pieces.foldl TerminalScan.pass scan).hasBatchSeparator =
      (scan.hasBatchSeparator || pieces.any Piece.isBatchSeparator) := by
  induction pieces generalizing scan with
  | nil => simp
  | cons piece later inductionHypothesis =>
    rw [List.foldl_cons, inductionHypothesis, TerminalScan.pass_hasBatchSeparator, List.any_cons, Bool.or_assoc]

/-- A body that is still to come ends behind the reader. -/
theorem foldl_bodyEnd_cases (adjoining : Adjoining length pos pieces) (scan : TerminalScan) :
    if pieces.any Piece.isBody then pos < (pieces.foldl TerminalScan.pass scan).bodyEnd
    else (pieces.foldl TerminalScan.pass scan).bodyEnd = scan.bodyEnd := by
  induction adjoining generalizing scan with
  | done => simp
  | @cons piece later forward rest inductionHypothesis =>
    have behind := inductionHypothesis (scan.pass piece)
    rw [List.foldl_cons, List.any_cons]
    by_cases more : later.any Piece.isBody
    · rw [if_pos more] at behind
      rw [more, Bool.or_true, if_pos rfl]
      exact forward.trans behind
    · rw [if_neg more, TerminalScan.pass_bodyEnd] at behind
      rw [Bool.eq_false_of_not_eq_true more, Bool.or_false, behind]
      split
      next => exact forward
      next => rfl

/-- The count is that of the semantic comments behind the last body. -/
theorem foldl_semanticCount (adjoining : Adjoining length pos pieces) (scan : TerminalScan) (behind : scan.bodyEnd ≤ pos) :
    (pieces.foldl TerminalScan.pass scan).semanticCount =
      (if pieces.any Piece.isBody then 0 else scan.semanticCount) +
        pieces.countP fun piece =>
          piece.isSemantic && (pieces.foldl TerminalScan.pass scan).bodyEnd ≤ piece.start := by
  induction adjoining generalizing scan with
  | done => simp
  | @cons piece later forward rest inductionHypothesis =>
    have reached : (scan.pass piece).bodyEnd ≤ piece.stop := by
      rw [TerminalScan.pass_bodyEnd]
      split
      next => exact le_rfl
      next => exact behind.trans forward.le
    have ends := foldl_bodyEnd_cases rest (scan.pass piece)
    rw [List.foldl_cons, inductionHypothesis _ reached, List.any_cons, List.countP_cons,
      TerminalScan.pass_semanticCount]
    by_cases body : piece.isBody
    · have noComment : piece.isSemantic = false := by
        simp only [Piece.isBody, decide_eq_true_eq] at body
        simp [Piece.isSemantic, body]
      simp [body, noComment]
    · by_cases more : later.any Piece.isBody
      · rw [if_pos more] at ends
        have before : ¬ (later.foldl TerminalScan.pass (scan.pass piece)).bodyEnd ≤ piece.start :=
          Nat.not_le_of_lt (forward.trans ends)
        simp [body, more, before]
      · rw [if_neg more, TerminalScan.pass_bodyEnd, if_neg body] at ends
        rw [ends]
        cases semantic : piece.isSemantic <;> simp [body, more, behind] <;> omega

end terminal

/-! ## The two scanners -/

/-- What the statement scan leaves out: a blank, a comment, a semicolon or a line that separates batches. -/
def Piece.Filler (dialect : Dialect) (sql : Text) (piece : Piece) : Prop :=
  (isSpace (byteAt sql piece.start) ∧ piece.stop = piece.start + 1) ∨
    (publicCommentAt dialect sql piece.start ∧ piece.stop = publicSkipQuotedOrComment dialect sql piece.start) ∨
    (byteAt sql piece.start = Byte.semicolon ∧ piece.stop = piece.start + 1) ∨
    publicSqlserverGoAt dialect sql piece.start = some piece.stop

theorem pieceAt_filler (dialect : Dialect) (sql : Text) (pos : Nat) (linePrefix : Bool)
    (noBody : (pieceAt dialect sql pos linePrefix).1.isBody = false) :
    (pieceAt dialect sql pos linePrefix).1.Filler dialect sql := by
  unfold pieceAt at noBody ⊢
  split
  next blank => exact .inl ⟨blank, rfl⟩
  next =>
    split
    next comment => exact .inr (.inl ⟨comment, rfl⟩)
    next =>
      split
      next semicolon => exact .inr (.inr (.inl ⟨semicolon, rfl⟩))
      next =>
        split
        next after separator =>
          simp only [separatorAfter] at separator
          split_ifs at separator
          exact .inr (.inr (.inr separator))
        next => simp_all [Piece.isBody]

theorem piecesFrom_filler (dialect : Dialect) (sql : Text) (pos : Nat) (linePrefix : Bool) :
    ∀ piece ∈ piecesFrom dialect sql pos linePrefix, piece.isBody = false → piece.Filler dialect sql := by
  fun_induction piecesFrom dialect sql pos linePrefix with
  | case1 pos linePrefix inside step inductionHypothesis =>
    intro piece listed noBody
    cases listed with
    | head => exact pieceAt_filler dialect sql pos linePrefix noBody
    | tail _ listed => exact inductionHypothesis piece listed noBody
  | case2 => exact nofun

/-- The statement scan and the scan of the end of the text read the same pieces.  The flag is set by a line that
separates batches wherever it stands, and a comment on such a line is not counted. -/
theorem statement_terminal_scans_agree (dialect : Dialect) (sql : Text) :
    Adjoining sql.length 0 (pieces dialect sql) ∧
      (∀ span ∈ statementSpans dialect sql, span.start < span.stop ∧ span.stop ≤ sql.length) ∧
      (statementSpans dialect sql).Pairwise (fun left right => left.stop ≤ right.start) ∧
      (∀ position < sql.length, (∀ span ∈ statementSpans dialect sql, ¬ span.Covers position) →
        ∃ piece ∈ pieces dialect sql, piece.Covers position ∧ piece.Filler dialect sql) ∧
      (∀ piece ∈ pieces dialect sql, piece.kind = .semicolon →
        ∀ span ∈ statementSpans dialect sql, ¬ span.Covers piece.start) ∧
      ((publicTerminalScan dialect sql).bodyEnd =
        match (statementSpans dialect sql).getLast? with
        | some span => span.stop
        | none => 0) ∧
      ((publicTerminalScan dialect sql).hasBatchSeparator ↔
        ∃ piece ∈ pieces dialect sql, piece.kind = .batchSeparator) ∧
      (publicTerminalScan dialect sql).semanticCount = (pieces dialect sql).countP fun piece =>
        piece.isSemantic && (publicTerminalScan dialect sql).bodyEnd ≤ piece.start := by
  have adjoining : Adjoining sql.length 0 (pieces dialect sql) := piecesFrom_adjoining dialect true (Nat.zero_le _)
  have begun : Begun none 0 0 := Begun.none 0
  have spans : statementSpans dialect sql = spansOf none 0 (pieces dialect sql) := spans_pieces _
  have terminal : publicTerminalScan dialect sql =
      { (pieces dialect sql).foldl TerminalScan.pass {} with length := sql.length } :=
    terminalScanFrom_pieces {} (Nat.zero_le _)
  obtain ⟨inside, apart⟩ := spansOf_ordered adjoining begun
  rw [spans, terminal]
  refine ⟨adjoining, fun span listed => (inside span listed).2, apart, fun position inText outside => ?_,
    fun piece listed semicolon span inSpans covers => ?_, ?_, ?_, ?_⟩
  · obtain ⟨piece, listed, covers⟩ := adjoining.covers (Nat.zero_le position) inText
    refine ⟨piece, listed, covers, piecesFrom_filler dialect sql 0 true piece listed ?_⟩
    rw [← Bool.not_eq_true]
    intro isBody
    obtain ⟨span, inSpans, first, last⟩ := spansOf_body adjoining begun listed isBody
    exact outside span inSpans ⟨first.trans covers.1, covers.2.trans_le last⟩
  · have separates : piece.separates := by simp [Piece.separates, semicolon]
    have forward := (adjoining.bounds.2 piece listed).2.1
    obtain before | behind := spansOf_separator adjoining begun listed separates span inSpans
    · exact absurd covers.2 (Nat.not_lt_of_le before)
    · exact absurd (forward.trans_le (behind.trans covers.1)) (Nat.lt_irrefl _)
  · have noBody : (none : Option Nat).isSome → ({} : TerminalScan).bodyEnd = 0 := nofun
    exact foldl_bodyEnd _ noBody
  · simp [foldl_hasBatchSeparator, List.any_eq_true, Piece.isBatchSeparator]
  · have count := foldl_semanticCount adjoining {} (Nat.zero_le 0)
    simp only [ite_self, Nat.zero_add] at count
    exact count

/-- A line that separates batches sets the flag also before the only statement, and a semantic comment on such a line
behind the last statement is not counted. -/
theorem scans_batch_separator_lines :
    ((publicTerminalScan .sqlserver (ascii "GO\nSELECT 1")).hasBatchSeparator ∧
        statementSpans .sqlserver (ascii "GO\nSELECT 1") = [⟨3, 11⟩] ∧
        ∀ piece ∈ pieces .sqlserver (ascii "GO\nSELECT 1"), piece.kind = .batchSeparator → piece.stop ≤ 3) ∧
      (publicTerminalScan .sqlserver (ascii "SELECT 1\nGO /*+ x */")).bodyEnd = 8 ∧
      publicSemanticCommentKindAt (ascii "SELECT 1\nGO /*+ x */") 12 = 1 ∧
      (publicTerminalScan .sqlserver (ascii "SELECT 1\nGO /*+ x */")).semanticCount = 0 := by
  refine ⟨⟨?_, ?_, ?_⟩, ?_, ?_, ?_⟩ <;> decide +kernel

end SqlParser.Core
