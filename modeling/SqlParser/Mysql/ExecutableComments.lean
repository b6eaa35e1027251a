import SqlParser.Mysql.NonCodeMask

/-! # Executable comments

A statement that is one `/*! ... */` comment is parsed as the comment's body. The pass before the parser replaces the
comment by its body and records it; the pass behind the deparser wraps the statement at the recorded index again.
-/

namespace SqlParser.Mysql

open SqlParser.Core

/-! ## Statements -/

/-- `sqlparser_mysql_statement_end`, as the number of bytes before the semicolon. The first argument counts the bytes of
a span that are still to be passed; a byte that `strcspn` passes opens none. -/
def statementLength : Nat → Text → Nat
  | _, [] => 0
  | passed + 1, _ :: rest => statementLength passed rest + 1
  | 0, byte :: rest =>
    if byte = Byte.semicolon then 0
    else statementLength (skipQuotedOrCommentSpan (byte :: rest) - 1) rest + 1

/-- Whether `sqlparser_mysql_skip_leading_trivia`, or `sqlparser_mysql_skip_ordinary_trivia`, passes a comment. -/
def opensTrivia (ordinary : Bool) (room : Nat) (text : Text) : Bool :=
  opensLine text || (byteAt text 0 = Byte.slash && 1 < room && byteAt text 1 = Byte.star &&
    !(ordinary && byteAt text 2 = Byte.bang))

/-- The loop of the two functions. The second argument is the room before the end, the first as in `statementLength`. -/
def triviaLength (ordinary : Bool) : Nat → Nat → Text → Nat
  | _, 0, _ => 0
  | _, _ + 1, [] => 0
  | passed + 1, room + 1, _ :: rest => triviaLength ordinary passed room rest + 1
  | 0, room + 1, byte :: rest =>
    if isSpace byte then triviaLength ordinary 0 room rest + 1
    else if opensTrivia ordinary (room + 1) (byte :: rest) && 0 < skipQuotedOrCommentSpan (byte :: rest) then
      triviaLength ordinary (skipQuotedOrCommentSpan (byte :: rest) - 1) room rest + 1
    else 0

/-- `sqlparser_mysql_skip_leading_trivia` -/
def skipLeadingTrivia (room : Nat) (text : Text) : Nat :=
  triviaLength false 0 room text

/-- `sqlparser_mysql_skip_ordinary_trivia` -/
def skipOrdinaryTrivia (room : Nat) (text : Text) : Nat :=
  triviaLength true 0 room text

/-- `sqlparser_mysql_trim_right` -/
def trimRight (text : Text) : Text :=
  text.rdropWhile isSpace

/-! ## The body of a comment -/

/-- The last loop of `sqlparser_mysql_executable_comment_body`: a semicolon that is in no span of the body. -/
def hasSemicolon : Nat → Nat → Text → Bool
  | _, 0, _ => false
  | _, _ + 1, [] => false
  | passed + 1, room + 1, _ :: rest => hasSemicolon passed room rest
  | 0, room + 1, byte :: rest =>
    if 0 < skipQuotedOrCommentSpan (byte :: rest) ∧ skipQuotedOrCommentSpan (byte :: rest) ≤ room + 1 then
      hasSemicolon (skipQuotedOrCommentSpan (byte :: rest) - 1) room rest
    else byte = Byte.semicolon || hasSemicolon 0 room rest

/-- Where a body stands in its comment. -/
structure CommentBody where
  offset : Nat
  length : Nat
  deriving DecidableEq, Repr

/-- `sqlparser_mysql_executable_comment_body`, of the comment of `size` bytes at the head of a text -/
def executableCommentBody (size : Nat) (text : Text) : Option CommentBody :=
  if size < 5 ∨ byteAt text 0 ≠ Byte.slash ∨ byteAt text 1 ≠ Byte.star ∨ byteAt text 2 ≠ Byte.bang ∨
      byteAt text (size - 2) ≠ Byte.star ∨ byteAt text (size - 1) ≠ Byte.slash then none
  else
    let digits := ((slice text 3 (size - 2)).takeWhile isDigit).length
    if digits ≠ 0 ∧ digits ≠ 5 ∧ digits ≠ 6 then none
    else
      let inside := slice text (3 + digits) (size - 2)
      let blanks := (inside.takeWhile isSpace).length
      let body := trimRight (inside.drop blanks)
      if body = [] ∨ hasSemicolon 0 body.length (text.drop (3 + digits + blanks)) then none
      else some ⟨3 + digits + blanks, body.length⟩

/-! ## The pass before the parser -/

/-- `sqlparser_mysql_executable_comment_t` -/
structure ExecutableComment where
  statementIndex : Nat
  surfaceSql : Text
  bodyOffset : Nat
  bodyLength : Nat
  deriving DecidableEq, Repr

/-- The check that the recording pass and the restoring pass make of a comment. -/
def ExecutableComment.valid (comment : ExecutableComment) : Bool :=
  comment.bodyOffset ≤ comment.surfaceSql.length &&
    comment.bodyLength ≤ comment.surfaceSql.length - comment.bodyOffset

/-- `sqlparser_mysql_state_add_executable_comment` -/
def addExecutableComment (comments : List ExecutableComment) (comment : ExecutableComment) :
    Except Error (List ExecutableComment) :=
  if comment.valid then .ok (comments ++ [comment])
  else .error ⟨.invalidArgument, "MySQL executable comment surface is invalid"⟩

/-- The comment that is all of a statement: how many bytes stand before it, its size, and its body. -/
structure StatementComment where
  start : Nat
  size : Nat
  body : CommentBody
  deriving DecidableEq, Repr

/-- The condition of `sqlparser_mysql_rewrite_executable_comments` on the statement of `size` bytes at the head of a
text. -/
def statementComment (size : Nat) (text : Text) : Option StatementComment :=
  let start := skipOrdinaryTrivia size text
  let comment := skipQuotedOrCommentSpan (text.drop start)
  if 0 < comment ∧ start + comment ≤ size ∧
      skipOrdinaryTrivia (size - (start + comment)) (text.drop (start + comment)) = size - (start + comment) then
    (executableCommentBody comment (text.drop start)).map (⟨start, comment, ·⟩)
  else none

/-- The variables of the loop. -/
structure CommentRewrite where
  segmentStart : Nat
  copyStart : Nat
  statementIndex : Nat
  rewritten : Bool
  out : Text
  comments : List ExecutableComment

/-- What the loop does with the statement of `size` bytes. -/
def rewriteStatement (sql : Text) (size : Nat) (state : CommentRewrite) : Except Error CommentRewrite :=
  let text := sql.drop state.segmentStart
  match statementComment size text with
  | some comment =>
    let start := state.segmentStart + comment.start
    let body := start + comment.body.offset
    (addExecutableComment state.comments ⟨state.statementIndex, slice sql start (start + comment.size),
        comment.body.offset, comment.body.length⟩).map fun comments =>
      { state with
        copyStart := start + comment.size
        statementIndex := state.statementIndex + 1
        rewritten := true
        out := state.out ++ slice sql state.copyStart start ++ slice sql body (body + comment.body.length)
        comments }
  | none =>
    if skipLeadingTrivia size text < size then .ok { state with statementIndex := state.statementIndex + 1 }
    else .ok state

/-- The loop over the statements of a text, at most `turns` of them. -/
def rewriteStatements (sql : Text) : Nat → CommentRewrite → Except Error CommentRewrite
  | 0, state => .ok state
  | turns + 1, state =>
    if state.segmentStart < sql.length then
      let size := statementLength 0 (sql.drop state.segmentStart)
      rewriteStatement sql size state >>= fun next =>
        if sql.length ≤ state.segmentStart + size then .ok next
        else rewriteStatements sql turns { next with segmentStart := state.segmentStart + size + 1 }
    else .ok state

/-- The bytes that open an executable comment. -/
def introducer : Text :=
  [Byte.slash, Byte.star, Byte.bang]

/-- `sqlparser_mysql_rewrite_executable_comments`: nothing, or the text for the parser and the comments -/
def rewriteExecutableComments (sql : Text) : Except Error (Option (Text × List ExecutableComment)) :=
  if behindDelimiter introducer sql = none then .ok none
  else
    (rewriteStatements sql sql.length ⟨0, 0, 0, false, [], []⟩).map fun state =>
      if state.rewritten then some (state.out ++ sql.drop state.copyStart, state.comments) else none

/-! ## The pass behind the deparser -/

/-- The variables of the loop of `sqlparser_mysql_restore_executable_comments`; `pending` are the comments from
`restore_index` on. -/
structure CommentRestore where
  segmentStart : Nat
  copyStart : Nat
  statementIndex : Nat
  out : Text
  pending : List ExecutableComment

/-- What the loop does with the statement of `size` bytes. -/
def restoreStatement (sql : Text) (size : Nat) (state : CommentRestore) : Except Error CommentRestore :=
  let text := sql.drop state.segmentStart
  let leading := skipLeadingTrivia size text
  let body := trimRight (slice text leading size)
  if body = [] then .ok state
  else
    match state.pending with
    | [] => .ok { state with statementIndex := state.statementIndex + 1 }
    | comment :: pending =>
      if comment.statementIndex = state.statementIndex then
        if comment.valid then
          .ok { state with
            copyStart := state.segmentStart + leading + body.length
            statementIndex := state.statementIndex + 1
            out := state.out ++ slice sql state.copyStart (state.segmentStart + leading) ++
              comment.surfaceSql.take comment.bodyOffset ++ body ++
              comment.surfaceSql.drop (comment.bodyOffset + comment.bodyLength)
            pending }
        else .error ⟨.internalError, "MySQL executable comment surface is invalid"⟩
      else .ok { state with statementIndex := state.statementIndex + 1 }

/-- The loop over the statements of a text, at most `turns` of them. -/
def restoreStatements (sql : Text) : Nat → CommentRestore → Except Error CommentRestore
  | 0, state => .ok state
  | turns + 1, state =>
    if state.segmentStart < sql.length then
      let size := statementLength 0 (sql.drop state.segmentStart)
      restoreStatement sql size state >>= fun next =>
        if sql.length ≤ state.segmentStart + size then .ok next
        else restoreStatements sql turns { next with segmentStart := state.segmentStart + size + 1 }
    else .ok state

/-- What is reported when a recorded statement is not in the text. -/
def statementMissing : Error :=
  ⟨.internalError, "MySQL executable comment statement is missing after deparse"⟩

/-- `sqlparser_mysql_restore_executable_comments` -/
def restoreExecutableComments (sql : Text) (comments : List ExecutableComment) : Except Error Text :=
  if comments = [] then .ok sql
  else
    restoreStatements sql sql.length ⟨0, 0, 0, [], comments⟩ >>= fun state =>
      if state.pending ≠ [] then .error statementMissing
      else .ok (state.out ++ sql.drop state.copyStart)

end SqlParser.Mysql
