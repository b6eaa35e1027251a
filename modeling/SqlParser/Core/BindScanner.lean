import SqlParser.Core.PublicLexer

/-! # The bind scanner

`sqlparser_bind_occurrence.c` iterates over the bind tokens of a text.  Outside
of MySQL executable comments every quoted item and comment is skipped; the body
of an executable comment that stands alone in its statement is scanned like code,
and behind it the scanner goes on after the comment.
-/

namespace SqlParser.Core

/-- `sqlparser_bind_kind_t` -/
inductive BindKind where
  | positional
  | named
  deriving DecidableEq, Repr

/-- `sqlparser_bind_token_t` -/
structure BindToken where
  start : Nat
  stop : Nat
  keyStart : Nat
  keyLength : Nat
  kind : BindKind
  deriving DecidableEq, Repr

/-- `sqlparser_bind_scanner_t` -/
structure BindScanner where
  dialect : Dialect
  sql : Text
  length : Nat
  index : Nat
  /-- The offset at which the code of a statement would begin, or `sizeMax`. -/
  codeStart : Nat
  /-- The end of the executable body that is scanned, or `0`. -/
  codeEnd : Nat
  markerStart : Nat
  markerEnd : Nat
  allowMarkers : Bool
  deriving DecidableEq, Repr

/-! ## Tokens -/

def bindOracleNameStart (byte : UInt8) : Bool :=
  isAlpha byte || byte = Byte.underscore

def bindOracleNameChar (byte : UInt8) : Bool :=
  isAlnum byte || byte = Byte.underscore || byte = Byte.dollar || byte = Byte.hash

/-- `sqlparser_sqlserver_is_ident_start` -/
def sqlserverIsIdentStart (byte : UInt8) : Bool :=
  isAlpha byte || byte = Byte.underscore || byte = Byte.hash

/-- `sqlparser_sqlserver_is_ident_char` -/
def sqlserverIsIdentChar (byte : UInt8) : Bool :=
  isAlnum byte || byte = Byte.underscore || byte = Byte.dollar || byte = Byte.hash || byte = Byte.at'

def bindBoundaryBefore (dialect : Dialect) (sql : Text) (start : Nat) : Bool :=
  if start = 0 then true
  else
    let previous := byteAt sql (start - 1)
    if previous = Byte.dot || publicCharIsIdent previous then false
    else if dialect.isSqlserverCompatible && previous = Byte.at' then false
    else true

def bindBoundaryAfter (dialect : Dialect) (sql : Text) (stop : Nat) : Bool :=
  let next := byteAt sql stop
  if publicCharIsIdent next || (next = Byte.dot && !dialect.isSqlserverCompatible) then false
  else if dialect.isSqlserverCompatible && next = Byte.at' then false
  else true

/-- The loop of `sqlparser_bind_unsigned_value` over the digits. -/
def bindUnsignedDigits : Text → Nat → Option Nat
  | [], value => some value
  | byte :: rest, value =>
    let digit := byte.toNat - 48
    if value > (sizeMax - digit) / 10 then none
    else bindUnsignedDigits rest (value * 10 + digit)

def bindUnsignedValue (sql : Text) (start stop : Nat) : Option Nat :=
  bindUnsignedDigits ((sql.take stop).drop start) 0

/-- Whether the number of a dollar token lies in the range of the markers. -/
def BindScanner.markerAccepts (scanner : BindScanner) (start stop : Nat) : Bool :=
  scanner.allowMarkers &&
    match bindUnsignedValue scanner.sql start stop with
    | some value => scanner.markerStart ≤ value && value < scanner.markerEnd
    | none => false

/-- Whether dollar tokens belong to the language of the dialect. -/
def bindPublicDollar (dialect : Dialect) : Bool :=
  dialect.usesPostgresqlPlaceholders || dialect = .vastbaseOracle || dialect = .kingbaseOracle

/-- `sqlparser_bind_dollar_token` -/
def bindDollarToken (scanner : BindScanner) (start : Nat) : Option BindToken :=
  let sql := scanner.sql
  if byteAt sql start ≠ Byte.dollar ∨ byteAt sql (start + 1) < 49 ∨ byteAt sql (start + 1) > 57 ∨
      !bindBoundaryBefore scanner.dialect sql start then
    none
  else
    let stop := runEnd isDigit sql (start + 1)
    if publicCharIsIdent (byteAt sql stop) ∨ stop = start + 1 then none
    else if !bindPublicDollar scanner.dialect && !scanner.markerAccepts (start + 1) stop then none
    else some ⟨start, stop, start + 1, stop - start - 1, .positional⟩

theorem bindOracleNameStart_ne_zero {byte : UInt8} (starts : bindOracleNameStart byte) : byte ≠ 0 := by
  rintro rfl
  exact absurd starts (by decide)

/-- The loop over a dotted name, entered at its first character. -/
def bindOracleNameEnd (sql : Text) (index : Nat) : Nat :=
  let stop := runEnd bindOracleNameChar sql (index + 1)
  if byteAt sql stop = Byte.dot ∧ bindOracleNameStart (byteAt sql (stop + 1)) then
    bindOracleNameEnd sql (stop + 1)
  else stop
termination_by sql.length - index
decreasing_by
  rename_i continues
  have := lt_of_byteAt (bindOracleNameStart_ne_zero continues.2)
  have := le_runEnd bindOracleNameChar sql (index + 1)
  omega

/-- `sqlparser_bind_colon_token` -/
def bindColonToken (scanner : BindScanner) (start : Nat) : Option BindToken :=
  let sql := scanner.sql
  if !scanner.dialect.isOracleOrDamengCompatible then none
  else if byteAt sql start ≠ Byte.colon ∨ byteAt sql (start + 1) = Byte.colon ∨
      byteAt sql (start + 1) = Byte.equals ∨ (0 < start ∧ byteAt sql (start - 1) = Byte.colon) ∨
      !bindBoundaryBefore scanner.dialect sql start then
    none
  else if isDigit (byteAt sql (start + 1)) then
    let stop := runEnd isDigit sql (start + 1)
    if publicCharIsIdent (byteAt sql stop) then none
    else some ⟨start, stop, start + 1, stop - start - 1, .positional⟩
  else if bindOracleNameStart (byteAt sql (start + 1)) then
    let stop := bindOracleNameEnd sql (start + 1)
    if !bindBoundaryAfter scanner.dialect sql stop then none
    else some ⟨start, stop, start + 1, stop - start - 1, .named⟩
  else none

/-- `sqlparser_bind_at_token` -/
def bindAtToken (scanner : BindScanner) (start : Nat) : Option BindToken :=
  let sql := scanner.sql
  if !scanner.dialect.isSqlserverCompatible then none
  else if byteAt sql start ≠ Byte.at' ∨ byteAt sql (start + 1) = Byte.at' ∨
      (!sqlserverIsIdentStart (byteAt sql (start + 1)) ∧ !isDigit (byteAt sql (start + 1))) ∨
      !bindBoundaryBefore scanner.dialect sql start then
    none
  else
    let stop := runEnd sqlserverIsIdentChar sql (start + 2)
    if !bindBoundaryAfter scanner.dialect sql stop then none
    else some ⟨start, stop, start + 1, stop - start - 1, .named⟩

/-- `sqlparser_bind_question_token` -/
def bindQuestionToken (scanner : BindScanner) (start : Nat) : Option BindToken :=
  if byteAt scanner.sql start ≠ Byte.question ∨ scanner.dialect.usesPostgresqlPlaceholders then none
  else some ⟨start, start + 1, 0, 0, .positional⟩

/-- The tokens in the order in which the scanner tries them. -/
def bindTokenAt (scanner : BindScanner) (start : Nat) : Option BindToken :=
  bindQuestionToken scanner start <|> bindDollarToken scanner start <|>
    bindColonToken scanner start <|> bindAtToken scanner start

/-! ## Executable comments -/

/-- The loop over a quoted item of an executable body, entered behind the opening quote. -/
def behindExecutableQuoted (quote : UInt8) : Text → Text
  | [] => []
  | [_] => []
  | byte :: next :: rest =>
    if byte = quote then
      if next = quote then behindExecutableQuoted quote rest else next :: rest
    else behindExecutableQuoted quote (next :: rest)

/-- `sqlparser_bind_mysql_executable_skip` -/
def bindMysqlExecutableSkip (sql : Text) (index : Nat) : Nat :=
  let quote := byteAt sql index
  if quote ≠ Byte.quote ∧ quote ≠ Byte.doubleQuote ∧ quote ≠ Byte.backtick then
    publicSkipQuotedOrComment .mysql sql index
  else offsetOf sql (behindExecutableQuoted quote (sql.drop (index + 1)))

/-- Whether no statement ends inside of the body. -/
def bindExecutableBodyPlain (sql : Text) (bodyEnd pos : Nat) : Bool :=
  if inside : pos < bodyEnd then
    let skipped := bindMysqlExecutableSkip sql pos
    if jumps : skipped > pos ∧ skipped ≤ bodyEnd then bindExecutableBodyPlain sql bodyEnd skipped
    else if byteAt sql pos = Byte.semicolon then false
    else bindExecutableBodyPlain sql bodyEnd (pos + 1)
  else true
termination_by bodyEnd - pos
decreasing_by all_goals omega

/-- `sqlparser_bind_mysql_executable_body` -/
def bindMysqlExecutableBody (scanner : BindScanner) (commentStart commentEnd : Nat) : Option (Nat × Nat) :=
  let sql := scanner.sql
  if !scanner.dialect.isMysqlCompatible ∨ scanner.codeStart = sizeMax ∨ commentStart ≠ scanner.codeStart ∨
      commentEnd - commentStart < 5 then
    none
  else if byteAt sql commentStart ≠ Byte.slash ∨ byteAt sql (commentStart + 1) ≠ Byte.star ∨
      byteAt sql (commentStart + 2) ≠ Byte.bang ∨ byteAt sql (commentEnd - 2) ≠ Byte.star ∨
      byteAt sql (commentEnd - 1) ≠ Byte.slash then
    none
  else
    let body := sql.take (commentEnd - 2)
    let versionStart := commentStart + 3
    let versionEnd := runEnd isDigit body versionStart
    if versionEnd ≠ versionStart ∧ versionEnd - versionStart ≠ 5 ∧ versionEnd - versionStart ≠ 6 then none
    else
      let bodyStart := runEnd isSpace body versionEnd
      let bodyEnd := bodyStart + ((body.drop bodyStart).reverse.dropWhile isSpace).length
      if bodyStart = bodyEnd then none
      else if !bindExecutableBodyPlain sql bodyEnd bodyStart then none
      else
        let statementEnd := runEnd isSpace sql commentEnd
        if statementEnd < scanner.length ∧ byteAt sql statementEnd ≠ Byte.semicolon then none
        else some (bodyStart, commentEnd - 2)

/-! ## The scanner -/

/-- `sqlparser_bind_scanner_init` -/
def bindScannerInit (dialect : Dialect) (sql : Text) : BindScanner :=
  ⟨dialect, sql, sql.length, 0, 0, 0, 0, 0, false⟩

@[simp] theorem bindScannerInit_sql (dialect : Dialect) (sql : Text) : (bindScannerInit dialect sql).sql = sql := rfl

@[simp] theorem bindScannerInit_dialect (dialect : Dialect) (sql : Text) :
    (bindScannerInit dialect sql).dialect = dialect := rfl

@[simp] theorem bindScannerInit_length (dialect : Dialect) (sql : Text) :
    (bindScannerInit dialect sql).length = sql.length := rfl

/-- `sqlparser_bind_scanner_init_markers` -/
def bindScannerInitMarkers (dialect : Dialect) (sql : Text) (markerStart markerCount : Nat) : BindScanner :=
  if markerCount = 0 ∨ markerStart > sizeMax - markerCount then bindScannerInit dialect sql
  else
    { bindScannerInit dialect sql with
      markerStart := markerStart
      markerEnd := markerStart + markerCount
      allowMarkers := true }

theorem bindScannerInitMarkers_sql (dialect : Dialect) (sql : Text) (markerStart markerCount : Nat) :
    (bindScannerInitMarkers dialect sql markerStart markerCount).sql = sql := by
  unfold bindScannerInitMarkers
  split <;> rfl

/-- What the scanner keeps of `codeStart` when it passes something that is not space. -/
def BindScanner.passCode (scanner : BindScanner) : Nat :=
  if scanner.codeEnd = 0 then sizeMax else scanner.codeStart

/-- The scanner behind the executable comment whose body it has scanned. -/
def BindScanner.leaveBody (scanner : BindScanner) : BindScanner :=
  { scanner with
    index :=
      if scanner.length ≥ 2 ∧ scanner.codeEnd ≤ scanner.length - 2 then scanner.codeEnd + 2 else scanner.length
    codeStart := sizeMax
    codeEnd := 0 }

/-- The scanner behind a space. -/
def BindScanner.passSpace (scanner : BindScanner) : BindScanner :=
  { scanner with
    index := scanner.index + 1
    codeStart :=
      if scanner.codeEnd = 0 ∧ scanner.codeStart = scanner.index then scanner.index + 1 else scanner.codeStart }

/-- The scanner behind a quoted item or a comment, or inside of an executable comment. -/
def BindScanner.passSkipped (scanner : BindScanner) (skipped : Nat) : BindScanner :=
  if scanner.codeEnd = 0 then
    match bindMysqlExecutableBody scanner scanner.index skipped with
    | some (bodyStart, bodyEnd) =>
      { scanner with index := bodyStart, codeStart := bodyStart, codeEnd := bodyEnd }
    | none => { scanner with index := skipped, codeStart := sizeMax }
  else { scanner with index := skipped }

/-- What one turn of the loop of `sqlparser_bind_scanner_next` does. -/
inductive BindTurn where
  | stops
  | continues (scanner : BindScanner)
  | finds (token : BindToken) (scanner : BindScanner)

/-- One turn of the loop of `sqlparser_bind_scanner_next`. -/
def BindScanner.turn (scanner : BindScanner) : BindTurn :=
  let index := scanner.index
  if ¬ index < scanner.length then .stops
  else if scanner.codeEnd ≠ 0 ∧ index ≥ scanner.codeEnd then .continues scanner.leaveBody
  else if isSpace (byteAt scanner.sql index) then .continues scanner.passSpace
  else if scanner.codeEnd = 0 ∧ byteAt scanner.sql index = Byte.semicolon then
    .continues { scanner with index := index + 1, codeStart := index + 1 }
  else
    let skipped := publicSkipQuotedOrComment scanner.dialect scanner.sql index
    if skipped ≠ index then .continues (scanner.passSkipped skipped)
    else
      match bindTokenAt scanner index with
      | some token => .finds token { scanner with index := token.stop, codeStart := scanner.passCode }
      | none => .continues { scanner with index := index + 1, codeStart := scanner.passCode }

/-! ## Termination

Outside of an executable comment the index grows.  A body is entered with an end
behind the index, grows its own index, and is left to the end that it was entered with.
-/

/-- The bytes that are left behind the executable comment or the index, and then those of its body. -/
def BindScanner.remaining (scanner : BindScanner) : Nat :=
  if scanner.codeEnd = 0 then (scanner.length - scanner.index) * (scanner.length + 2)
  else (scanner.length - (scanner.codeEnd + 2)) * (scanner.length + 2) + (scanner.length - scanner.index + 1)

theorem publicSkip_ge (dialect : Dialect) (sql : Text) (index : Nat) :
    index ≤ publicSkipQuotedOrComment dialect sql index := by
  by_cases inside : index ≤ sql.length
  case pos => exact (publicSkip_bounds dialect inside).1
  case neg =>
    -- behind the text stands no opening byte
    have zero : byteAt sql index = 0 := byteAt_of_le (by omega)
    have stays : publicSkipQuotedOrComment dialect sql index = index := by
      simp only [publicSkipQuotedOrComment, zero]
      rfl
    rw [stays]

theorem bindMysqlExecutableBody_some {scanner : BindScanner} {commentStart commentEnd bodyStart bodyEnd : Nat}
    (found : bindMysqlExecutableBody scanner commentStart commentEnd = some (bodyStart, bodyEnd)) :
    scanner.dialect.isMysqlCompatible ∧ commentStart + 5 ≤ commentEnd ∧ bodyEnd + 2 = commentEnd ∧
      commentStart ≤ bodyStart ∧ byteAt scanner.sql bodyEnd = Byte.star := by
  unfold bindMysqlExecutableBody at found
  dsimp only at found
  split_ifs at found with refused unframed _ _ _ _
  all_goals try cases found
  all_goals
    simp only [not_or, Bool.not_eq_true', not_lt, ne_eq, Decidable.not_not] at refused unframed
    have version := le_runEnd isDigit (scanner.sql.take (commentEnd - 2)) (commentStart + 3)
    have spaces := le_runEnd isSpace (scanner.sql.take (commentEnd - 2))
      (runEnd isDigit (scanner.sql.take (commentEnd - 2)) (commentStart + 3))
    refine ⟨by simpa using refused.1, by omega, by omega, by omega, unframed.2.2.2.1⟩

theorem bindMysqlExecutableBody_opens {scanner : BindScanner} {commentStart commentEnd : Nat} {body : Nat × Nat}
    (found : bindMysqlExecutableBody scanner commentStart commentEnd = some body) :
    byteAt scanner.sql commentStart = Byte.slash ∧ byteAt scanner.sql (commentStart + 2) = Byte.bang := by
  unfold bindMysqlExecutableBody at found
  dsimp only at found
  split_ifs at found with refused unframed
  all_goals try cases found
  all_goals
    simp only [not_or, ne_eq, Decidable.not_not] at unframed
    exact ⟨unframed.1, unframed.2.2.1⟩

theorem bindQuestionToken_some {scanner : BindScanner} {start : Nat} {token : BindToken}
    (found : bindQuestionToken scanner start = some token) :
    byteAt scanner.sql start = Byte.question ∧ scanner.dialect.usesPostgresqlPlaceholders = false ∧
      token = ⟨start, start + 1, 0, 0, .positional⟩ := by
  unfold bindQuestionToken at found
  split at found
  next => cases found
  next plain =>
    rw [not_or, Decidable.not_not, Bool.not_eq_true] at plain
    cases found
    exact ⟨plain.1, plain.2, rfl⟩

/-- The first byte of a dollar token and the run of its digits. -/
theorem bindDollarToken_some {scanner : BindScanner} {start : Nat} {token : BindToken}
    (found : bindDollarToken scanner start = some token) :
    byteAt scanner.sql start = Byte.dollar ∧ 49 ≤ byteAt scanner.sql (start + 1) ∧
      byteAt scanner.sql (start + 1) ≤ 57 ∧ start + 1 < token.stop ∧
      token.stop = runEnd isDigit scanner.sql (start + 1) ∧
      (bindPublicDollar scanner.dialect ∨ scanner.markerAccepts (start + 1) token.stop) ∧
      token = ⟨start, token.stop, start + 1, token.stop - start - 1, .positional⟩ := by
  unfold bindDollarToken at found
  dsimp only at found
  split_ifs at found with refused merged unknown
  all_goals cases found
  simp only [not_or, Decidable.not_not, ne_eq] at refused merged
  have digits := le_runEnd isDigit scanner.sql (start + 1)
  refine ⟨refused.1, UInt8.not_lt.mp refused.2.1, UInt8.not_lt.mp refused.2.2.1, by dsimp only; omega,
    rfl, ?_, rfl⟩
  cases known : bindPublicDollar scanner.dialect with
  | true => exact .inl rfl
  | false =>
    rw [known] at unknown
    exact .inr (by simpa using unknown)

theorem bindColonToken_some {scanner : BindScanner} {start : Nat} {token : BindToken}
    (found : bindColonToken scanner start = some token) :
    scanner.dialect.isOracleOrDamengCompatible ∧ byteAt scanner.sql start = Byte.colon ∧
      ((isDigit (byteAt scanner.sql (start + 1)) ∧ token.kind = .positional ∧
          token.stop = runEnd isDigit scanner.sql (start + 1)) ∨
        (isDigit (byteAt scanner.sql (start + 1)) = false ∧
          bindOracleNameStart (byteAt scanner.sql (start + 1)) ∧ token.kind = .named ∧
          token.stop = bindOracleNameEnd scanner.sql (start + 1))) ∧
      token = ⟨start, token.stop, start + 1, token.stop - start - 1, token.kind⟩ := by
  unfold bindColonToken at found
  dsimp only at found
  split_ifs at found with foreign refused digit merged name dotted
  all_goals cases found
  all_goals
    simp only [not_or, Decidable.not_not, ne_eq] at foreign refused
    refine ⟨by simpa using foreign, refused.1, ?_, rfl⟩
  · exact .inl ⟨digit, rfl, rfl⟩
  · exact .inr ⟨by simpa using digit, name, rfl, rfl⟩

theorem bindAtToken_some {scanner : BindScanner} {start : Nat} {token : BindToken}
    (found : bindAtToken scanner start = some token) :
    scanner.dialect.isSqlserverCompatible ∧ byteAt scanner.sql start = Byte.at' ∧
      (sqlserverIsIdentStart (byteAt scanner.sql (start + 1)) ∨ isDigit (byteAt scanner.sql (start + 1))) ∧
      token.stop = runEnd sqlserverIsIdentChar scanner.sql (start + 2) ∧
      token = ⟨start, token.stop, start + 1, token.stop - start - 1, .named⟩ := by
  unfold bindAtToken at found
  dsimp only at found
  split_ifs at found with foreign refused merged
  all_goals cases found
  simp only [not_or, Decidable.not_not, ne_eq] at foreign refused
  refine ⟨by simpa using foreign, refused.1, ?_, rfl, rfl⟩
  have starts := refused.2.2.1
  rw [not_and_or] at starts
  simpa using starts

theorem bindOracleNameEnd_bounds {sql : Text} {index : Nat} (inside : index < sql.length) :
    index < bindOracleNameEnd sql index ∧ bindOracleNameEnd sql index ≤ sql.length := by
  fun_induction bindOracleNameEnd sql index with
  | case1 index stop continues inductionHypothesis =>
    have := le_runEnd bindOracleNameChar sql (index + 1)
    have rest := inductionHypothesis (lt_of_byteAt (bindOracleNameStart_ne_zero continues.2))
    exact ⟨by omega, rest.2⟩
  | case2 index stop ends =>
    have := le_runEnd bindOracleNameChar sql (index + 1)
    exact ⟨by omega, runEnd_le _ inside⟩

/-- The kinds of tokens that the scanner tries, in its order. -/
theorem bindTokenAt_cases {scanner : BindScanner} {start : Nat} {token : BindToken}
    (found : bindTokenAt scanner start = some token) :
    bindQuestionToken scanner start = some token ∨ bindDollarToken scanner start = some token ∨
      bindColonToken scanner start = some token ∨ bindAtToken scanner start = some token := by
  unfold bindTokenAt at found
  cases question : bindQuestionToken scanner start with
  | some _ => exact .inl (by rwa [question] at found)
  | none =>
    cases dollar : bindDollarToken scanner start with
    | some _ => exact .inr (.inl (by rwa [question, dollar] at found))
    | none =>
      cases colon : bindColonToken scanner start with
      | some _ => exact .inr (.inr (.inl (by rwa [question, dollar, colon] at found)))
      | none => exact .inr (.inr (.inr (by rwa [question, dollar, colon] at found)))

/-- What a recognised token looks like, whatever its kind. -/
theorem bindTokenAt_some {scanner : BindScanner} {start : Nat} {token : BindToken}
    (found : bindTokenAt scanner start = some token) :
    token.start = start ∧ start < token.stop ∧ token.stop ≤ scanner.sql.length := by
  obtain question | dollar | colon | at' := bindTokenAt_cases found
  · obtain ⟨first, -, rfl⟩ := bindQuestionToken_some question
    have := lt_of_byteAt (first.trans_ne (by decide))
    exact ⟨rfl, Nat.lt_succ_self start, this⟩
  · obtain ⟨first, -, -, digits, run, -, whole⟩ := bindDollarToken_some dollar
    have := lt_of_byteAt (first.trans_ne (by decide))
    rw [whole]
    exact ⟨rfl, by dsimp only; omega, run ▸ runEnd_le isDigit this⟩
  · obtain ⟨-, first, shape, whole⟩ := bindColonToken_some colon
    have := lt_of_byteAt (first.trans_ne (by decide))
    rw [whole]
    obtain ⟨-, -, run⟩ | ⟨-, name, -, run⟩ := shape
    · have := le_runEnd isDigit scanner.sql (start + 1)
      exact ⟨rfl, by dsimp only; omega, run ▸ runEnd_le isDigit ‹_›⟩
    · have bounds := bindOracleNameEnd_bounds (lt_of_byteAt (bindOracleNameStart_ne_zero name))
      rw [run]
      exact ⟨rfl, by omega, bounds.2⟩
  · obtain ⟨-, first, name, run, whole⟩ := bindAtToken_some at'
    have := lt_of_byteAt (first.trans_ne (by decide))
    have := le_runEnd sqlserverIsIdentChar scanner.sql (start + 2)
    have second : byteAt scanner.sql (start + 1) ≠ 0 := by
      intro zero
      rw [zero] at name
      exact absurd name (by decide)
    rw [whole]
    exact ⟨rfl, by dsimp only; omega, run ▸ runEnd_le _ (lt_of_byteAt second)⟩

theorem BindScanner.remaining_outside {scanner : BindScanner} (outside : scanner.codeEnd = 0) :
    scanner.remaining = (scanner.length - scanner.index) * (scanner.length + 2) :=
  if_pos outside

theorem BindScanner.remaining_body {scanner : BindScanner} (body : scanner.codeEnd ≠ 0) :
    scanner.remaining =
      (scanner.length - (scanner.codeEnd + 2)) * (scanner.length + 2) + (scanner.length - scanner.index + 1) :=
  if_neg body

/-- A scanner that moves forward in its own mode comes closer to the end. -/
theorem BindScanner.remaining_forward {scanner next : BindScanner} (sameEnd : next.codeEnd = scanner.codeEnd)
    (sameLength : next.length = scanner.length) (inside : scanner.index < scanner.length)
    (forward : scanner.index < next.index) : next.remaining < scanner.remaining := by
  by_cases outside : scanner.codeEnd = 0
  case pos =>
    rw [remaining_outside outside, remaining_outside (sameEnd.trans outside), sameLength]
    exact Nat.mul_lt_mul_of_pos_right (by omega) (Nat.succ_pos _)
  case neg =>
    rw [remaining_body outside, remaining_body (sameEnd.trans_ne outside), sameLength, sameEnd]
    omega

/-- Leaving a body, the scanner goes to the end that it entered the body with. -/
theorem BindScanner.remaining_leaveBody {scanner : BindScanner} (body : scanner.codeEnd ≠ 0) :
    scanner.leaveBody.remaining < scanner.remaining := by
  have closer : scanner.length - scanner.leaveBody.index = scanner.length - (scanner.codeEnd + 2) := by
    unfold leaveBody
    dsimp only
    split <;> omega
  have sameLength : scanner.leaveBody.length = scanner.length := rfl
  rw [remaining_body body, @remaining_outside scanner.leaveBody rfl, sameLength, closer]
  exact Nat.lt_add_of_pos_right (Nat.succ_pos _)

/-- Entering a body, the scanner gives up the bytes of the comment. -/
theorem BindScanner.remaining_enter {scanner next : BindScanner} (outside : scanner.codeEnd = 0)
    (body : next.codeEnd ≠ 0) (sameLength : next.length = scanner.length)
    (inside : scanner.index < scanner.length) (beyond : scanner.index < next.codeEnd + 2) :
    next.remaining < scanner.remaining := by
  rw [remaining_body body, remaining_outside outside, sameLength]
  calc (scanner.length - (next.codeEnd + 2)) * (scanner.length + 2) + (scanner.length - next.index + 1)
      < (scanner.length - (next.codeEnd + 2)) * (scanner.length + 2) + (scanner.length + 2) := by omega
    _ = (scanner.length - (next.codeEnd + 2) + 1) * (scanner.length + 2) := by rw [Nat.succ_mul]
    _ ≤ (scanner.length - scanner.index) * (scanner.length + 2) := Nat.mul_le_mul_right _ (by omega)

theorem BindScanner.remaining_passSkipped {scanner : BindScanner} {skipped : Nat}
    (inside : scanner.index < scanner.length) (forward : scanner.index < skipped) :
    (scanner.passSkipped skipped).remaining < scanner.remaining := by
  unfold passSkipped
  split
  next outside =>
    split
    next bodyStart bodyEnd found =>
      obtain ⟨-, size, stop, -, -⟩ := bindMysqlExecutableBody_some found
      exact remaining_enter outside (by dsimp only; omega) rfl inside (by dsimp only; omega)
    next => exact remaining_forward rfl rfl inside forward
  next => exact remaining_forward rfl rfl inside forward

/-- A turn that goes on comes closer to the end. -/
theorem BindScanner.remaining_continues {scanner next : BindScanner} (turn : scanner.turn = .continues next) :
    next.remaining < scanner.remaining := by
  unfold BindScanner.turn at turn
  dsimp only at turn
  split_ifs at turn with inside leaves space separates skips
  · cases turn
    exact remaining_leaveBody leaves.1
  · cases turn
    exact remaining_forward rfl rfl inside (Nat.lt_succ_self _)
  · cases turn
    exact remaining_forward rfl rfl inside (Nat.lt_succ_self _)
  · cases turn
    exact remaining_passSkipped inside (lt_of_le_of_ne (publicSkip_ge _ _ _) (Ne.symm skips))
  · split at turn
    next => cases turn
    next =>
      cases turn
      exact remaining_forward rfl rfl inside (Nat.lt_succ_self _)

/-- All that the turn which finds a token has checked. -/
theorem BindScanner.turn_finds {scanner next : BindScanner} {token : BindToken}
    (turn : scanner.turn = .finds token next) :
    scanner.index < scanner.length ∧ (scanner.codeEnd ≠ 0 → scanner.index < scanner.codeEnd) ∧
      publicSkipQuotedOrComment scanner.dialect scanner.sql scanner.index = scanner.index ∧
      bindTokenAt scanner scanner.index = some token ∧
      next = { scanner with index := token.stop, codeStart := scanner.passCode } := by
  unfold BindScanner.turn at turn
  dsimp only at turn
  split_ifs at turn with inside leaves space separates skips
  split at turn
  next found =>
    cases turn
    refine ⟨inside, fun body => ?_, Decidable.not_not.mp skips, found, rfl⟩
    exact Nat.lt_of_not_le fun beyond => leaves ⟨body, beyond⟩
  next => cases turn

theorem BindScanner.remaining_finds {scanner next : BindScanner} {token : BindToken}
    (turn : scanner.turn = .finds token next) : next.remaining < scanner.remaining := by
  obtain ⟨inside, -, -, found, rfl⟩ := turn_finds turn
  exact remaining_forward rfl rfl inside (bindTokenAt_some found).2.1

/-- `sqlparser_bind_scanner_next` -/
def bindScannerNext (scanner : BindScanner) : Option (BindToken × BindScanner) :=
  match _turn : scanner.turn with
  | .stops => none
  | .continues next => bindScannerNext next
  | .finds token next => some (token, next)
termination_by scanner.remaining
decreasing_by exact BindScanner.remaining_continues _turn

theorem bindScannerNext_remaining {scanner next : BindScanner} {token : BindToken}
    (found : bindScannerNext scanner = some (token, next)) :
    next.remaining < scanner.remaining := by
  fun_induction bindScannerNext scanner with
  | case1 => cases found
  | case2 scanner later turn inductionHypothesis =>
    exact (inductionHypothesis found).trans (BindScanner.remaining_continues turn)
  | case3 scanner token' next' turn =>
    cases found
    exact BindScanner.remaining_finds turn

/-- The tokens that the scanner reports until it reports none. -/
def bindTokens (scanner : BindScanner) : List BindToken :=
  match _found : bindScannerNext scanner with
  | none => []
  | some (token, next) => token :: bindTokens next
termination_by scanner.remaining
decreasing_by exact bindScannerNext_remaining _found

theorem BindScanner.passSkipped_outside {scanner : BindScanner} {skipped : Nat} (outside : scanner.codeEnd = 0)
    (noBody : bindMysqlExecutableBody scanner scanner.index skipped = none) :
    scanner.passSkipped skipped = { scanner with index := skipped, codeStart := sizeMax } := by
  unfold passSkipped
  rw [if_pos outside, noBody]

theorem BindScanner.turn_skips {scanner : BindScanner} (inside : scanner.index < scanner.length)
    (outside : scanner.codeEnd = 0) (visible : isSpace (byteAt scanner.sql scanner.index) = false)
    (inStatement : byteAt scanner.sql scanner.index ≠ Byte.semicolon)
    (skips : publicSkipQuotedOrComment scanner.dialect scanner.sql scanner.index ≠ scanner.index) :
    scanner.turn =
      .continues (scanner.passSkipped (publicSkipQuotedOrComment scanner.dialect scanner.sql scanner.index)) := by
  unfold BindScanner.turn
  dsimp only
  rw [if_neg (not_not.mpr inside), if_neg (fun leaves => leaves.1 outside), if_neg (Bool.not_eq_true _ ▸ visible),
    if_neg (fun separates => inStatement separates.2), if_pos skips]

theorem bindScannerNext_continues {scanner next : BindScanner} (turn : scanner.turn = .continues next) :
    bindScannerNext scanner = bindScannerNext next := by
  rw [bindScannerNext]
  split
  next stops => rw [turn] at stops; cases stops
  next continues => rw [turn] at continues; cases continues; rfl
  next finds => rw [turn] at finds; cases finds

theorem bindTokens_none {scanner : BindScanner} (found : bindScannerNext scanner = none) :
    bindTokens scanner = [] := by
  rw [bindTokens]
  split
  next => rfl
  next reported => rw [found] at reported; cases reported

theorem bindTokens_some {scanner next : BindScanner} {token : BindToken}
    (found : bindScannerNext scanner = some (token, next)) : bindTokens scanner = token :: bindTokens next := by
  rw [bindTokens]
  split
  next ends => rw [found] at ends; cases ends
  next reported => rw [found] at reported; cases reported; rfl

theorem bindTokens_stops {scanner : BindScanner} (turn : scanner.turn = .stops) : bindTokens scanner = [] := by
  apply bindTokens_none
  rw [bindScannerNext]
  split
  next => rfl
  next continues => rw [turn] at continues; cases continues
  next finds => rw [turn] at finds; cases finds

theorem bindTokens_continues {scanner next : BindScanner} (turn : scanner.turn = .continues next) :
    bindTokens scanner = bindTokens next := by
  have same := bindScannerNext_continues turn
  cases found : bindScannerNext next with
  | none => rw [bindTokens_none found, bindTokens_none (same.trans found)]
  | some reported => rw [bindTokens_some found, bindTokens_some (same.trans found)]

theorem bindTokens_finds {scanner next : BindScanner} {token : BindToken} (turn : scanner.turn = .finds token next) :
    bindTokens scanner = token :: bindTokens next := by
  apply bindTokens_some
  rw [bindScannerNext]
  split
  next stops => rw [turn] at stops; cases stops
  next continues => rw [turn] at continues; cases continues
  next finds => rw [turn] at finds; cases finds; rfl

/-- `sqlparser_bind_token_exact` -/
def bindTokenExact (dialect : Dialect) (sql : Text) (length start stop : Nat) : Option BindToken :=
  if start ≥ stop then none
  else if stop > length ∨ byteAt sql length ≠ 0 then none
  else
    match bindScannerNext ⟨dialect, sql, length, start, 0, 0, 0, 0, false⟩ with
    | some (token, _) => if token.start ≠ start ∨ token.stop ≠ stop then none else some token
    | none => none

end SqlParser.Core
