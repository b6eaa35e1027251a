import SqlParser.Core.PublicItems
import SqlParser.Sqlserver.Scanner

/-! # The SQL Server scanner and the public lexer

The two lexers decide by themselves where a quoted item and a comment end.  Along the
run of the scanner the public lexer opens the same items, so the two agree on what is
code exactly when they agree on where every item ends.
-/

namespace SqlParser.Sqlserver

open SqlParser.Core
open SqlParser.Library.ItemReader

/-! ## The public lexer in SQL Server texts -/

section dialect

variable {dialect : Dialect} {sql tail : Text} {byte : UInt8} {index : Nat}

theorem publicSkip_sqlserver (compatible : dialect.isSqlserverCompatible) (located : sql.drop index = byte :: tail) :
    publicSkipQuotedOrComment dialect sql index =
      if byte = Byte.dash then
        if byteAt tail 0 = Byte.dash then offsetOf sql (behindLine (tail.drop 1)) else index
      else if byte = Byte.slash then
        if byteAt tail 0 = Byte.star then offsetOf sql (behindBlockComment true 1 (tail.drop 1)) else index
      else if byte = Byte.openBracket then offsetOf sql (behindBracket tail)
      else if byte = Byte.quote then offsetOf sql (behindQuoted byte (escapePrefixed sql index) tail)
      else if byte = Byte.doubleQuote then offsetOf sql (behindQuoted byte false tail)
      else index := by
  have first : byteAt sql index = byte := by rw [byteAt_eq_head, located]; rfl
  have behind : sql.drop (index + 1) = tail := by rw [← List.drop_drop, located]; rfl
  have second : byteAt sql (index + 1) = byteAt tail 0 := by rw [← behind, byteAt_drop]
  have behindTwo : sql.drop (index + 2) = tail.drop 1 := by rw [← behind, List.drop_drop]
  have noDollar : (dialect.usesPostgresqlPlaceholders || dialect.isOracleCompatible) = false := by
    cases dialect <;> first | rfl | cases compatible
  have noQQuote : publicSkipOracleQQuote dialect sql index = index := by
    cases dialect <;> first | rfl | cases compatible
  have notMysql : dialect.isMysqlCompatible = false := by
    cases dialect <;> first | rfl | cases compatible
  have nested : publicNestedComments dialect = true := by
    cases dialect <;> first | rfl | cases compatible
  have escapes : publicBackslashEscapes dialect sql index byte = (byte = Byte.quote && escapePrefixed sql index) := by
    simp [publicBackslashEscapes, escapePrefixed, notMysql, Bool.and_assoc]
  simp only [publicSkipQuotedOrComment, first, second, behind, behindTwo, noDollar, noQQuote, notMysql, nested,
    compatible, escapes]
  -- a byte that opens nothing in SQL Server is none of the bytes that are tested behind it
  by_cases dollar : byte = Byte.dollar
  · subst dollar
    rfl
  by_cases letter : byte = 113 ∨ byte = 81 ∨ byte = 110 ∨ byte = 78
  · obtain rfl | rfl | rfl | rfl := letter <;> rfl
  by_cases hash : byte = Byte.hash
  · subst hash
    rfl
  rw [if_neg dollar, if_neg letter]
  by_cases dash : byte = Byte.dash
  · subst dash
    simp
  rw [if_neg dash, if_neg hash, if_neg dash]
  by_cases slash : byte = Byte.slash
  · rw [if_pos slash, if_pos slash]
    simp
  rw [if_neg slash, if_neg slash]
  by_cases bracket : byte = Byte.openBracket
  · rw [if_pos bracket, if_pos bracket]
    simp
  rw [if_neg bracket, if_neg bracket]
  by_cases quote : byte = Byte.quote <;> simp [quote]

/-- A byte with which neither a quoted item nor a comment begins opens nothing. -/
theorem publicSkip_code (compatible : dialect.isSqlserverCompatible) (located : sql.drop index = byte :: tail)
    (code : opensNonCode (byte :: tail) = false) : publicSkipQuotedOrComment dialect sql index = index := by
  simp only [opensNonCode, Bool.or_eq_false_iff, Bool.and_eq_false_iff, decide_eq_false_iff_not] at code
  obtain ⟨⟨⟨⟨noBracket, noQuote⟩, noDoubleQuote⟩, noLine⟩, noBlock⟩ := code
  rw [publicSkip_sqlserver compatible located]
  split_ifs <;> first | rfl | grind

end dialect

/-! ## Where items end -/

/-- The two loops over a quoted item without escapes. -/
theorem behindCloser_public {closer : UInt8} (plain : closer ≠ Byte.backslash) (rest : Text) :
    behindQuoted closer false rest = (behindCloser closer rest).getD [] := by
  fun_induction behindCloser closer rest with
  | case1 => exact behindQuoted_nil _ _
  | case2 => exact behindQuoted_last _ _ _
  | case3 => exact behindQuoted_last _ _ _
  | case4 rest inductionHypothesis =>
    rw [behindQuoted_quote plain, if_pos rfl]
    exact inductionHypothesis
  | case5 next rest single =>
    rw [behindQuoted_quote plain, if_neg single]
    rfl
  | case6 byte next rest other inductionHypothesis =>
    rw [behindQuoted_pass (by simp [stopsQuoted, other])]
    exact inductionHypothesis

/-- The two loops over a block comment. -/
theorem behindNestedComment_public (depth : Nat) (rest : Text) :
    behindBlockComment true depth rest = (behindNestedComment depth rest).getD [] := by
  fun_induction behindNestedComment depth rest with
  | case1 depth =>
    rw [behindBlockComment_jump]
    rfl
  | case2 depth byte => exact behindBlockComment_last _ _ _
  | case3 depth byte next rest opens inductionHypothesis =>
    obtain ⟨rfl, rfl⟩ := opens
    rw [behindBlockComment_jump, untilStop_here (by simp [stopsBlockComment]), blockCommentAt,
      if_pos ⟨rfl, rfl, rfl⟩]
    exact inductionHypothesis
  | case4 depth byte next rest opens closes last =>
    obtain ⟨rfl, rfl⟩ := closes
    rw [behindBlockComment_jump, untilStop_here (by simp [stopsBlockComment]), blockCommentAt,
      if_neg (fun opened => opens opened.2), if_pos ⟨rfl, rfl⟩, if_pos last]
    rfl
  | case5 depth byte next rest opens closes inner inductionHypothesis =>
    obtain ⟨rfl, rfl⟩ := closes
    rw [behindBlockComment_jump, untilStop_here (by simp [stopsBlockComment]), blockCommentAt,
      if_neg (fun opened => opens opened.2), if_pos ⟨rfl, rfl⟩, if_neg inner]
    exact inductionHypothesis
  | case6 depth byte next rest opens closes inductionHypothesis =>
    rw [← inductionHypothesis]
    by_cases stops : stopsBlockComment true byte
    · rw [behindBlockComment_jump, untilStop_here stops, blockCommentAt, if_neg (fun opened => opens opened.2),
        if_neg closes]
    · exact behindBlockComment_pass depth (Bool.eq_false_of_not_eq_true stops) _

theorem closedScan_behind (found : Option Text) (message : String) :
    (closedScan found message).behind = found.getD [] := by
  cases found <;> rfl

/-! ## Line comments -/

/-- Whether a line comment goes to the end of the text, with a carriage return as its last byte at most.  Entered behind
the dashes. -/
def lineInStep (rest : Text) : Bool :=
  let ends := rest.dropWhile fun byte => byte ≠ Byte.carriageReturn && byte ≠ Byte.lineFeed
  ends = [] || ends = [Byte.carriageReturn]

/-- The scanner takes the line end with the comment, the public lexer stops before a line feed and nowhere else. -/
theorem lineEnds_iff (rest : Text) : behindLine rest = behindLineEnd rest ↔ lineInStep rest := by
  have noCarriage : Byte.lineFeed ≠ Byte.carriageReturn := by decide
  induction rest with
  | nil => simp [behindLine, untilStop, behindLineEnd, lineInStep]
  | cons byte rest inductionHypothesis =>
    by_cases feed : byte = Byte.lineFeed
    · subst feed
      -- the byte itself: the public lexer stands before it, the scanner behind it
      have line : behindLine (Byte.lineFeed :: rest) = Byte.lineFeed :: rest := by simp [behindLine, untilStop]
      have scanned : behindLineEnd (Byte.lineFeed :: rest) = rest := by simp [behindLineEnd, noCarriage]
      have step : lineInStep (Byte.lineFeed :: rest) = false := by simp [lineInStep, noCarriage]
      rw [line, scanned, step]
      exact iff_of_false (fun same => by simpa using congrArg List.length same) (by decide)
    by_cases carriage : byte = Byte.carriageReturn
    · subst carriage
      -- the comment of the scanner ends here, that of the public lexer at the next line feed
      have step : lineInStep (Byte.carriageReturn :: rest) ↔ rest = [] := by simp [lineInStep]
      have line : behindLine (Byte.carriageReturn :: rest) = behindLine rest := untilStop_pass (by decide) rest
      have scanned : behindLineEnd (Byte.carriageReturn :: rest) =
          if rest.head? = some Byte.lineFeed then rest.drop 1 else rest := by
        simp [behindLineEnd]
      rw [step, line, scanned]
      cases rest with
      | nil => simp [behindLine, untilStop]
      | cons next tail =>
        by_cases ends : next = Byte.lineFeed
        · subst ends
          simp [behindLine, untilStop]
        · have longer : (behindLine (next :: tail)).length ≤ tail.length := by
            rw [show behindLine (next :: tail) = behindLine tail from untilStop_pass (by simp [ends]) tail]
            exact untilStop_length _ _
          simp only [List.head?_cons, Option.some_inj, ends, if_false, reduceCtorEq, iff_false]
          intro same
          simp [same] at longer
    · have passes : behindLineEnd (byte :: rest) = behindLineEnd rest := by
        simp [behindLineEnd, feed, carriage]
      have line : behindLine (byte :: rest) = behindLine rest := untilStop_pass (by simp [feed]) rest
      have step : lineInStep (byte :: rest) = lineInStep rest := by
        simp [lineInStep, feed, carriage]
      rw [passes, line, step]
      exact inductionHypothesis

/-! ## Agreement item by item -/

/-- A line comment goes to the end of the text, with a carriage return as its last byte at most, and in a string literal
behind the word `E` no backslash escapes a quote, unless the text ends with it. -/
def itemInStep (sql : Text) (item : Item) : Bool :=
  let body := sql.drop (item.start + 1)
  if byteAt sql item.start = Byte.dash then lineInStep (body.drop 1)
  else if byteAt sql item.start = Byte.quote ∧ escapePrefixed sql item.start then escapesInStep Byte.quote body
  else true

/-- What the scanner passes at an offset as an item. -/
def Passes (sql : Text) (start next : Nat) : Prop :=
  opensNonCode (sql.drop start) ∧ next = offsetOf sql (scanNonCodeSpan (sql.drop start)).behind

section item

variable {dialect : Dialect} {sql tail : Text} {current : UInt8} {start next : Nat}

theorem opensNonCode_cons (opens : opensNonCode (current :: tail)) :
    (current = Byte.dash ∧ byteAt tail 0 = Byte.dash) ∨ (current = Byte.slash ∧ byteAt tail 0 = Byte.star) ∨
      current = Byte.openBracket ∨ current = Byte.quote ∨ current = Byte.doubleQuote := by
  simp only [opensNonCode, Bool.or_eq_true, Bool.and_eq_true, decide_eq_true_eq] at opens
  rcases opens with (((bracket | quote) | doubleQuote) | line) | block
  · exact .inr (.inr (.inl bracket))
  · exact .inr (.inr (.inr (.inl quote)))
  · exact .inr (.inr (.inr (.inr doubleQuote)))
  · exact .inl line
  · exact .inr (.inl block)

/-- The scanner ends an item like the public lexer without escapes, up to the line end. -/
theorem scanNonCodeSpan_behind (opens : opensNonCode (current :: tail)) :
    (scanNonCodeSpan (current :: tail)).behind =
      if current = Byte.dash then behindLineEnd (tail.drop 1)
      else if current = Byte.slash then behindBlockComment true 1 (tail.drop 1)
      else if current = Byte.openBracket then behindBracket tail
      else behindQuoted current false tail := by
  rw [behindNestedComment_public, behindBracket_quoted, behindCloser_public (by decide)]
  obtain ⟨rfl, second⟩ | ⟨rfl, second⟩ | rfl | rfl | rfl := opensNonCode_cons opens
  · rw [if_pos rfl, scanNonCodeSpan, if_neg (by decide), if_neg (by decide), if_pos ⟨rfl, second⟩]
  · rw [if_neg (by decide), if_pos rfl, scanNonCodeSpan, if_neg (by decide), if_neg (by decide),
      if_neg (fun dashes => absurd dashes.1 (by decide)),
      if_pos ⟨rfl, second⟩]
    exact closedScan_behind _ _
  · exact closedScan_behind _ _
  · exact (closedScan_behind _ _).trans (behindCloser_public (by decide) tail).symm
  · exact (closedScan_behind _ _).trans (behindCloser_public (by decide) tail).symm

theorem publicSkip_opens (compatible : dialect.isSqlserverCompatible) (located : sql.drop start = current :: tail)
    (opens : opensNonCode (current :: tail)) :
    publicSkipQuotedOrComment dialect sql start = offsetOf sql
      (if current = Byte.dash then behindLine (tail.drop 1)
      else if current = Byte.slash then behindBlockComment true 1 (tail.drop 1)
      else if current = Byte.openBracket then behindBracket tail
      else behindQuoted current (current = Byte.quote && escapePrefixed sql start) tail) := by
  rw [publicSkip_sqlserver compatible located]
  obtain ⟨rfl, second⟩ | ⟨rfl, second⟩ | rfl | rfl | rfl := opensNonCode_cons opens
  · rw [if_pos rfl, if_pos rfl, if_pos second]
  · rw [if_neg (by decide), if_pos rfl, if_pos second, if_neg (by decide), if_pos rfl]
  · rfl
  · rfl
  · rfl

/-- The public lexer ends an item where the scanner does exactly when the item is in step. -/
theorem itemEnds_iff (compatible : dialect.isSqlserverCompatible) (passes : Passes sql start next) :
    publicSkipQuotedOrComment dialect sql start = next ↔ itemInStep sql ⟨start, next⟩ := by
  obtain ⟨opens, rfl⟩ := passes
  cases located : sql.drop start with
  | nil =>
    rw [located] at opens
    cases opens
  | cons current tail =>
    rw [located] at opens
    have first : byteAt sql start = current := by rw [byteAt_eq_head, located]; rfl
    have body : sql.drop (start + 1) = tail := by rw [← List.drop_drop, located]; rfl
    have inText : tail <:+ sql := by
      rw [← body]
      exact List.drop_suffix _ _
    have behindInText : tail.drop 1 <:+ sql := (List.drop_suffix 1 tail).trans inText
    have quotedInText (escapes : Bool) : behindQuoted current escapes tail <:+ sql :=
      (behindQuoted_suffix _ _ _).trans inText
    simp only [itemInStep, publicSkip_opens compatible located opens, scanNonCodeSpan_behind opens, first, body]
    by_cases dash : current = Byte.dash
    · have lineSuffix : behindLine (tail.drop 1) <:+ sql := (untilStop_suffix _ _).trans behindInText
      have endSuffix := (behindLineEnd_suffix (tail.drop 1)).trans behindInText
      simp only [dash, if_true]
      rw [← lineEnds_iff, offsetOf_inj lineSuffix endSuffix]
    · simp only [dash, if_false]
      by_cases slash : current = Byte.slash
      · simp [slash, Byte.slash, Byte.quote]
      by_cases bracket : current = Byte.openBracket
      · simp [bracket, Byte.openBracket, Byte.slash, Byte.quote]
      rw [if_neg slash, if_neg slash, if_neg bracket, if_neg bracket, offsetOf_inj (quotedInText _) (quotedInText _)]
      by_cases escapes : current = Byte.quote ∧ escapePrefixed sql start
      · obtain ⟨rfl, prefixed⟩ := escapes
        rw [if_pos ⟨rfl, prefixed⟩, ← behindQuoted_escapes_iff (by decide), prefixed]
        rfl
      · rw [if_neg escapes]
        have plain : (decide (current = Byte.quote) && escapePrefixed sql start) = false := by simpa using escapes
        rw [plain]
        simp

theorem scanNonCodeSpan_failure (opens : opensNonCode (current :: tail))
    (failed : (scanNonCodeSpan (current :: tail)).failure.isSome) : (scanNonCodeSpan (current :: tail)).behind = [] := by
  have closed (found : Option Text) (message : String) (failed : (closedScan found message).failure.isSome) :
      (closedScan found message).behind = [] := by
    cases found with
    | none => rfl
    | some rest => cases failed
  obtain ⟨rfl, second⟩ | ⟨rfl, second⟩ | rfl | rfl | rfl := opensNonCode_cons opens
  · rw [scanNonCodeSpan, if_neg (by decide), if_neg (by decide), if_pos ⟨rfl, second⟩] at failed
    cases failed
  · rw [scanNonCodeSpan, if_neg (by decide), if_neg (by decide),
      if_neg (fun dashes => absurd dashes.1 (by decide)), if_pos ⟨rfl, second⟩] at failed ⊢
    exact closed _ _ failed
  · exact closed _ _ failed
  · exact closed _ _ failed
  · exact closed _ _ failed

end item

/-! ## What a call passes -/

/-- A byte that opens nothing for the public lexer. -/
def Plain (dialect : Dialect) (sql : Text) (index : Nat) : Prop :=
  publicSkipQuotedOrComment dialect sql index = index

section passage

variable {dialect : Dialect} {sql rest tail : Text} {current : UInt8} {start stop : Nat}

theorem plain_of_code (compatible : dialect.isSqlserverCompatible) (suffix : current :: tail <:+ sql)
    (code : opensNonCode (current :: tail) = false) : Plain dialect sql (offsetOf sql (current :: tail)) :=
  publicSkip_code compatible (drop_offsetOf suffix) code

/-- A run of bytes that open nothing. -/
theorem passage_run {accepts : UInt8 → Bool} (compatible : dialect.isSqlserverCompatible)
    (code : ∀ byte tail, accepts byte → opensNonCode (byte :: tail) = false) (suffix : rest <:+ sql) :
    Passage (Plain dialect sql) (Passes sql) (offsetOf sql rest) [] (offsetOf sql (rest.dropWhile accepts)) := by
  induction rest with
  | nil => exact .done _
  | cons byte rest inductionHypothesis =>
    rw [List.dropWhile_cons]
    split
    next accepted =>
      apply Passage.plain (plain_of_code compatible suffix (code byte rest accepted))
      rw [← offsetOf_cons suffix]
      exact inductionHypothesis ((List.suffix_cons byte rest).trans suffix)
    next => exact .done _

theorem passage_item (suffix : current :: tail <:+ sql) (opens : opensNonCode (current :: tail)) {passed : List Item}
    (later : Passage (Plain dialect sql) (Passes sql) (offsetOf sql (scanNonCodeSpan (current :: tail)).behind)
      passed stop) :
    Passage (Plain dialect sql) (Passes sql) (offsetOf sql (current :: tail))
      (⟨offsetOf sql (current :: tail), offsetOf sql (scanNonCodeSpan (current :: tail)).behind⟩ :: passed) stop := by
  have behind := (scanNonCodeSpan_suffix opens).length_le
  have whole := suffix.length_le
  rw [List.length_cons] at whole
  apply Passage.item ?_ ?_ later
  · rw [offsetOf, offsetOf, List.length_cons]
    omega
  · rw [Passes, drop_offsetOf suffix]
    exact ⟨opens, rfl⟩

/-- A class without the opening bytes is code. -/
theorem class_code {accepts : UInt8 → Bool} (dash : accepts Byte.dash = false) (slash : accepts Byte.slash = false)
    (bracket : accepts Byte.openBracket = false) (quote : accepts Byte.quote = false)
    (doubleQuote : accepts Byte.doubleQuote = false) (byte : UInt8) (tail : Text) (accepted : accepts byte) :
    opensNonCode (byte :: tail) = false := by
  rw [← Bool.not_eq_true]
  intro opens
  obtain ⟨rfl, -⟩ | ⟨rfl, -⟩ | rfl | rfl | rfl := opensNonCode_cons opens <;> simp_all

theorem isSpace_code (byte : UInt8) (tail : Text) (blank : isSpace byte) : opensNonCode (byte :: tail) = false :=
  class_code (by decide) (by decide) (by decide) (by decide) (by decide) byte tail blank

theorem isIdentChar_code (byte : UInt8) (tail : Text) (letter : isIdentChar byte) :
    opensNonCode (byte :: tail) = false :=
  class_code (by decide) (by decide) (by decide) (by decide) (by decide) byte tail letter

theorem tokenWordStart_code (byte : UInt8) (tail : Text) (letter : tokenWordStart byte) :
    opensNonCode (byte :: tail) = false :=
  class_code (by decide) (by decide) (by decide) (by decide) (by decide) byte tail letter

/-- The blanks and comments before a token. -/
theorem passTrivia_passage (compatible : dialect.isSqlserverCompatible) (suffix : rest <:+ sql) :
    Passage (Plain dialect sql) (Passes sql) (offsetOf sql rest) (passTrivia sql rest).passed
        (offsetOf sql (passTrivia sql rest).rest) ∧
      (passTrivia sql rest).rest <:+ rest ∧
      ((passTrivia sql rest).failure.isSome → (passTrivia sql rest).rest = []) ∧
      ((passTrivia sql rest).failure = none → opensComment (passTrivia sql rest).rest = false) := by
  have blanks := passage_run compatible isSpace_code suffix
  have blanksSuffix := List.dropWhile_suffix (l := rest) isSpace
  fun_induction passTrivia sql rest with
  | case1 rest atEnd =>
    rw [atEnd] at blanks
    exact ⟨blanks, List.nil_suffix, nofun, fun _ => rfl⟩
  | case2 rest current tail atComment opens scan item message failed =>
    rw [atComment] at blanks blanksSuffix
    have opens := opensNonCode_of_comment opens
    have inText := blanksSuffix.trans suffix
    have atEnd : scan.behind = [] := scanNonCodeSpan_failure opens (by rw [failed]; rfl)
    refine ⟨blanks.append (passage_item inText opens (.done _)), ?_, fun _ => atEnd, nofun⟩
    rw [atEnd]
    exact List.nil_suffix
  | case3 rest current tail atComment opens scan item passed later inductionHypothesis =>
    rw [atComment] at blanks blanksSuffix
    have opens := opensNonCode_of_comment opens
    have inText := blanksSuffix.trans suffix
    have behind : scan.behind <:+ current :: tail := (scanNonCodeSpan_suffix opens).trans (List.suffix_cons current tail)
    have behindBlanks := passage_run compatible isSpace_code (behind.trans inText)
    obtain ⟨passage, restSuffix, atEnd, code⟩ :=
      inductionHypothesis (behind.trans inText) behindBlanks (List.dropWhile_suffix _)
    exact ⟨blanks.append (passage_item inText opens passage), restSuffix.trans (behind.trans blanksSuffix), atEnd, code⟩
  | case4 rest current tail atComment closed =>
    rw [atComment] at blanks blanksSuffix
    exact ⟨blanks, blanksSuffix, nofun, fun _ => Bool.eq_false_of_not_eq_true closed⟩

end passage

/-! ## Calls and runs -/

/-- The two failures that leave text unread: the scanner meets a closing word or parenthesis too many. -/
def Failure.unmatched (failure : Failure) : Bool :=
  failure.error.message = "unmatched SQL Server END" ||
    failure.error.message = "unmatched SQL Server closing parenthesis"

/-- What holds of a call from an offset: it passes what the public lexer opens, and where it returns no
further token it has read the text. -/
structure Turn.Sound (dialect : Dialect) (sql : Text) (start : Nat) (turn : Turn) : Prop where
  passage : Passage (Plain dialect sql) (Passes sql) start turn.passed turn.reach
  inside : turn.reach ≤ sql.length
  running : ∀ token, turn.result = .ok token → token.kind ≠ .eof →
    turn.next.sql = sql ∧ turn.next.status = none ∧ turn.next.done = false ∧
      turn.next.pos = turn.reach ∧ start < turn.reach
  finished : ∀ token, turn.result = .ok token → token.kind = .eof → turn.reach = sql.length
  failed : ∀ failure, turn.result = .error failure → turn.reach = sql.length ∨ failure.unmatched

/-- A scanner that can go on, with the rest of its text. -/
structure Scanner.Ready (scanner : Scanner) (rest : Text) : Prop where
  suffix : rest <:+ scanner.sql
  pos : scanner.pos = offsetOf scanner.sql rest
  status : scanner.status = none
  running : scanner.done = false

section turns

variable {dialect : Dialect} {scanner : Scanner} {current : UInt8} {tail : Text}

theorem offsetOf_le (sql rest : Text) : offsetOf sql rest ≤ sql.length :=
  Nat.sub_le _ _

/-- A turn that finds a token without items in between. -/
theorem sound_token {start : Nat} {token : Token} {next : Scanner} {stop : Nat}
    (passage : Passage (Plain dialect scanner.sql) (Passes scanner.sql) start [] stop)
    (inside : stop ≤ scanner.sql.length) (forward : start < stop) (sql : next.sql = scanner.sql)
    (status : next.status = none) (running : next.done = false) (pos : next.pos = stop) (kind : token.kind ≠ .eof) :
    Turn.Sound dialect scanner.sql start ⟨.ok token, next, [], stop⟩ where
  passage := passage
  inside := inside
  running := fun _ _ _ => ⟨sql, status, running, pos, forward⟩
  finished := fun _ same isEof => by
    cases same
    exact absurd isEof kind
  failed := nofun

theorem sound_quoted (ready : scanner.Ready (current :: tail)) {quoted : Text} (kind : TokenKind)
    (isToken : kind ≠ .eof) (suffix : quoted <:+ current :: tail) (opens : opensNonCode quoted)
    (before : Passage (Plain dialect scanner.sql) (Passes scanner.sql) scanner.pos [] (offsetOf scanner.sql quoted)) :
    Turn.Sound dialect scanner.sql scanner.pos (scanner.quotedToken kind quoted) := by
  cases quoted with
  | nil => cases opens
  | cons quote body =>
    have inText := suffix.trans ready.suffix
    have passage := before.append (passage_item inText opens (.done _))
    have forward := (scanNonCodeSpan_suffix opens).length_le
    have whole := inText.length_le
    have order := before.le
    rw [List.length_cons] at whole
    simp only [Scanner.quotedToken]
    split
    next message failed =>
      have atEnd := scanNonCodeSpan_failure opens (by rw [failed]; rfl)
      exact
        { passage := passage
          inside := offsetOf_le _ _
          running := fun _ same => by cases same
          finished := fun _ same => by cases same
          failed := fun _ _ => .inl (by rw [atEnd]; rfl) }
    next closed =>
      exact
        { passage := passage
          inside := offsetOf_le _ _
          running := fun _ _ _ => by
            refine ⟨rfl, ready.status, ready.running, rfl, order.trans_lt ?_⟩
            simp only [offsetOf, List.length_cons]
            omega
          finished := fun _ same isEof => by
            cases same
            exact absurd isEof isToken
          failed := fun _ same => by cases same }

theorem sound_failure {start stop : Nat} {failure : Failure} {next : Scanner}
    (passage : Passage (Plain dialect scanner.sql) (Passes scanner.sql) start [] stop)
    (inside : stop ≤ scanner.sql.length) (unmatched : failure.unmatched) :
    Turn.Sound dialect scanner.sql start ⟨.error failure, next, [], stop⟩ where
  passage := passage
  inside := inside
  running := nofun
  finished := nofun
  failed := fun _ same => by
    cases same
    exact .inr unmatched

theorem wordToken_sound (compatible : dialect.isSqlserverCompatible) (ready : scanner.Ready (current :: tail))
    (starts : tokenWordStart current) :
    Turn.Sound dialect scanner.sql scanner.pos (scanner.wordToken current tail) := by
  have tailSuffix : tail <:+ scanner.sql := (List.suffix_cons current tail).trans ready.suffix
  have behindSuffix : tail.dropWhile isIdentChar <:+ scanner.sql := (List.dropWhile_suffix _).trans tailSuffix
  have passage : Passage (Plain dialect scanner.sql) (Passes scanner.sql) scanner.pos []
      (offsetOf scanner.sql (tail.dropWhile isIdentChar)) := by
    rw [ready.pos]
    apply Passage.plain (plain_of_code compatible ready.suffix (tokenWordStart_code current tail starts))
    rw [← offsetOf_cons ready.suffix]
    exact passage_run compatible isIdentChar_code tailSuffix
  have inside := offsetOf_le scanner.sql (tail.dropWhile isIdentChar)
  have forward : scanner.pos < offsetOf scanner.sql (tail.dropWhile isIdentChar) := by
    have shorter := (List.dropWhile_suffix (l := tail) isIdentChar).length_le
    have whole := ready.suffix.length_le
    rw [List.length_cons] at whole
    rw [ready.pos, offsetOf, offsetOf, List.length_cons]
    omega
  have finds (next : Scanner) (sql : next.sql = scanner.sql) (status : next.status = scanner.status)
      (running : next.done = scanner.done) (pos : next.pos = offsetOf scanner.sql (tail.dropWhile isIdentChar)) :
      Turn.Sound dialect scanner.sql scanner.pos
        ⟨.ok (scanner.token .word (offsetOf scanner.sql (tail.dropWhile isIdentChar))), next, [],
          offsetOf scanner.sql (tail.dropWhile isIdentChar)⟩ :=
    sound_token passage inside forward sql (status.trans ready.status) (running.trans ready.running) pos
      (fun same => by cases same)
  simp only [Scanner.wordToken]
  have unmatched : (errorAt scanner.sql scanner.pos "unmatched SQL Server END").unmatched := by
    simp [Failure.unmatched, errorAt]
  split_ifs <;> first | exact finds _ rfl rfl rfl rfl | exact sound_failure passage inside unmatched

theorem symbolToken_sound (compatible : dialect.isSqlserverCompatible) (ready : scanner.Ready (current :: tail))
    (code : opensNonCode (current :: tail) = false) :
    Turn.Sound dialect scanner.sql scanner.pos (scanner.symbolToken current) := by
  have passage : Passage (Plain dialect scanner.sql) (Passes scanner.sql) scanner.pos [] (scanner.pos + 1) := by
    apply Passage.plain ?_ (.done _)
    rw [ready.pos]
    exact plain_of_code compatible ready.suffix code
  have inside : scanner.pos + 1 ≤ scanner.sql.length := by
    rw [ready.pos, ← offsetOf_cons ready.suffix]
    exact offsetOf_le _ _
  have finds (next : Scanner) (sql : next.sql = scanner.sql) (status : next.status = scanner.status)
      (running : next.done = scanner.done) (pos : next.pos = scanner.pos + 1) :
      Turn.Sound dialect scanner.sql scanner.pos
        ⟨.ok { scanner.token .symbol (scanner.pos + 1) with symbol := current }, next, [], scanner.pos + 1⟩ :=
    sound_token passage inside (Nat.lt_succ_self _) sql (status.trans ready.status) (running.trans ready.running) pos
      nofun
  simp only [Scanner.symbolToken]
  have unmatched : (errorAt scanner.sql scanner.pos "unmatched SQL Server closing parenthesis").unmatched := by
    simp [Failure.unmatched, errorAt]
  split_ifs <;> first | exact finds _ rfl rfl rfl rfl | exact sound_failure passage inside unmatched

/-- A byte that begins neither a comment nor a quoted item is code. -/
theorem symbol_code (noComment : opensComment (current :: tail) = false) (quote : current ≠ Byte.quote)
    (quoted : ¬ (current = Byte.doubleQuote ∨ current = Byte.openBracket)) : opensNonCode (current :: tail) = false := by
  rw [← Bool.not_eq_true]
  intro opens
  have comment : ¬ (opensComment (current :: tail) = true) := by simp [noComment]
  obtain ⟨rfl, second⟩ | ⟨rfl, second⟩ | rfl | rfl | rfl := opensNonCode_cons opens
  · exact comment (by simp [opensComment, byteAt_cons_succ, second]; exact .inl rfl)
  · exact comment (by simp [opensComment, byteAt_cons_succ, second]; exact .inr rfl)
  · exact quoted (.inr rfl)
  · exact quote rfl
  · exact quoted (.inl rfl)

/-- A letter before the quote of a national literal is code. -/
theorem national_code (letter : current = 78 ∨ current = 110) : opensNonCode (current :: tail) = false := by
  rw [← Bool.not_eq_true]
  intro opens
  obtain ⟨rfl, -⟩ | ⟨rfl, -⟩ | rfl | rfl | rfl := opensNonCode_cons opens <;> exact absurd letter (by decide)

theorem tokenTurn_sound (compatible : dialect.isSqlserverCompatible) (ready : scanner.Ready (current :: tail))
    (noComment : opensComment (current :: tail) = false) :
    Turn.Sound dialect scanner.sql scanner.pos (scanner.tokenTurn current tail) := by
  have atStart : Passage (Plain dialect scanner.sql) (Passes scanner.sql) scanner.pos []
      (offsetOf scanner.sql (current :: tail)) := by
    rw [ready.pos]
    exact .done _
  simp only [Scanner.tokenTurn]
  split_ifs with national quote quoted word
  · -- the prefix of a national literal is code for the public lexer
    obtain ⟨letter, quote⟩ := national
    have tailOpens : opensNonCode tail := by
      cases tail with
      | nil => cases quote
      | cons first body =>
        have first : first = Byte.quote := quote
        simp [opensNonCode, first]
    apply sound_quoted ready .string (fun same => by cases same) (List.suffix_cons current tail) tailOpens
    rw [ready.pos, offsetOf_cons ready.suffix]
    exact .plain (plain_of_code compatible ready.suffix (national_code letter)) (.done _)
  · exact sound_quoted ready .string (fun same => by cases same) List.suffix_rfl (by simp [opensNonCode, quote]) atStart
  · apply sound_quoted ready .quotedIdentifier (fun same => by cases same) List.suffix_rfl ?_ atStart
    obtain rfl | rfl := quoted <;> simp [opensNonCode]
  · exact wordToken_sound compatible ready word
  · exact symbolToken_sound compatible ready (symbol_code noComment quote quoted)

/-- A turn behind blanks and comments. -/
theorem Turn.Sound.after {sql : Text} {start middle : Nat} {passed : List Item} {turn : Turn}
    (trivia : Passage (Plain dialect sql) (Passes sql) start passed middle) (sound : Turn.Sound dialect sql middle turn) :
    Turn.Sound dialect sql start { turn with passed := passed ++ turn.passed } where
  passage := trivia.append sound.passage
  inside := sound.inside
  running := fun token found kind => by
    obtain ⟨same, status, running, pos, forward⟩ := sound.running token found kind
    exact ⟨same, status, running, pos, trivia.le.trans_lt forward⟩
  finished := sound.finished
  failed := sound.failed

theorem finish_sound {start : Nat} {passed : List Item}
    (passage : Passage (Plain dialect scanner.sql) (Passes scanner.sql) start passed scanner.sql.length) :
    Turn.Sound dialect scanner.sql start (scanner.finish passed) := by
  have fails (failure : Failure) : Turn.Sound dialect scanner.sql start
      (scanner.fail failure passed scanner.sql.length) :=
    { passage := passage, inside := le_rfl, running := nofun, finished := nofun, failed := fun _ _ => .inl rfl }
  simp only [Scanner.finish]
  split_ifs
  · exact fails _
  · exact fails _
  · exact fails _
  · exact
      { passage := passage
        inside := le_rfl
        running := fun _ same other => by
          cases same
          exact absurd rfl other
        finished := fun _ _ _ => rfl
        failed := nofun }

theorem turn_sound (compatible : dialect.isSqlserverCompatible) {rest : Text} (ready : scanner.Ready rest) :
    Turn.Sound dialect scanner.sql scanner.pos scanner.turn := by
  obtain ⟨sql, pos, parenDepth, blockDepth, caseDepth, status, done⟩ := scanner
  obtain ⟨suffix, pos, status, running⟩ := ready
  dsimp only at suffix pos status running
  subst pos status running
  obtain ⟨trivia, triviaSuffix, atEnd, code⟩ := passTrivia_passage compatible suffix
  let here : Scanner := ⟨sql, offsetOf sql (passTrivia sql rest).rest, parenDepth, blockDepth, caseDepth, none, false⟩
  simp only [Scanner.turn, Bool.false_eq_true, if_false, drop_offsetOf suffix]
  split
  next failure failed =>
    have noRest := atEnd (by rw [failed]; rfl)
    exact
      { passage := trivia
        inside := offsetOf_le _ _
        running := fun _ same => by cases same
        finished := fun _ same => by cases same
        failed := fun _ _ => .inl (by rw [noRest]; rfl) }
  next closed =>
    split
    next noRest =>
      have whole : Passage (Plain dialect here.sql) (Passes here.sql) (offsetOf sql rest) (passTrivia sql rest).passed
          here.sql.length := by
        rw [noRest] at trivia
        exact trivia
      exact finish_sound whole
    next byte tail found =>
      have noComment := code closed
      rw [found] at noComment
      have ready : here.Ready (byte :: tail) := by
        rw [← found]
        exact ⟨triviaSuffix.trans suffix, rfl, rfl, rfl⟩
      have sound := tokenTurn_sound compatible ready noComment
      exact sound.after trivia

/-- Behind the text the scanner can only finish. -/
theorem turn_atEnd (noRest : scanner.sql.drop scanner.pos = []) (status : scanner.status = none)
    (running : scanner.done = false) :
    scanner.turn = { scanner with pos := offsetOf scanner.sql [] }.finish [] := by
  have noTrivia : passTrivia scanner.sql [] = ⟨[], [], none⟩ := by
    rw [passTrivia]
    rfl
  simp only [Scanner.turn, status, running, Bool.false_eq_true, if_false, noRest, noTrivia]

theorem finish_token {passed : List Item} {token : Token} (found : (scanner.finish passed).result = .ok token) :
    token.kind = .eof := by
  simp only [Scanner.finish, Scanner.fail] at found
  split_ifs at found
  cases found
  rfl

/-- A call that returns a token moves the scanner. -/
theorem turn_forward (scanner : Scanner) {token : Token} (found : scanner.turn.result = .ok token)
    (kind : token.kind ≠ .eof) :
    scanner.turn.next.sql.length - scanner.turn.next.pos < scanner.sql.length - scanner.pos := by
  cases status : scanner.status with
  | some failure =>
    simp only [Scanner.turn, status] at found
    cases found
  | none =>
    cases running : scanner.done with
    | true =>
      simp only [Scanner.turn, status, running, if_true] at found
      cases found
      exact absurd rfl kind
    | false =>
      by_cases inside : scanner.pos ≤ scanner.sql.length
      · have ready : scanner.Ready (scanner.sql.drop scanner.pos) :=
          ⟨List.drop_suffix _ _, (offsetOf_drop inside).symm, status, running⟩
        have sound := @turn_sound .sqlserver scanner rfl _ ready
        obtain ⟨same, -, -, pos, forward⟩ := sound.running token found kind
        have bound := sound.inside
        rw [same, pos]
        omega
      · rw [turn_atEnd (List.drop_eq_nil_iff.mpr (Nat.le_of_not_le inside)) status running] at found
        exact absurd (finish_token found) kind

end turns

/-- What a run of the scanner passes, how far it reads, and the failure that ends it. -/
structure Run where
  passed : List Item
  reach : Nat
  failure : Option Failure

/-- The calls of the scanner until the end of the text or a failure. -/
def Scanner.run (scanner : Scanner) : Run :=
  match _found : scanner.turn.result with
  | .error failure => ⟨scanner.turn.passed, scanner.turn.reach, some failure⟩
  | .ok token =>
    if _isEof : token.kind = .eof then ⟨scanner.turn.passed, scanner.turn.reach, none⟩
    else
      let later := scanner.turn.next.run
      { later with passed := scanner.turn.passed ++ later.passed }
termination_by scanner.sql.length - scanner.pos
decreasing_by exact turn_forward scanner _found _isEof

/-- The scanner over a whole text. -/
def scannerRun (sql : Text) : Run :=
  match scannerInit sql 0 sql.length with
  | .ok scanner => scanner.run
  | .error _ => ⟨[], 0, none⟩

section agreement

variable {dialect : Dialect} {sql : Text}

theorem run_sound (compatible : dialect.isSqlserverCompatible) (scanner : Scanner) {rest : Text}
    (ready : scanner.Ready rest) :
    Passage (Plain dialect scanner.sql) (Passes scanner.sql) scanner.pos scanner.run.passed scanner.run.reach ∧
      (scanner.run.reach = scanner.sql.length ∨
        ∃ failure, scanner.run.failure = some failure ∧ failure.unmatched) := by
  fun_induction Scanner.run scanner generalizing rest with
  | case1 scanner failure found =>
    have sound := turn_sound compatible ready
    refine ⟨sound.passage, ?_⟩
    obtain atEnd | unmatched := sound.failed failure found
    · exact .inl atEnd
    · exact .inr ⟨failure, rfl, unmatched⟩
  | case2 scanner token found isEof =>
    have sound := turn_sound compatible ready
    exact ⟨sound.passage, .inl (sound.finished token found isEof)⟩
  | case3 scanner token found other later =>
    rename_i inductionHypothesis
    have sound := turn_sound compatible ready
    obtain ⟨same, status, running, pos, -⟩ := sound.running token found other
    have inside := sound.inside
    have readyBehind : scanner.turn.next.Ready (scanner.turn.next.sql.drop scanner.turn.next.pos) := by
      refine ⟨List.drop_suffix _ _, ?_, status, running⟩
      rw [offsetOf_drop (by rw [same, pos]; exact inside)]
    obtain ⟨passage, ends⟩ := inductionHypothesis readyBehind
    rw [same, pos] at passage
    rw [same] at ends
    exact ⟨sound.passage.append passage, ends⟩

theorem publicSkip_forward (compatible : dialect.isSqlserverCompatible) {start next : Nat}
    (passes : Passes sql start next) : start < publicSkipQuotedOrComment dialect sql start := by
  obtain ⟨opens, -⟩ := passes
  cases located : sql.drop start with
  | nil =>
    rw [located] at opens
    cases opens
  | cons current tail =>
    rw [located] at opens
    have size := congrArg List.length located
    rw [List.length_drop, List.length_cons] at size
    rw [publicSkip_opens compatible located opens]
    have shorter (rest : Text) (suffix : rest <:+ tail) : start < offsetOf sql rest := by
      have := suffix.length_le
      rw [offsetOf]
      omega
    apply shorter
    split_ifs
    · exact (untilStop_suffix _ _).trans (List.drop_suffix 1 tail)
    · exact (behindBlockComment_suffix _ _ _).trans (List.drop_suffix 1 tail)
    · exact behindBracket_suffix tail
    · exact behindQuoted_suffix _ _ _

/-- The lexers find the same quoted items and comments, with the same ends, and agree on every byte the scanner reads,
exactly when every item that the scanner passes is in step. -/
theorem lexers_agree_iff (compatible : dialect.isSqlserverCompatible) (sql : Text) :
    ((scannerRun sql).reach = sql.length ∨
        ∃ failure, (scannerRun sql).failure = some failure ∧ failure.unmatched) ∧
      ((publicItems dialect sql (scannerRun sql).reach = (scannerRun sql).passed ∧
          ∀ position < (scannerRun sql).reach,
            (Outside (publicItems dialect sql (scannerRun sql).reach) position ↔
              Outside (scannerRun sql).passed position)) ↔
        ∀ item ∈ (scannerRun sql).passed, itemInStep sql item) := by
  have whole : scannerInit sql 0 sql.length = .ok { sql := sql, pos := 0 } := by
    rw [scannerInit, if_neg (Nat.not_lt_zero _), List.take_length]
  have ready : Scanner.Ready { sql := sql, pos := 0 } sql :=
    ⟨List.suffix_rfl, (Nat.sub_self _).symm, rfl, rfl⟩
  obtain ⟨passage, ends⟩ := run_sound compatible _ ready
  have same : scannerRun sql = Scanner.run { sql := sql, pos := 0 } := by rw [scannerRun, whole]
  rw [same]
  refine ⟨ends, ?_⟩
  have agree : List.Forall₂ Eq _ _ ↔ _ := passage.agree_iff (fun _ plain => plain.le)
    (fun _ _ same => congrArg Item.start same) (fun _ _ passes _ => publicSkip_forward compatible passes)
    (fun _ _ _ _ same => congrArg _ (congrArg Item.stop same))
  have steps : (∀ item ∈ (Scanner.run { sql := sql, pos := 0 }).passed,
      Item.mk item.start (publicSkipQuotedOrComment dialect sql item.start) = item) ↔
      ∀ item ∈ (Scanner.run { sql := sql, pos := 0 }).passed, itemInStep sql item := by
    refine forall₂_congr fun item listed => ?_
    rw [← itemEnds_iff compatible (passage.items_mem item listed), Item.mk.injEq]
    exact and_iff_right rfl
  rw [steps, List.forall₂_eq_eq_eq] at agree
  rw [publicItems, ← agree]
  exact ⟨And.left, fun sameItems => ⟨sameItems, fun position _ => by rw [sameItems]⟩⟩

end agreement

theorem lexers_agree_iff_national :
    publicItems .sqlserver (ascii "N'a''b' /* /* */ */ --b\r") (scannerRun (ascii "N'a''b' /* /* */ */ --b\r")).reach =
      (scannerRun (ascii "N'a''b' /* /* */ */ --b\r")).passed :=
  ((@lexers_agree_iff .sqlserver rfl (ascii "N'a''b' /* /* */ */ --b\r")).2.mpr (by decide +kernel)).1

/-- A carriage return by itself ends the comment of the scanner, and the public lexer goes on to the end; a line feed that
ends a comment belongs to it for the scanner alone. -/
theorem lexers_disagree_return :
    byteAt (ascii "--a\r?") 4 = Byte.question ∧ (scannerRun (ascii "--a\r?")).failure = none ∧
      (scannerRun (ascii "--a\r?")).reach = 5 ∧ Outside (scannerRun (ascii "--a\r?")).passed 4 ∧
      ¬ Outside (publicItems .sqlserver (ascii "--a\r?") 5) 4 ∧
      (scannerRun (ascii "--a\n")).passed = [⟨0, 4⟩] ∧ publicItems .sqlserver (ascii "--a\n") 4 = [⟨0, 3⟩] := by
  refine ⟨rfl, ?_, ?_, ?_, ?_, ?_, ?_⟩ <;> decide +kernel

end SqlParser.Sqlserver
