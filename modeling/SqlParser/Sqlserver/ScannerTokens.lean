import SqlParser.Sqlserver.ScannerPublicLexer

/-! # The tokens of a SQL Server text

What one call of the scanner does, told by the bytes that it reads as code: between
two tokens there are only blanks and comments, and a token is a single byte, a word or
a quoted item.  The helpers that read the text by themselves stop at the same bytes.
-/

namespace SqlParser.Sqlserver

open SqlParser.Core

/-! ## Code bytes -/

/-- The way from one rest of the text to a later one, with the rests at the code bytes on it. -/
inductive CodePath : Text → List Text → Text → Prop where
  | done (rest : Text) : CodePath rest [] rest
  | code {byte : UInt8} {tail last : Text} {passed : List Text} (plain : opensNonCode (byte :: tail) = false)
      (later : CodePath tail passed last) : CodePath (byte :: tail) ((byte :: tail) :: passed) last
  | span {current : UInt8} {tail last : Text} {passed : List Text} (opens : opensNonCode (current :: tail))
      (closed : (scanNonCodeSpan (current :: tail)).failure = none)
      (later : CodePath (scanNonCodeSpan (current :: tail)).behind passed last) :
      CodePath (current :: tail) passed last

/-- A quoted item or a comment that does not end begins with the text. -/
def Unclosed (rest : Text) : Prop :=
  opensNonCode rest ∧ (scanNonCodeSpan rest).failure.isSome

section paths

variable {rest middle last : Text} {before behind : List Text} {byte : UInt8}

theorem CodePath.append (front : CodePath rest before middle) (back : CodePath middle behind last) :
    CodePath rest (before ++ behind) last := by
  induction front with
  | done => exact back
  | code plain _ inductionHypothesis => exact .code plain (inductionHypothesis back)
  | span opens closed _ inductionHypothesis => exact .span opens closed (inductionHypothesis back)

theorem CodePath.suffix (path : CodePath rest before last) :
    last <:+ rest ∧ ∀ here ∈ before, here <:+ rest ∧ here.length > last.length := by
  induction path with
  | done rest => exact ⟨List.suffix_rfl, nofun⟩
  | @code byte tail last passed plain later inductionHypothesis =>
    obtain ⟨shorter, inside⟩ := inductionHypothesis
    have step : tail <:+ byte :: tail := List.suffix_cons byte tail
    refine ⟨shorter.trans step, fun here listed => ?_⟩
    cases listed with
    | head => exact ⟨List.suffix_rfl, Nat.lt_succ_of_le shorter.length_le⟩
    | tail _ listed => exact ⟨(inside here listed).1.trans step, (inside here listed).2⟩
  | @span current tail last passed opens closed later inductionHypothesis =>
    obtain ⟨shorter, inside⟩ := inductionHypothesis
    have step := (scanNonCodeSpan_suffix opens).trans (List.suffix_cons current tail)
    exact ⟨shorter.trans step, fun here listed => ⟨(inside here listed).1.trans step, (inside here listed).2⟩⟩

/-- A run of bytes of a class that opens nothing. -/
theorem codePath_run {accepts : UInt8 → Bool} (code : ∀ byte tail, accepts byte → opensNonCode (byte :: tail) = false)
    (rest : Text) :
    ∃ passed, CodePath rest passed (rest.dropWhile accepts) ∧ ∀ here ∈ passed, accepts (byteAt here 0) := by
  induction rest with
  | nil => exact ⟨[], .done [], nofun⟩
  | cons byte rest inductionHypothesis =>
    rw [List.dropWhile_cons]
    split
    next accepted =>
      obtain ⟨passed, path, inClass⟩ := inductionHypothesis
      refine ⟨(byte :: rest) :: passed, .code (code byte rest accepted) path, fun here listed => ?_⟩
      cases listed with
      | head => exact accepted
      | tail _ listed => exact inClass here listed
    next => exact ⟨[], .done _, nofun⟩

/-- The blanks and comments before a token: their code bytes are the blanks, and they end before the token or
before a comment that does not end. -/
theorem passTrivia_path (sql rest : Text) :
    ∃ passed last, CodePath rest passed last ∧ (∀ here ∈ passed, isSpace (byteAt here 0)) ∧
      ((passTrivia sql rest).failure = none → last = (passTrivia sql rest).rest) ∧
      ((passTrivia sql rest).failure.isSome → Unclosed last) := by
  obtain ⟨passed, path, blank⟩ := codePath_run isSpace_code rest
  fun_induction passTrivia sql rest generalizing passed with
  | case1 rest atEnd =>
    rw [atEnd] at path
    exact ⟨passed, [], path, blank, fun _ => rfl, fun same => by cases same⟩
  | case2 rest current tail atComment opens scan item message failed =>
    rw [atComment] at path
    exact ⟨passed, _, path, blank, (fun same => by cases same),
      fun _ => ⟨opensNonCode_of_comment opens, by rw [failed]; rfl⟩⟩
  | case3 rest current tail atComment opens scan item closed later inductionHypothesis =>
    rw [atComment] at path
    obtain ⟨blanksBehind, pathBehind, blankBehind⟩ := codePath_run isSpace_code scan.behind
    obtain ⟨passedBehind, last, laterPath, laterBlank, found, unclosed⟩ :=
      inductionHypothesis blanksBehind pathBehind blankBehind
    refine ⟨passed ++ passedBehind, last,
      path.append (.span (opensNonCode_of_comment opens) closed laterPath), fun here listed => ?_, found, unclosed⟩
    obtain listed | listed := List.mem_append.mp listed
    · exact blank here listed
    · exact laterBlank here listed
  | case4 rest current tail atComment closed =>
    rw [atComment] at path
    exact ⟨passed, _, path, blank, fun _ => rfl, fun same => by cases same⟩

end paths

/-! ## What a call finds -/

def Token.isSymbol (token : Token) (byte : UInt8) : Bool :=
  token.kind = .symbol && token.symbol = byte

/-- The code bytes of a token that begins the text: the byte of a symbol, the letters of a word, and of a
quoted item at most the prefix of a national literal. -/
inductive TokenCode (token : Token) : Text → List Text → Text → Prop where
  | symbol {byte : UInt8} {behind : Text} (kind : token.kind = .symbol) (spelled : token.symbol = byte)
      (noWord : tokenWordStart byte = false) (plain : opensNonCode (byte :: behind) = false) :
      TokenCode token (byte :: behind) [byte :: behind] behind
  | word {byte : UInt8} {tail : Text} {inside : List Text} (kind : token.kind = .word)
      (starts : tokenWordStart byte) (path : CodePath tail inside (tail.dropWhile isIdentChar))
      (letters : ∀ here ∈ inside, isIdentChar (byteAt here 0)) :
      TokenCode token (byte :: tail) ((byte :: tail) :: inside) (tail.dropWhile isIdentChar)
  | quoted {here behind : Text} {prefixes : List Text} (kind : token.kind = .string ∨ token.kind = .quotedIdentifier)
      (national : ∀ passed ∈ prefixes, (byteAt passed 0 = 78 ∨ byteAt passed 0 = 110) ∧
        behind.length + 1 < passed.length) : TokenCode token here prefixes behind

/-- A token with the blanks and comments before it. -/
inductive Spells (sql rest : Text) (token : Token) (behind : Text) : Prop where
  | intro {here : Text} {blanks own : List Text} (before : CodePath rest blanks here)
      (blank : ∀ passed ∈ blanks, isSpace (byteAt passed 0)) (start : token.start = offsetOf sql here)
      (stop : token.stop = offsetOf sql behind) (shorter : behind.length < here.length) (path : CodePath here own behind)
      (code : TokenCode token here own behind)

/-- Nothing but blanks, comments and the prefix of an unterminated literal is left. -/
def Stops (rest : Text) : Prop :=
  ∃ passed last, CodePath rest passed last ∧
    (∀ here ∈ passed, isSpace (byteAt here 0) ∨ byteAt here 0 = 78 ∨ byteAt here 0 = 110) ∧
    (last = [] ∨ Unclosed last)

/-- The call returns the token and goes on behind it. -/
structure Scanner.Finds (scanner : Scanner) (rest : Text) (token : Token) (next : Scanner) (behind : Text) : Prop where
  spelled : Spells scanner.sql rest token behind
  ready : next.Ready behind
  sql : next.sql = scanner.sql
  depth : token.parenDepth = scanner.parenDepth
  nextDepth : next.parenDepth + (token.isSymbol 41).toNat = scanner.parenDepth + (token.isSymbol 40).toNat

abbrev unmatchedEnd : String := "unmatched SQL Server END"

/-- The failure of a call that meets a closing word or parenthesis too many. -/
structure Scanner.Unmatched (scanner : Scanner) (rest : Text) (failure : Failure) (reach : Nat) (token : Token)
    (behind : Text) : Prop where
  spelled : Spells scanner.sql rest token behind
  reach : reach = token.stop
  known : failure.unmatched
  unmatched : (failure.error.message = unmatchedEnd ∧ token.kind = .word ∧
      spanWordEqual ((scanner.sql.take token.stop).drop token.start) "end") ∨
    (failure.error.message ≠ unmatchedEnd ∧ token.isSymbol 41 ∧ scanner.parenDepth = 0)

/-- What holds of a call at a rest of the text. -/
structure Turn.Spelled (scanner : Scanner) (rest : Text) (turn : Turn) : Prop where
  finds : ∀ token, turn.result = .ok token → token.kind ≠ .eof →
    ∃ behind, scanner.Finds rest token turn.next behind
  stops : ∀ token, turn.result = .ok token → token.kind = .eof → Stops rest ∧ turn.reach = scanner.sql.length
  failed : ∀ failure, turn.result = .error failure →
    Stops rest ∧ turn.reach = scanner.sql.length ∨
      ∃ token behind, scanner.Unmatched rest failure turn.reach token behind

section turns

variable {scanner : Scanner} {rest tail here : Text} {byte : UInt8} {blanks : List Text}

/-- The text of the rest up to a later rest. -/
theorem slice_offsetOf {sql front behind : Text} (suffix : front ++ behind <:+ sql) :
    (sql.take (offsetOf sql behind)).drop (offsetOf sql (front ++ behind)) = front := by
  obtain ⟨start, rfl⟩ := suffix
  have stop : offsetOf (start ++ (front ++ behind)) behind = (start ++ front).length := by
    simp [offsetOf, ← Nat.add_assoc]
  have begins : offsetOf (start ++ (front ++ behind)) (front ++ behind) = start.length := by
    simp [offsetOf]
  rw [stop, begins, ← List.append_assoc, List.take_left', List.drop_left'] <;> rfl

theorem wordToken_spelled (ready : scanner.Ready (byte :: tail)) (starts : tokenWordStart byte)
    (before : CodePath rest blanks (byte :: tail)) (blank : ∀ passed ∈ blanks, isSpace (byteAt passed 0)) :
    Turn.Spelled scanner rest (scanner.wordToken byte tail) := by
  obtain ⟨inside, path, letters⟩ := codePath_run isIdentChar_code tail
  have behindSuffix : tail.dropWhile isIdentChar <:+ scanner.sql :=
    (List.dropWhile_suffix _).trans ((List.suffix_cons byte tail).trans ready.suffix)
  have spelled (token : Token) (kind : token.kind = .word) (start : token.start = scanner.pos)
      (stop : token.stop = offsetOf scanner.sql (tail.dropWhile isIdentChar)) :
      Spells scanner.sql rest token (tail.dropWhile isIdentChar) :=
    .intro before blank (start.trans ready.pos) stop (Nat.lt_succ_of_le (List.dropWhile_suffix _).length_le)
      (.code (tokenWordStart_code byte tail starts) path) (.word kind starts path letters)
  have finds (next : Scanner) (sql : next.sql = scanner.sql) (status : next.status = scanner.status)
      (running : next.done = scanner.done) (pos : next.pos = offsetOf scanner.sql (tail.dropWhile isIdentChar))
      (depth : next.parenDepth = scanner.parenDepth) :
      Turn.Spelled scanner rest
        ⟨.ok (scanner.token .word (offsetOf scanner.sql (tail.dropWhile isIdentChar))), next, [],
          offsetOf scanner.sql (tail.dropWhile isIdentChar)⟩ := by
    refine ⟨fun token found _ => ?_, fun token found isEof => ?_, fun _ same => by cases same⟩
    · cases found
      have nextReady : next.Ready (tail.dropWhile isIdentChar) :=
        ⟨by rw [sql]; exact behindSuffix, by rw [pos, sql], status.trans ready.status, running.trans ready.running⟩
      refine ⟨_, spelled _ rfl rfl rfl, nextReady, sql, rfl, ?_⟩
      rw [depth]
      rfl
    · cases found
      cases isEof
  simp only [Scanner.wordToken]
  split_ifs with isCase isBegin opens isEnd inCase conversation unmatched
  · exact finds _ rfl rfl rfl rfl rfl
  · exact finds _ rfl rfl rfl rfl rfl
  · exact finds _ rfl rfl rfl rfl rfl
  · exact finds _ rfl rfl rfl rfl rfl
  · exact finds _ rfl rfl rfl rfl rfl
  · -- the word that would be returned closes nothing
    let token := scanner.token .word (offsetOf scanner.sql (tail.dropWhile isIdentChar))
    refine ⟨(fun _ same => by cases same), (fun _ same => by cases same),
      fun failure same => .inr ⟨token, _, spelled token rfl rfl rfl, rfl, ?_, .inl ⟨?_, rfl, ?_⟩⟩⟩
    · cases same
      rfl
    · cases same
      rfl
    · have parts : byte :: tail = (byte :: tail.takeWhile isIdentChar) ++ tail.dropWhile isIdentChar := by
        rw [List.cons_append, List.takeWhile_append_dropWhile]
      have whole := ready.suffix
      rw [parts] at whole
      have word := slice_offsetOf whole
      rw [← parts, ← ready.pos] at word
      rw [show (scanner.sql.take token.stop).drop token.start = _ from word]
      exact isEnd
  · exact finds _ rfl rfl rfl rfl rfl
  · exact finds _ rfl rfl rfl rfl rfl

theorem symbolToken_spelled (ready : scanner.Ready (byte :: tail)) (code : opensNonCode (byte :: tail) = false)
    (noWord : tokenWordStart byte = false) (before : CodePath rest blanks (byte :: tail))
    (blank : ∀ passed ∈ blanks, isSpace (byteAt passed 0)) :
    Turn.Spelled scanner rest (scanner.symbolToken byte) := by
  have tailSuffix : tail <:+ scanner.sql := (List.suffix_cons byte tail).trans ready.suffix
  have stop : scanner.pos + 1 = offsetOf scanner.sql tail := by
    rw [ready.pos, offsetOf_cons ready.suffix]
  let token := { scanner.token .symbol (scanner.pos + 1) with symbol := byte }
  have spelled : Spells scanner.sql rest token tail :=
    .intro before blank ready.pos stop (Nat.lt_succ_self _) (.code code (.done tail)) (.symbol rfl rfl noWord code)
  have isByte (other : UInt8) : token.isSymbol other = decide (byte = other) := by
    simp [token, Token.isSymbol, Scanner.token]
  have finds (next : Scanner) (sql : next.sql = scanner.sql) (status : next.status = scanner.status)
      (running : next.done = scanner.done) (pos : next.pos = scanner.pos + 1)
      (depth : next.parenDepth + (decide (byte = 41)).toNat = scanner.parenDepth + (decide (byte = 40)).toNat) :
      Turn.Spelled scanner rest ⟨.ok token, next, [], scanner.pos + 1⟩ := by
    refine ⟨fun found same _ => ?_, fun found same isEof => ?_, fun _ same => by cases same⟩
    · cases same
      have nextReady : next.Ready tail :=
        ⟨by rw [sql]; exact tailSuffix, by rw [pos, sql, stop], status.trans ready.status, running.trans ready.running⟩
      refine ⟨tail, spelled, nextReady, sql, rfl, ?_⟩
      rw [isByte, isByte]
      exact depth
    · cases same
      cases isEof
  simp only [Scanner.symbolToken]
  split_ifs with opens closes unmatched
  · refine finds _ rfl rfl rfl rfl ?_
    subst opens
    rfl
  · refine ⟨(fun _ same => by cases same), (fun _ same => by cases same),
      fun failure same => .inr ⟨token, tail, spelled, rfl, ?_, .inr ⟨?_, ?_, unmatched⟩⟩⟩
    · cases same
      simp [errorAt, Failure.unmatched]
    · cases same
      simp [errorAt, unmatchedEnd]
    · rw [isByte]
      exact decide_eq_true closes
  · refine finds _ rfl rfl rfl rfl ?_
    subst closes
    simp
    omega
  · refine finds _ rfl rfl rfl rfl ?_
    simp [opens, closes]

theorem quotedToken_spelled (ready : scanner.Ready here) {quoted : Text} {prefixes : List Text} {kind : TokenKind}
    (isQuoted : kind = .string ∨ kind = .quotedIdentifier) (suffix : quoted <:+ here) (opens : opensNonCode quoted)
    (before : CodePath rest blanks here) (blank : ∀ passed ∈ blanks, isSpace (byteAt passed 0))
    (path : CodePath here prefixes quoted) (national : ∀ passed ∈ prefixes, byteAt passed 0 = 78 ∨ byteAt passed 0 = 110) :
    Turn.Spelled scanner rest (scanner.quotedToken kind quoted) := by
  have inText := suffix.trans ready.suffix
  cases quoted with
  | nil => cases opens
  | cons quote body =>
    simp only [Scanner.quotedToken]
    split
    next message failed =>
      have failed : (scanNonCodeSpan (quote :: body)).failure.isSome := by
        rw [failed]
        rfl
      refine ⟨nofun, nofun, fun failure _ => .inl ⟨⟨_, _, before.append path, fun passed listed =>
        ?_, .inr ⟨opens, failed⟩⟩, ?_⟩⟩
      · obtain listed | listed := List.mem_append.mp listed
        · exact .inl (blank passed listed)
        · exact .inr (national passed listed)
      · rw [scanNonCodeSpan_failure opens failed]
        rfl
    next closed =>
      have behindSuffix := (scanNonCodeSpan_suffix opens).trans ((List.suffix_cons quote body).trans inText)
      refine ⟨fun token same _ => ?_, fun token same isEof => ?_, nofun⟩
      · cases same
        have whole := path.append (.span opens closed (.done _))
        rw [List.append_nil] at whole
        have inside := (scanNonCodeSpan_suffix opens).length_le
        have shorter := Nat.lt_of_le_of_lt inside (Nat.lt_of_succ_le suffix.length_le)
        have prefixed (passed : Text) (listed : passed ∈ prefixes) :
            (byteAt passed 0 = 78 ∨ byteAt passed 0 = 110) ∧
              (scanNonCodeSpan (quote :: body)).behind.length + 1 < passed.length := by
          have longer := (path.suffix.2 passed listed).2
          rw [List.length_cons] at longer
          exact ⟨national passed listed, by omega⟩
        refine ⟨_, .intro before blank ready.pos rfl shorter whole (.quoted isQuoted prefixed),
          ⟨behindSuffix, rfl, ready.status, ready.running⟩, rfl, rfl, ?_⟩
        have noSymbol (other : UInt8) : (scanner.token kind (offsetOf scanner.sql
          (scanNonCodeSpan (quote :: body)).behind)).isSymbol other = false := by
          obtain rfl | rfl := isQuoted <;> rfl
        rw [noSymbol, noSymbol]
      · cases same
        obtain rfl | rfl := isQuoted <;> cases isEof

theorem tokenTurn_spelled (ready : scanner.Ready (byte :: tail)) (noComment : opensComment (byte :: tail) = false)
    (before : CodePath rest blanks (byte :: tail)) (blank : ∀ passed ∈ blanks, isSpace (byteAt passed 0)) :
    Turn.Spelled scanner rest (scanner.tokenTurn byte tail) := by
  simp only [Scanner.tokenTurn]
  split_ifs with national quote quoted word
  · obtain ⟨letter, quote⟩ := national
    have tailOpens : opensNonCode tail := by
      cases tail with
      | nil => cases quote
      | cons first body =>
        have first : first = Byte.quote := quote
        simp [opensNonCode, first]
    apply quotedToken_spelled ready (.inl rfl) (List.suffix_cons byte tail) tailOpens before blank
      (.code (national_code letter) (.done tail))
    intro passed listed
    obtain rfl := List.mem_singleton.mp listed
    exact letter
  · exact quotedToken_spelled ready (.inl rfl) List.suffix_rfl (by simp [opensNonCode, quote]) before blank (.done _)
      fun _ same => by cases same
  · apply quotedToken_spelled ready (.inr rfl) List.suffix_rfl ?_ before blank (.done _) (fun _ same => by cases same)
    obtain rfl | rfl := quoted <;> simp [opensNonCode]
  · exact wordToken_spelled ready word before blank
  · exact symbolToken_spelled ready (symbol_code noComment quote quoted) (Bool.eq_false_of_not_eq_true word) before
      blank

theorem turn_spelled (ready : scanner.Ready rest) : Turn.Spelled scanner rest scanner.turn := by
  obtain ⟨sql, pos, parenDepth, blockDepth, caseDepth, status, done⟩ := scanner
  obtain ⟨suffix, pos, status, running⟩ := ready
  dsimp only at suffix pos status running
  subst pos status running
  obtain ⟨passed, last, before, blank, found, unclosed⟩ := passTrivia_path sql rest
  obtain ⟨-, triviaSuffix, atEnd, code⟩ := @passTrivia_passage .sqlserver sql rest rfl suffix
  simp only [Scanner.turn, Bool.false_eq_true, if_false, drop_offsetOf suffix]
  split
  next failure failed =>
    have failed : (passTrivia sql rest).failure.isSome := by
      rw [failed]
      rfl
    refine ⟨(fun _ same => by cases same), (fun _ same => by cases same), fun _ _ =>
      .inl ⟨⟨passed, last, before, fun here listed => .inl (blank here listed), .inr (unclosed failed)⟩, ?_⟩⟩
    rw [atEnd failed]
    rfl
  next closed =>
    have noComment := code closed
    obtain rfl := found closed
    split
    next noRest =>
      have stops : Stops rest :=
        ⟨passed, _, before, fun here listed => .inl (blank here listed), .inl noRest⟩
      simp only [Scanner.finish]
      split_ifs
      · exact ⟨(fun _ same => by cases same), (fun _ same => by cases same), fun _ _ => .inl ⟨stops, rfl⟩⟩
      · exact ⟨(fun _ same => by cases same), (fun _ same => by cases same), fun _ _ => .inl ⟨stops, rfl⟩⟩
      · exact ⟨(fun _ same => by cases same), (fun _ same => by cases same), fun _ _ => .inl ⟨stops, rfl⟩⟩
      · refine ⟨fun _ same other => ?_, fun _ _ _ => ⟨stops, rfl⟩, fun _ same => by cases same⟩
        cases same
        exact absurd rfl other
    next byte tail atToken =>
      let here : Scanner := ⟨sql, offsetOf sql (passTrivia sql rest).rest, parenDepth, blockDepth, caseDepth, none, false⟩
      rw [atToken] at noComment before
      have ready : here.Ready (byte :: tail) := by
        rw [← atToken]
        exact ⟨triviaSuffix.trans suffix, rfl, rfl, rfl⟩
      obtain ⟨finds, stops, failed⟩ := tokenTurn_spelled ready noComment before blank
      refine ⟨fun token same other => ?_, stops, fun failure same => ?_⟩
      · obtain ⟨behind, spelled, ready, same, depth, nextDepth⟩ := finds token same other
        exact ⟨behind, spelled, ready, same, depth, nextDepth⟩
      · obtain stops | ⟨token, behind, spelled, reach, known, unmatched⟩ := failed failure same
        · exact .inl stops
        · exact .inr ⟨token, behind, spelled, reach, known, unmatched⟩

end turns

/-! ## Runs -/

/-- The tokens that a run of the scanner yields, the failure that ends it and how far it reads. -/
structure TokenRun where
  tokens : List Token
  failure : Option Failure
  reach : Nat
  deriving DecidableEq, Repr

/-- The calls of the scanner until it returns no further token. -/
def Scanner.tokenRun (scanner : Scanner) : TokenRun :=
  match _found : scanner.turn.result with
  | .error failure => ⟨[], some failure, scanner.turn.reach⟩
  | .ok token =>
    if _isEof : token.kind = .eof then ⟨[], none, scanner.turn.reach⟩
    else
      let later := scanner.turn.next.tokenRun
      { later with tokens := token :: later.tokens }
termination_by scanner.sql.length - scanner.pos
decreasing_by exact turn_forward scanner _found _isEof

/-- The tokens of the text from an offset up to another. -/
def tokensBetween (sql : Text) (start stop : Nat) : TokenRun :=
  match scannerInit sql start stop with
  | .ok scanner => scanner.tokenRun
  | .error _ => ⟨[], none, start⟩

/-- A run whose calls are as `turn_spelled` tells. -/
inductive TokenRun.Spelled : Scanner → Text → TokenRun → Prop where
  | stops {scanner : Scanner} {rest : Text} {failure : Option Failure} (stops : Stops rest) :
      Spelled scanner rest ⟨[], failure, scanner.sql.length⟩
  | unmatched {scanner : Scanner} {rest : Text} {failure : Failure} {reach : Nat} {token : Token} {behind : Text}
      (fails : scanner.Unmatched rest failure reach token behind) : Spelled scanner rest ⟨[], some failure, reach⟩
  | finds {scanner next : Scanner} {rest behind : Text} {token : Token} {later : TokenRun}
      (finds : scanner.Finds rest token next behind) (laterSpelled : Spelled next behind later) :
      Spelled scanner rest { later with tokens := token :: later.tokens }

section runs

variable {scanner : Scanner} {rest behind : Text} {run : TokenRun} {token : Token}

theorem tokenRun_spelled (ready : scanner.Ready rest) : scanner.tokenRun.Spelled scanner rest := by
  fun_induction Scanner.tokenRun scanner generalizing rest with
  | case1 scanner failure found =>
    obtain ⟨stops, atEnd⟩ | ⟨token, behind, unmatched⟩ := (turn_spelled ready).failed failure found
    · rw [atEnd]
      exact .stops stops
    · exact .unmatched unmatched
  | case2 scanner token found isEof =>
    obtain ⟨stops, atEnd⟩ := (turn_spelled ready).stops token found isEof
    rw [atEnd]
    exact .stops stops
  | case3 scanner token found other later =>
    rename_i inductionHypothesis
    obtain ⟨behind, finds⟩ := (turn_spelled ready).finds token found other
    exact .finds finds (inductionHypothesis finds.ready)

/-- A scanner that starts behind its text finds nothing. -/
theorem tokenRun_behind (noRest : scanner.sql.drop scanner.pos = []) (status : scanner.status = none)
    (running : scanner.done = false) : scanner.tokenRun.tokens = [] := by
  rw [Scanner.tokenRun]
  split
  next => rfl
  next token found =>
    split
    next => rfl
    next other =>
      rw [turn_atEnd noRest status running] at found
      exact absurd (finish_token found) other

theorem Spells.order (spelled : Spells scanner.sql rest token behind) (ready : scanner.Ready rest) :
    scanner.pos ≤ token.start ∧ token.start < token.stop ∧ token.stop ≤ scanner.sql.length := by
  obtain ⟨before, -, start, stop, shorter, -, -⟩ := spelled
  have first := before.suffix.1.length_le
  have whole := ready.suffix.length_le
  rw [start, stop, ready.pos, offsetOf, offsetOf, offsetOf]
  omega

/-- The tokens of a run stand one behind the other in the text. -/
theorem TokenRun.Spelled.ordered (spelled : run.Spelled scanner rest) (ready : scanner.Ready rest) :
    (∀ token ∈ run.tokens, scanner.pos ≤ token.start ∧ token.start < token.stop ∧ token.stop ≤ scanner.sql.length) ∧
      run.tokens.Pairwise fun left right => left.stop ≤ right.start := by
  induction spelled with
  | stops => exact ⟨nofun, .nil⟩
  | unmatched => exact ⟨nofun, .nil⟩
  | @finds scanner next rest behind token later finds _ inductionHypothesis =>
    obtain ⟨inside, apart⟩ := inductionHypothesis finds.ready
    obtain ⟨first, forward, last⟩ := finds.spelled.order ready
    have nextPos : next.pos = token.stop := by
      obtain ⟨-, -, -, stop, -, -, -⟩ := finds.spelled
      rw [finds.ready.pos, finds.sql, stop]
    rw [nextPos, finds.sql] at inside
    refine ⟨fun other listed => ?_, .cons (fun other listed => (inside other listed).1) apart⟩
    cases listed with
    | head => exact ⟨first, forward, last⟩
    | tail _ listed =>
      obtain ⟨later, ahead, bound⟩ := inside other listed
      exact ⟨(first.trans forward.le).trans later, ahead, bound⟩

/-- Before every token as many parentheses are open as its depth says. -/
theorem TokenRun.Spelled.depth (spelled : run.Spelled scanner rest) {before after : List Token}
    (parts : run.tokens = before ++ token :: after) :
    token.parenDepth + before.countP (·.isSymbol 41) = scanner.parenDepth + before.countP (·.isSymbol 40) := by
  induction spelled generalizing before with
  | stops => simp at parts
  | unmatched => simp at parts
  | @finds scanner next rest behind first later finds _ inductionHypothesis =>
    cases before with
    | nil =>
      obtain ⟨rfl, -⟩ := List.cons.inj parts
      simp [finds.depth]
    | cons head before =>
      obtain ⟨rfl, laterParts⟩ := List.cons.inj parts
      have deep := inductionHypothesis laterParts
      have step := finds.nextDepth
      rw [List.countP_cons, List.countP_cons]
      cases closes : first.isSymbol 41 <;> cases opens : first.isSymbol 40 <;>
        simp [closes, opens] at step ⊢ <;> omega

/-- The run behind one of its tokens. -/
theorem TokenRun.Spelled.split (spelled : run.Spelled scanner rest) (ready : scanner.Ready rest)
    {before after : List Token} (parts : run.tokens = before ++ token :: after) :
    ∃ (here : Scanner) (restHere : Text) (next : Scanner) (behind : Text),
      here.sql = scanner.sql ∧ here.Ready restHere ∧ here.Finds restHere token next behind ∧
      TokenRun.Spelled next behind { run with tokens := after } := by
  induction spelled generalizing before with
  | stops => simp at parts
  | unmatched => simp at parts
  | @finds scanner next rest behind first later finds laterSpelled inductionHypothesis =>
    cases before with
    | nil =>
      obtain ⟨rfl, rfl⟩ := List.cons.inj parts
      exact ⟨scanner, rest, next, behind, rfl, ready, finds, laterSpelled⟩
    | cons head before =>
      obtain ⟨here, restHere, nextHere, behindHere, same, readyHere, found, spelledHere⟩ :=
        inductionHypothesis finds.ready (List.cons.inj parts).2
      exact ⟨here, restHere, nextHere, behindHere, same.trans finds.sql, readyHere, found, spelledHere⟩

theorem Spells.symbol {sql : Text} {byte : UInt8} (spelled : Spells sql rest token behind)
    (isByte : token.isSymbol byte) :
    byte :: behind <:+ rest ∧ token.start = offsetOf sql (byte :: behind) ∧ token.stop = offsetOf sql behind := by
  obtain ⟨before, blank, start, stop, shorter, path, code⟩ := spelled
  simp only [Token.isSymbol, Bool.and_eq_true, decide_eq_true_eq] at isByte
  obtain ⟨kind, symbol⟩ := isByte
  cases code with
  | symbol _ spelled =>
    rw [← symbol, spelled]
    exact ⟨before.suffix.1, start, stop⟩
  | word other => simp [other] at kind
  | quoted other => simp [kind] at other

theorem Spells.suffix {sql : Text} (spelled : Spells sql rest token behind) : behind <:+ rest := by
  obtain ⟨before, blank, start, stop, shorter, path, code⟩ := spelled
  exact path.suffix.1.trans before.suffix.1

/-- A symbol token is a byte of the text. -/
theorem TokenRun.Spelled.symbol_mem (spelled : run.Spelled scanner rest) {byte : UInt8} (listed : token ∈ run.tokens)
    (isByte : token.isSymbol byte) : byte ∈ rest := by
  induction spelled with
  | stops => cases listed
  | unmatched => cases listed
  | @finds scanner next rest behind first later finds laterSpelled inductionHypothesis =>
    cases listed with
    | head => exact (finds.spelled.symbol isByte).1.subset List.mem_cons_self
    | tail _ listed => exact finds.spelled.suffix.subset (inductionHypothesis listed)

end runs

end SqlParser.Sqlserver
