import SqlParser.Core.PublicLexer

/-! # RETURNING ... INTO clauses

`sqlparser_dialect_dml_result.c` recognises the `RETURNING` keyword of a DML statement whose
targets are followed by `INTO` and as many bind receivers.
-/

namespace SqlParser.Core

/-- `sqlparser_dialect_returning_into_clause_t` -/
structure ReturningIntoClause where
  statementIndex : Nat
  keywordEnd : Nat
  intoStart : Nat
  pairCount : Nat
  usesReturnKeyword : Bool
  deriving DecidableEq, Repr

/-- `sqlparser_dialect_returning_into_item_t` -/
structure ReturningIntoItem where
  statementIndex : Nat
  pairCount : Nat
  keywordUppercaseMask : Nat
  intoUppercaseMask : Nat
  usesReturnKeyword : Bool
  deriving DecidableEq, Repr

/-! ## Words and trivia -/

/-- `sqlparser_returning_into_is_ident_char` -/
def returningIntoIsIdentChar (byte : UInt8) : Bool :=
  isAlnum byte || byte = Byte.underscore || byte = Byte.dollar || byte = Byte.hash || byte ≥ 0x80

/-- `sqlparser_returning_into_word_end` -/
def returningIntoWordEnd (sql : Text) (start : Nat) : Nat :=
  runEnd returningIntoIsIdentChar sql start

/-- Whether a word does not begin at the offset because a byte of a word stands before it. -/
def returningIntoInsideWord (sql : Text) (start : Nat) : Bool :=
  0 < start && returningIntoIsIdentChar (byteAt sql (start - 1))

/-- `sqlparser_returning_into_word_equal` -/
def returningIntoWordEqual (sql : Text) (start stop : Nat) (word : Text) : Bool :=
  stop - start = word.length && !returningIntoInsideWord sql start && !returningIntoIsIdentChar (byteAt sql stop) &&
    ((sql.drop start).take word.length).map toLower = word.map toLower

/-- `sqlparser_returning_into_word_at` -/
def returningIntoWordAt (sql : Text) (start : Nat) (word : Text) : Bool :=
  !returningIntoInsideWord sql start && ((sql.drop start).take word.length).map toLower = word.map toLower &&
    !returningIntoIsIdentChar (byteAt sql (start + word.length))

/-- Whether a comment begins with the two bytes at the offset. -/
def opensComment (sql : Text) (index : Nat) : Bool :=
  (byteAt sql index = Byte.dash && byteAt sql (index + 1) = Byte.dash) ||
    (byteAt sql index = Byte.slash && byteAt sql (index + 1) = Byte.star)

theorem lt_of_opensComment {sql : Text} {index : Nat} (opens : opensComment sql index) : index < sql.length := by
  apply lt_of_byteAt
  simp only [opensComment, Bool.or_eq_true, Bool.and_eq_true, decide_eq_true_eq] at opens
  obtain ⟨first, -⟩ | ⟨first, -⟩ := opens <;> exact first.trans_ne (by decide)

/-- `sqlparser_returning_into_skip_trivia` -/
def returningIntoSkipTrivia (dialect : Dialect) (sql : Text) (start : Nat) : Nat :=
  let comment := runEnd isSpace sql start
  if _opens : opensComment sql comment then
    let next := publicSkipQuotedOrComment dialect sql comment
    if _forward : comment < next then returningIntoSkipTrivia dialect sql next else comment
  else comment
termination_by sql.length - start
decreasing_by
  have inside : comment < sql.length := lt_of_opensComment _opens
  have order : start ≤ comment := le_runEnd isSpace sql start
  dsimp +zetaDelta only at *
  omega

theorem le_returningIntoSkipTrivia (dialect : Dialect) (sql : Text) (start : Nat) :
    start ≤ returningIntoSkipTrivia dialect sql start := by
  fun_induction returningIntoSkipTrivia dialect sql start with
  | case1 start comment opens next forward inductionHypothesis =>
    have order : start ≤ comment := le_runEnd isSpace sql start
    omega
  | case2 start comment | case3 start comment => exact le_runEnd isSpace sql start

/-! ## The statement -/

theorem returningIntoIsIdentChar_word {sql : Text} {position : Nat}
    (letter : returningIntoIsIdentChar (byteAt sql position)) : position < returningIntoWordEnd sql position :=
  lt_runEnd (by decide) letter

/-- The loop of `sqlparser_returning_into_statement_context`. -/
def returningIntoContextLoop (dialect : Dialect) (sql : Text) (keywordStart position depth statementIndex : Nat)
    (statementIsDml statementWordSeen : Bool) : Option Nat :=
  if position < keywordStart then
    let next := publicSkipQuotedOrComment dialect sql position
    let byte := byteAt sql position
    if skips : position < next then
      returningIntoContextLoop dialect sql keywordStart next depth statementIndex statementIsDml statementWordSeen
    else if byte = 40 then
      returningIntoContextLoop dialect sql keywordStart (position + 1) (depth + 1) statementIndex statementIsDml
        statementWordSeen
    else if byte = 41 then
      if depth = 0 then none
      else
        returningIntoContextLoop dialect sql keywordStart (position + 1) (depth - 1) statementIndex statementIsDml
          statementWordSeen
    else if depth = 0 ∧ byte = Byte.semicolon then
      returningIntoContextLoop dialect sql keywordStart (position + 1) depth
        (if statementWordSeen then statementIndex + 1 else statementIndex) false false
    else if word : !returningIntoIsIdentChar byte || isDigit byte then
      returningIntoContextLoop dialect sql keywordStart (position + 1) depth statementIndex statementIsDml
        statementWordSeen
    else
      let wordEnd := returningIntoWordEnd sql position
      let first := depth = 0 && !statementWordSeen
      let isDml := returningIntoWordEqual sql position wordEnd (ascii "insert") ||
        returningIntoWordEqual sql position wordEnd (ascii "update") ||
        returningIntoWordEqual sql position wordEnd (ascii "delete")
      returningIntoContextLoop dialect sql keywordStart wordEnd depth statementIndex
        (if first then isDml else statementIsDml) (first || statementWordSeen)
  else if depth ≠ 0 || !statementIsDml then none
  else some statementIndex
termination_by keywordStart - position
decreasing_by
  all_goals try omega
  have letter : returningIntoIsIdentChar (byteAt sql position) := by
    simp only [byte, Bool.or_eq_true, Bool.not_eq_true', not_or, Bool.not_eq_true, Bool.not_eq_false] at word
    exact word.1
  have := returningIntoIsIdentChar_word letter
  omega

/-- `sqlparser_returning_into_statement_context` -/
def returningIntoStatementContext (dialect : Dialect) (sql : Text) (keywordStart : Nat) : Option Nat :=
  returningIntoContextLoop dialect sql keywordStart 0 0 0 false false

/-- `sqlparser_returning_into_bind_end` -/
def returningIntoBindEnd (sql : Text) (start : Nat) : Nat :=
  let first := byteAt sql (start + 1)
  if byteAt sql start ≠ Byte.colon ∨ first = 0 ∨ first = Byte.colon ∨ first = Byte.equals then start
  else if isDigit first then runEnd isDigit sql (start + 1)
  else if !isAlpha first && first ≠ Byte.underscore && first < 0x80 then start
  else runEnd returningIntoIsIdentChar sql (start + 2)

theorem le_returningIntoBindEnd (sql : Text) (start : Nat) : start ≤ returningIntoBindEnd sql start := by
  have digits := le_runEnd isDigit sql (start + 1)
  have name := le_runEnd returningIntoIsIdentChar sql (start + 2)
  simp only [returningIntoBindEnd]
  split_ifs <;> omega

/-! ## The clause -/

/-- `sqlparser_returning_into_bulk_collect_at` -/
def returningIntoBulkCollectAt (dialect : Dialect) (sql : Text) (start : Nat) : Bool :=
  returningIntoWordAt sql start (ascii "bulk") &&
    let collect := returningIntoSkipTrivia dialect sql (start + 4)
    returningIntoWordAt sql collect (ascii "collect") &&
      returningIntoWordAt sql (returningIntoSkipTrivia dialect sql (collect + 7)) (ascii "into")

/-- The loop over the targets: the offset of `INTO` and the number of the targets. -/
def returningIntoTargets (dialect : Dialect) (sql : Text) (position depth targetCount : Nat) (targetHasCode : Bool) :
    Option (Nat × Nat) :=
  if inside : position < sql.length then
    let next := publicSkipQuotedOrComment dialect sql position
    let byte := byteAt sql position
    if skips : position < next then
      returningIntoTargets dialect sql next depth targetCount (!opensComment sql position || targetHasCode)
    else if byte = 40 then returningIntoTargets dialect sql (position + 1) (depth + 1) targetCount true
    else if byte = 41 then
      if depth = 0 then none else returningIntoTargets dialect sql (position + 1) (depth - 1) targetCount true
    else if depth = 0 ∧ byte = Byte.semicolon then none
    else if depth = 0 ∧ byte = 44 then
      if !targetHasCode then none
      else returningIntoTargets dialect sql (position + 1) depth (targetCount + 1) false
    else if word : depth = 0 ∧ returningIntoIsIdentChar byte ∧ isDigit byte = false then
      if returningIntoBulkCollectAt dialect sql position then none
      else
        let wordEnd := returningIntoWordEnd sql position
        if returningIntoWordEqual sql position wordEnd (ascii "into") then
          if !targetHasCode then none else some (position, targetCount + 1)
        else returningIntoTargets dialect sql wordEnd depth targetCount true
    else returningIntoTargets dialect sql (position + 1) depth targetCount (!isSpace byte || targetHasCode)
  else none
termination_by sql.length - position
decreasing_by
  all_goals try omega
  have := returningIntoIsIdentChar_word word.2.1
  omega

/-- The loop over the receivers, entered at the end of one: how many there are, when they end the statement. -/
def returningIntoSinks (dialect : Dialect) (sql : Text) (sinkEnd sinkCount : Nat) : Option Nat :=
  let position := returningIntoSkipTrivia dialect sql sinkEnd
  if comma : byteAt sql position = 44 then
    let sinkStart := returningIntoSkipTrivia dialect sql (position + 1)
    let next := returningIntoBindEnd sql sinkStart
    if next = sinkStart then none else returningIntoSinks dialect sql next (sinkCount + 1)
  else if byteAt sql position ≠ 0 ∧ byteAt sql position ≠ Byte.semicolon then none
  else some sinkCount
termination_by sql.length - sinkEnd
decreasing_by
  have inside : position < sql.length := lt_of_byteAt (comma.trans_ne (by decide))
  have first : sinkEnd ≤ position := le_returningIntoSkipTrivia dialect sql sinkEnd
  have second : position + 1 ≤ sinkStart := le_returningIntoSkipTrivia dialect sql (position + 1)
  have third : sinkStart ≤ next := le_returningIntoBindEnd sql sinkStart
  dsimp +zetaDelta only at *
  omega

/-- `sqlparser_dialect_returning_into_clause_at` -/
def returningIntoClauseAt (dialect : Dialect) (sql : Text) (keywordStart : Nat) (allowReturnKeyword : Bool) :
    Option ReturningIntoClause :=
  let isReturning := returningIntoWordAt sql keywordStart (ascii "returning")
  if !isReturning && !(allowReturnKeyword && returningIntoWordAt sql keywordStart (ascii "return")) then none
  else
    match returningIntoStatementContext dialect sql keywordStart with
    | none => none
    | some statementIndex =>
      let keywordEnd := keywordStart + if isReturning then 9 else 6
      match returningIntoTargets dialect sql keywordEnd 0 0 false with
      | none => none
      | some (intoStart, targetCount) =>
        let sinkStart := returningIntoSkipTrivia dialect sql (intoStart + 4)
        let sinkEnd := returningIntoBindEnd sql sinkStart
        if sinkEnd = sinkStart then none
        else
          match returningIntoSinks dialect sql sinkEnd 1 with
          | none => none
          | some sinkCount =>
            if sinkCount ≠ targetCount then none
            else some ⟨statementIndex, keywordEnd, intoStart, targetCount, !isReturning⟩

/-! ## The recorded clauses -/

/-- The bits of the uppercase letters of a keyword. -/
def uppercaseMask : Text → Nat
  | [] => 0
  | byte :: rest => (if isUpper byte then 1 else 0) + 2 * uppercaseMask rest

def returningIntoRepeated : Error :=
  ⟨.unsupported, "multiple RETURNING INTO clauses in one statement are unsupported"⟩

def returningIntoInvalid : Error := ⟨.invalidArgument, "RETURNING INTO state input is invalid"⟩

/-- `sqlparser_dialect_returning_into_state_append` -/
def returningIntoStateAppend (items : List ReturningIntoItem) (statementIndex : Nat) (keyword intoKeyword : Text)
    (pairCount : Nat) : Except Error (List ReturningIntoItem) :=
  if pairCount = 0 ∨ (keyword.length ≠ 6 ∧ keyword.length ≠ 9) then .error returningIntoInvalid
  else if items.any fun item => item.statementIndex = statementIndex then .error returningIntoRepeated
  else
    .ok (items ++ [⟨statementIndex, pairCount, uppercaseMask keyword, uppercaseMask (intoKeyword.take 4),
      keyword.length = 6⟩])

/-! ## What a recognised clause is -/

theorem returningIntoTargets_some {dialect : Dialect} {sql : Text} {position depth targetCount intoStart count : Nat}
    {targetHasCode : Bool}
    (found : returningIntoTargets dialect sql position depth targetCount targetHasCode = some (intoStart, count)) :
    position ≤ intoStart ∧ ((sql.drop intoStart).take 4).map toLower = ascii "into" := by
  fun_induction returningIntoTargets dialect sql position depth targetCount targetHasCode with
  | case3 | case5 | case6 | case8 | case9 | case13 => cases found
  | case1 position _ _ _ _ next skips inductionHypothesis =>
    obtain ⟨order, word⟩ := inductionHypothesis found
    exact ⟨Nat.le_of_lt (Nat.lt_of_lt_of_le skips order), word⟩
  | case2 _ _ _ _ _ _ _ _ _ inductionHypothesis | case4 _ _ _ _ _ _ _ _ _ _ _ inductionHypothesis
  | case7 _ _ _ _ _ _ _ _ _ _ _ _ _ inductionHypothesis | case12 _ _ _ _ _ _ _ _ _ _ _ _ _ inductionHypothesis =>
    obtain ⟨order, word⟩ := inductionHypothesis found
    exact ⟨Nat.le_of_succ_le order, word⟩
  | case10 position _ _ _ _ _ _ _ _ _ _ _ _ _ wordEnd isInto hasCode =>
    cases found
    simp only [returningIntoWordEqual, Bool.and_eq_true, decide_eq_true_eq] at isInto
    exact ⟨le_rfl, isInto.2⟩
  | case11 position _ _ _ _ _ _ _ _ _ _ _ letter _ wordEnd _ inductionHypothesis =>
    obtain ⟨order, word⟩ := inductionHypothesis found
    exact ⟨(returningIntoIsIdentChar_word letter.2.1).le.trans order, word⟩

/-- A clause begins with its keyword and has its `INTO` behind it. -/
theorem returningIntoClauseAt_some {dialect : Dialect} {sql : Text} {keywordStart : Nat} {clause : ReturningIntoClause}
    (found : returningIntoClauseAt dialect sql keywordStart false = some clause) :
    clause.keywordEnd = keywordStart + 9 ∧ returningIntoWordAt sql keywordStart (ascii "returning") ∧
      clause.keywordEnd ≤ clause.intoStart ∧ ((sql.drop clause.intoStart).take 4).map toLower = ascii "into" := by
  unfold returningIntoClauseAt at found
  cases isReturning : returningIntoWordAt sql keywordStart (ascii "returning") with
  | false =>
    rw [isReturning] at found
    cases found
  | true =>
    simp only [isReturning, Bool.not_true, Bool.false_and, Bool.false_eq_true, if_false, if_true] at found
    split at found
    next => cases found
    next statementIndex _ =>
      split at found
      next => cases found
      next intoStart targetCount targets =>
        split at found
        next => cases found
        next =>
          split at found
          next => cases found
          next =>
            split at found
            next => cases found
            next =>
              cases found
              obtain ⟨order, word⟩ := returningIntoTargets_some targets
              exact ⟨rfl, rfl, order, word⟩

end SqlParser.Core
