import SqlParser.Sqlserver.ScannerTokens

/-! # The helpers that read a SQL Server text by themselves

The end of a statement is found by the scanner, behind a search for a semicolon in the
bytes.  The closing parenthesis is found by a loop of its own, which tracks parentheses
only and so goes on where the scanner stops at an `END` that closes nothing.
-/

namespace SqlParser.Sqlserver

open SqlParser.Core

/-! ## The end of a statement -/

def Token.endsStatement (token : Token) : Bool :=
  token.isSymbol Byte.semicolon && token.parenDepth = 0 && token.blockDepth = 0 && token.caseDepth = 0

/-- The loop of `sqlparser_sqlserver_statement_end` over the calls of the scanner. -/
def Scanner.statementEnd (scanner : Scanner) (stop : Nat) : Nat :=
  match _found : scanner.turn.result with
  | .error _ => stop
  | .ok token =>
    if _isEof : token.kind = .eof then stop
    else if token.endsStatement then token.start
    else scanner.turn.next.statementEnd stop
termination_by scanner.sql.length - scanner.pos
decreasing_by exact turn_forward scanner _found _isEof

/-- `sqlparser_sqlserver_statement_end` -/
def statementEnd (sql : Text) (start stop : Nat) : Nat :=
  if stop ≤ start ∨ ¬ Byte.semicolon ∈ (sql.take stop).drop start then stop
  else
    match scannerInit sql start stop with
    | .error _ => stop
    | .ok scanner => scanner.statementEnd stop

/-! ## The matching parenthesis -/

/-- The loop of `sqlparser_sqlserver_find_matching_paren`: the rest that begins with the closing byte. -/
def matchingParen (depth : Nat) (rest : Text) : Option Text :=
  match rest with
  | [] => none
  | byte :: tail =>
    if _opens : opensNonCode (byte :: tail) then
      if (scanNonCodeSpan (byte :: tail)).failure.isSome then none
      else matchingParen depth (scanNonCodeSpan (byte :: tail)).behind
    else if byte = 40 then matchingParen (depth + 1) tail
    else if byte = 41 then if depth - 1 = 0 then some (byte :: tail) else matchingParen (depth - 1) tail
    else matchingParen depth tail
termination_by rest.length
decreasing_by
  · have behind := (scanNonCodeSpan_suffix _opens).length_le
    rw [List.length_cons]
    omega
  all_goals exact Nat.lt_succ_self _

/-- `sqlparser_sqlserver_find_matching_paren`, with the offsets of the closing byte and behind it. -/
def findMatchingParen (input : Text) (openPos : Nat) : Option (Nat × Nat) :=
  if byteAt input openPos ≠ 40 then none
  else
    match matchingParen 1 (input.drop (openPos + 1)) with
    | none => none
    | some rest => some (offsetOf input rest, offsetOf input rest + 1)

section statement

/-- The statement ends at the first token that ends it. -/
theorem scanner_statementEnd (scanner : Scanner) (stop : Nat) :
    scanner.statementEnd stop =
      match scanner.tokenRun.tokens.find? Token.endsStatement with
      | none => stop
      | some token => token.start := by
  fun_induction Scanner.tokenRun scanner with
  | case1 scanner failure found =>
    rw [Scanner.statementEnd]
    split
    next => rfl
    next token same => cases found.symm.trans same
  | case2 scanner token found isEof =>
    rw [Scanner.statementEnd]
    split
    next => rfl
    next other same =>
      cases found.symm.trans same
      rw [dif_pos isEof]
      rfl
  | case3 scanner token found other later =>
    rename_i inductionHypothesis
    rw [Scanner.statementEnd]
    split
    next failure same => cases found.symm.trans same
    next same =>
      cases found.symm.trans same
      rw [dif_neg other, List.find?_cons]
      split
      next ends => rw [ends]
      next goesOn =>
        rw [Bool.eq_false_of_not_eq_true goesOn]
        exact inductionHypothesis

end statement

section matching

variable {rest last : Text} {passed : List Text} {depth : Nat}

/-- On a way without parentheses the loop keeps its depth. -/
theorem matchingParen_path (path : CodePath rest passed last)
    (noParen : ∀ here ∈ passed, byteAt here 0 ≠ 40 ∧ byteAt here 0 ≠ 41) :
    matchingParen depth rest = matchingParen depth last := by
  induction path with
  | done => rfl
  | @code byte tail last passed plain _ inductionHypothesis =>
    obtain ⟨noOpen, noClose⟩ := noParen _ List.mem_cons_self
    have noOpen : byte ≠ 40 := noOpen
    have noClose : byte ≠ 41 := noClose
    rw [matchingParen, dif_neg (by simp [plain]), if_neg noOpen, if_neg noClose]
    exact inductionHypothesis fun here listed => noParen here (List.mem_cons_of_mem _ listed)
  | span opens closed _ inductionHypothesis =>
    rw [matchingParen, dif_pos opens, closed]
    exact inductionHypothesis noParen

theorem matchingParen_unclosed (unclosed : Unclosed rest) : matchingParen depth rest = none := by
  obtain ⟨opens, failed⟩ := unclosed
  cases rest with
  | nil => cases opens
  | cons byte tail => rw [matchingParen, dif_pos opens, if_pos failed]

theorem matchingParen_stops (stops : Stops rest) : matchingParen depth rest = none := by
  obtain ⟨passed, last, path, inert, ends⟩ := stops
  rw [matchingParen_path path]
  · obtain rfl | unclosed := ends
    · rw [matchingParen]
    · exact matchingParen_unclosed unclosed
  · intro here listed
    have known := inert here listed
    constructor <;> intro paren <;> rw [paren] at known <;> exact absurd known (by decide)

/-- Over a token the loop does what the token is, for its symbol. -/
theorem Spells.matching {sql : Text} {token : Token} (spelled : Spells sql rest token last) :
    matchingParen depth rest =
      if token.isSymbol 40 then matchingParen (depth + 1) last
      else if token.isSymbol 41 then if depth - 1 = 0 then some (41 :: last) else matchingParen (depth - 1) last
      else matchingParen depth last := by
  obtain ⟨before, blank, start, stop, -, path, code⟩ := spelled
  rw [matchingParen_path before fun here listed => ?blanks]
  case blanks =>
    have known := blank here listed
    constructor <;> intro paren <;> rw [paren] at known <;> exact absurd known (by decide)
  cases code with
  | @symbol byte _ kind symbol _ plain =>
    rw [matchingParen, dif_neg (by simp [plain])]
    by_cases opens : byte = 40
    · simp [opens, Token.isSymbol, kind, symbol]
    by_cases closes : byte = 41
    · simp [closes, Token.isSymbol, kind, symbol]
    simp [opens, closes, Token.isSymbol, kind, symbol]
  | @word byte tail inside kind starts _ letters =>
    have noSymbol (other : UInt8) : token.isSymbol other = false := by simp [Token.isSymbol, kind]
    rw [noSymbol, noSymbol]
    apply matchingParen_path path
    intro here listed
    cases listed with
    | head => constructor <;> rintro (rfl : byte = _) <;> exact absurd starts (by decide)
    | tail _ listed =>
      have known := letters here listed
      constructor <;> intro paren <;> rw [paren] at known <;> exact absurd known (by decide)
  | quoted kind national =>
    have noSymbol (other : UInt8) : token.isSymbol other = false := by
      obtain kind | kind := kind <;> simp [Token.isSymbol, kind]
    rw [noSymbol, noSymbol]
    apply matchingParen_path path
    intro here listed
    obtain ⟨known, -⟩ := national here listed
    constructor <;> intro paren <;> rw [paren] at known <;> exact absurd known (by decide)

end matching

/-- Whether the token closes a parenthesis that was opened at the given depth. -/
def Token.closes (token : Token) (depth : Nat) : Bool :=
  token.isSymbol 41 && token.parenDepth = depth + 1

/-- The run stops at an `END` that closes neither a `CASE` nor a block. -/
def TokenRun.stopsAtEnd (run : TokenRun) : Bool :=
  run.failure.any fun failure => failure.error.message = unmatchedEnd

section closing

variable {scanner : Scanner} {rest : Text} {run : TokenRun} {base depth : Nat}

/-- The loop finds the first token that closes the parenthesis; where the run has none and does not stop at an
`END`, the loop finds nothing. -/
theorem TokenRun.Spelled.matching (spelled : run.Spelled scanner rest) (deeper : scanner.parenDepth = base + depth)
    (inside : 0 < depth) :
    (∀ closing, run.tokens.find? (·.closes base) = some closing →
        ∃ behind, matchingParen depth rest = some (41 :: behind) ∧ 41 :: behind <:+ rest ∧
          closing.start = offsetOf scanner.sql (41 :: behind) ∧ closing.stop = offsetOf scanner.sql behind) ∧
      (run.tokens.find? (·.closes base) = none → run.stopsAtEnd = false → matchingParen depth rest = none) := by
  induction spelled generalizing depth with
  | stops stops => exact ⟨(fun _ same => by cases same), fun _ _ => matchingParen_stops stops⟩
  | @unmatched scanner rest failure reach token behind fails =>
    refine ⟨(fun _ same => by cases same), fun _ goesOn => ?_⟩
    obtain ⟨message, -⟩ | ⟨-, -, closed⟩ := fails.unmatched
    · simp [TokenRun.stopsAtEnd, message] at goesOn
    · omega
  | @finds scanner next rest behind token later finds laterSpelled inductionHypothesis =>
    have step := finds.nextDepth
    -- behind a token that does not close the parenthesis the loop and the run go on alike
    have goesOn (deeperDepth : Nat) (deep : next.parenDepth = base + deeperDepth) (stillOpen : 0 < deeperDepth)
        (same : matchingParen depth rest = matchingParen deeperDepth behind) (skipped : token.closes base = false) :
        (∀ closing, (token :: later.tokens).find? (·.closes base) = some closing →
            ∃ behind, matchingParen depth rest = some (41 :: behind) ∧ 41 :: behind <:+ rest ∧
              closing.start = offsetOf scanner.sql (41 :: behind) ∧ closing.stop = offsetOf scanner.sql behind) ∧
          ((token :: later.tokens).find? (·.closes base) = none → later.stopsAtEnd = false →
            matchingParen depth rest = none) := by
      obtain ⟨found, missing⟩ := inductionHypothesis deep stillOpen
      rw [List.find?_cons, skipped, same]
      refine ⟨fun closing closes => ?_, missing⟩
      obtain ⟨behindClosing, matched, suffix, start, stop⟩ := found closing closes
      rw [finds.sql] at start stop
      exact ⟨behindClosing, matched, suffix.trans finds.spelled.suffix, start, stop⟩
    have matched := @Spells.matching _ _ depth _ _ finds.spelled
    by_cases opens : token.isSymbol 40
    · have noClose : token.isSymbol 41 = false := by
        simp only [Token.isSymbol, Bool.and_eq_true, decide_eq_true_eq] at opens
        simp [Token.isSymbol, opens]
      rw [if_pos opens] at matched
      rw [opens, noClose] at step
      exact goesOn (depth + 1) (by simp at step; omega) (Nat.succ_pos _) matched (by simp [Token.closes, noClose])
    rw [if_neg opens] at matched
    rw [Bool.eq_false_of_not_eq_true opens] at step
    by_cases closes : token.isSymbol 41
    · rw [if_pos closes] at matched
      rw [closes] at step
      have tokenDepth := finds.depth
      by_cases last : depth - 1 = 0
      · rw [if_pos last] at matched
        have closesBase : token.closes base = true := by
          simp only [Token.closes, closes, Bool.true_and, decide_eq_true_eq]
          omega
        rw [List.find?_cons, closesBase]
        refine ⟨fun closing same => ?_, fun same => by cases same⟩
        cases same
        exact ⟨behind, matched, finds.spelled.symbol closes⟩
      · rw [if_neg last] at matched
        have skipped : token.closes base = false := by
          simp only [Token.closes, closes, Bool.true_and, decide_eq_false_iff_not]
          omega
        exact goesOn (depth - 1) (by simp at step; omega) (by omega) matched skipped
    · rw [if_neg closes] at matched
      rw [Bool.eq_false_of_not_eq_true closes] at step
      exact goesOn depth (by simp at step; omega) inside matched (by simp [Token.closes, closes])

end closing

/-! ## The helpers and the tokens -/

section helpers

variable {sql : Text} {start stop : Nat}

/-- What a run between two offsets starts from. -/
theorem tokensBetween_spelled (sql : Text) (start stop : Nat) :
    (tokensBetween sql start stop).tokens = [] ∨
      ∃ rest, Scanner.Ready { sql := sql.take stop, pos := start } rest ∧
        (tokensBetween sql start stop).Spelled { sql := sql.take stop, pos := start } rest := by
  unfold tokensBetween scannerInit
  split_ifs with order
  · exact .inl rfl
  by_cases inside : start ≤ (sql.take stop).length
  · have ready : Scanner.Ready { sql := sql.take stop, pos := start } ((sql.take stop).drop start) :=
      ⟨List.drop_suffix _ _, (offsetOf_drop inside).symm, rfl, rfl⟩
    exact .inr ⟨_, ready, tokenRun_spelled ready⟩
  · exact .inl (tokenRun_behind (List.drop_eq_nil_iff.mpr (Nat.le_of_not_le inside)) rfl rfl)

/-- The statement ends where the tokens say, whether or not a semicolon stands in the bytes. -/
theorem statementEnd_tokens (sql : Text) (start stop : Nat) :
    statementEnd sql start stop =
      match (tokensBetween sql start stop).tokens.find? Token.endsStatement with
      | none => stop
      | some token => token.start := by
  unfold statementEnd
  split_ifs with skipped
  · have noToken : (tokensBetween sql start stop).tokens.find? Token.endsStatement = none := by
      rw [List.find?_eq_none]
      intro token listed ends
      obtain noTokens | ⟨rest, ready, spelled⟩ := tokensBetween_spelled sql start stop
      · rw [noTokens] at listed
        cases listed
      · simp only [Token.endsStatement, Bool.and_eq_true] at ends
        have present := spelled.symbol_mem listed ends.1.1.1
        obtain order | noByte := skipped
        · obtain ⟨first, forward, last⟩ := (spelled.ordered ready).1 token listed
          have bound : (sql.take stop).length ≤ stop := List.length_take_le _ _
          dsimp only at first last
          omega
        · have atStart : rest = (sql.take stop).drop start := by
            have here := ready.pos
            dsimp only at here
            rw [here, drop_offsetOf ready.suffix]
          rw [← atStart] at noByte
          exact noByte present
    rw [noToken]
  · cases begun : scannerInit sql start stop with
    | error failure => simp [tokensBetween, begun]
    | ok scanner =>
      simp only [tokensBetween, begun]
      exact scanner_statementEnd scanner stop

/-- The loop over the text finds the token that closes an opening token. -/
theorem findMatchingParen_tokens {before after : List Token} {opening : Token}
    (parts : (tokensBetween sql start sql.length).tokens = before ++ opening :: after) (opens : opening.isSymbol 40) :
    (∀ closing, after.find? (·.closes opening.parenDepth) = some closing →
        findMatchingParen sql opening.start = some (closing.start, closing.stop)) ∧
      (after.find? (·.closes opening.parenDepth) = none → (tokensBetween sql start sql.length).stopsAtEnd = false →
        findMatchingParen sql opening.start = none) := by
  obtain noTokens | ⟨rest, ready, spelled⟩ := tokensBetween_spelled sql start sql.length
  · simp [noTokens] at parts
  obtain ⟨here, restHere, next, behind, same, readyHere, finds, later⟩ := spelled.split ready parts
  have sameSql : here.sql = sql := same.trans List.take_length
  have nextSql : next.sql = sql := finds.sql.trans sameSql
  have noClose : opening.isSymbol 41 = false := by
    simp only [Token.isSymbol, Bool.and_eq_true, decide_eq_true_eq] at opens
    simp [Token.isSymbol, opens]
  have deeper : next.parenDepth = opening.parenDepth + 1 := by
    have step := finds.nextDepth
    rw [opens, noClose, ← finds.depth] at step
    exact step
  obtain ⟨found, missing⟩ := later.matching deeper Nat.one_pos
  obtain ⟨suffix, begins, -⟩ := finds.spelled.symbol opens
  have behindInText : behind <:+ sql := by
    rw [← nextSql]
    exact finds.ready.suffix
  have inText : 40 :: behind <:+ sql := by
    rw [← sameSql]
    exact suffix.trans readyHere.suffix
  rw [sameSql] at begins
  have located : sql.drop opening.start = 40 :: behind := by rw [begins, drop_offsetOf inText]
  have byte : byteAt sql opening.start = 40 := by rw [byteAt_eq_head, located]; rfl
  have tail : sql.drop (opening.start + 1) = behind := by rw [← List.drop_drop, located]; rfl
  unfold findMatchingParen
  rw [if_neg (not_not_intro byte), tail]
  refine ⟨fun closing closes => ?_, fun none goesOn => ?_⟩
  · obtain ⟨behindClosing, matched, suffix, first, last⟩ := found closing closes
    rw [nextSql] at first last
    rw [matched, first, last, offsetOf_cons (suffix.trans behindInText)]
  · rw [missing none goesOn]

/-- The tokens partition what the scanner reads, their depths count the parentheses before them, and the helpers find
the tokens that they are meant to find.  Only where the scanner stops at an `END` that closes nothing may the search
for a parenthesis go on and find one. -/
theorem scanner_helpers_agree (sql : Text) (start stop : Nat) :
    (∀ token ∈ (tokensBetween sql start stop).tokens,
        start ≤ token.start ∧ token.start < token.stop ∧ token.stop ≤ stop ∧ token.stop ≤ sql.length) ∧
      (tokensBetween sql start stop).tokens.Pairwise (fun left right => left.stop ≤ right.start) ∧
      (∀ before token after, (tokensBetween sql start stop).tokens = before ++ token :: after →
        token.parenDepth + before.countP (·.isSymbol 41) = before.countP (·.isSymbol 40)) ∧
      (statementEnd sql start stop =
        match (tokensBetween sql start stop).tokens.find? Token.endsStatement with
        | none => stop
        | some token => token.start) ∧
      ∀ before opening after, (tokensBetween sql start sql.length).tokens = before ++ opening :: after →
        opening.isSymbol 40 →
          (∀ closing, after.find? (·.closes opening.parenDepth) = some closing →
            findMatchingParen sql opening.start = some (closing.start, closing.stop)) ∧
          (after.find? (·.closes opening.parenDepth) = none →
            (tokensBetween sql start sql.length).stopsAtEnd = false → findMatchingParen sql opening.start = none) := by
  refine ⟨fun token listed => ?_, ?_, fun before token after parts => ?_, statementEnd_tokens sql start stop,
    fun before opening after parts opens => findMatchingParen_tokens parts opens⟩
  all_goals obtain noTokens | ⟨rest, ready, spelled⟩ := tokensBetween_spelled sql start stop
  · simp [noTokens] at listed
  · obtain ⟨first, forward, last⟩ := (spelled.ordered ready).1 token listed
    rw [List.length_take] at last
    exact ⟨first, forward, last.trans (Nat.min_le_left _ _), last.trans (Nat.min_le_right _ _)⟩
  · rw [noTokens]
    exact .nil
  · exact (spelled.ordered ready).2
  · simp [noTokens] at parts
  · simpa using spelled.depth parts

end helpers

/-- Token by token there is no closing parenthesis behind an `END` that closes nothing, and the loop finds one. -/
theorem matching_paren_behind_end :
    (tokensBetween (ascii "(end)") 0 5).tokens =
        [{ kind := .symbol, start := 0, stop := 1, symbol := 40 }] ∧
      (tokensBetween (ascii "(end)") 0 5).stopsAtEnd ∧ findMatchingParen (ascii "(end)") 0 = some (4, 5) := by
  refine ⟨?_, ?_, ?_⟩ <;> decide +kernel

end SqlParser.Sqlserver
