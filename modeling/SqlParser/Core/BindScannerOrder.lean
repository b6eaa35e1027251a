import SqlParser.Core.BindScanner

/-! # Order and stability of the bind tokens

From a scanner every later token starts behind its floor: the index outside of
executable comments, and inside of a body at most the end of the comment, to which
the scanner may move back from a skipped item that outruns the body.
-/

namespace SqlParser.Core

/-- The input of a scanner, without its cursor. -/
def BindScanner.input (scanner : BindScanner) : BindScanner :=
  { scanner with index := 0, codeStart := 0, codeEnd := 0 }

/-- What holds of every scanner that is reached from an initial one. -/
structure BindScanner.Sound (scanner : BindScanner) : Prop where
  whole : scanner.length = scanner.sql.length
  mysql : scanner.codeEnd ≠ 0 → scanner.dialect.isMysqlCompatible
  framed : scanner.codeEnd ≠ 0 → byteAt scanner.sql scanner.codeEnd = Byte.star

/-- No later token starts before this offset. -/
def BindScanner.floor (scanner : BindScanner) : Nat :=
  if scanner.codeEnd = 0 then scanner.index else min scanner.index (scanner.codeEnd + 2)

theorem BindScanner.floor_le_index (scanner : BindScanner) : scanner.floor ≤ scanner.index := by
  unfold floor
  split
  next => exact le_rfl
  next => exact Nat.min_le_left _ _

theorem BindScanner.floor_forward {scanner next : BindScanner} (sameEnd : next.codeEnd = scanner.codeEnd)
    (forward : scanner.index ≤ next.index) : scanner.floor ≤ next.floor := by
  unfold floor
  rw [sameEnd]
  split <;> omega

theorem BindScanner.Sound.moved {scanner next : BindScanner} (sound : scanner.Sound)
    (sameInput : next.input = scanner.input) (sameEnd : next.codeEnd = scanner.codeEnd) : next.Sound := by
  have sameDialect : next.dialect = scanner.dialect := (congrArg BindScanner.dialect sameInput :)
  have sameSql : next.sql = scanner.sql := (congrArg BindScanner.sql sameInput :)
  have sameLength : next.length = scanner.length := (congrArg BindScanner.length sameInput :)
  constructor
  · rw [sameLength, sameSql]
    exact sound.whole
  · rw [sameEnd, sameDialect]
    exact sound.mysql
  · rw [sameEnd, sameSql]
    exact sound.framed

theorem bindScannerInit_sound (dialect : Dialect) (sql : Text) : (bindScannerInit dialect sql).Sound :=
  ⟨rfl, fun body => absurd rfl body, fun body => absurd rfl body⟩

theorem bindScannerInitMarkers_sound (dialect : Dialect) (sql : Text) (markerStart markerCount : Nat) :
    (bindScannerInitMarkers dialect sql markerStart markerCount).Sound := by
  unfold bindScannerInitMarkers
  split
  next => exact bindScannerInit_sound dialect sql
  next => exact ⟨rfl, fun body => absurd rfl body, fun body => absurd rfl body⟩

/-! ## One turn -/

theorem BindScanner.leaveBody_floor {scanner : BindScanner} (inside : scanner.index < scanner.length)
    (body : scanner.codeEnd ≠ 0) : scanner.floor ≤ scanner.leaveBody.floor := by
  unfold floor leaveBody
  rw [if_neg body, if_pos rfl]
  dsimp only
  split <;> omega

theorem BindScanner.passSkipped_sound {scanner : BindScanner} (sound : scanner.Sound) (skipped : Nat) :
    (scanner.passSkipped skipped).Sound ∧ (scanner.passSkipped skipped).input = scanner.input := by
  unfold passSkipped
  split
  next =>
    split
    next bodyStart bodyEnd found =>
      obtain ⟨mysql, -, -, -, star⟩ := bindMysqlExecutableBody_some found
      exact ⟨⟨sound.whole, fun _ => mysql, fun _ => star⟩, rfl⟩
    next => exact ⟨sound.moved rfl rfl, rfl⟩
  next => exact ⟨sound.moved rfl rfl, rfl⟩

theorem BindScanner.passSkipped_floor {scanner : BindScanner} {skipped : Nat} (forward : scanner.index ≤ skipped) :
    scanner.floor ≤ (scanner.passSkipped skipped).floor := by
  unfold passSkipped
  split
  next outside =>
    split
    next bodyStart bodyEnd found =>
      obtain ⟨-, size, stop, enters, -⟩ := bindMysqlExecutableBody_some found
      unfold floor
      rw [if_pos outside]
      dsimp only
      split <;> omega
    next => exact floor_forward rfl forward
  next => exact floor_forward rfl forward

/-- A turn that goes on keeps the input and never lowers the floor. -/
theorem BindScanner.turn_continues {scanner next : BindScanner} (sound : scanner.Sound)
    (turn : scanner.turn = .continues next) :
    next.Sound ∧ next.input = scanner.input ∧ scanner.floor ≤ next.floor := by
  unfold BindScanner.turn at turn
  dsimp only at turn
  split_ifs at turn with inside leaves space separates skips
  · cases turn
    exact ⟨⟨sound.whole, fun body => absurd rfl body, fun body => absurd rfl body⟩, rfl,
      leaveBody_floor inside leaves.1⟩
  · cases turn
    exact ⟨sound.moved rfl rfl, rfl, floor_forward rfl (Nat.le_succ _)⟩
  · cases turn
    exact ⟨sound.moved rfl rfl, rfl, floor_forward rfl (Nat.le_succ _)⟩
  · cases turn
    obtain ⟨nextSound, sameInput⟩ :=
      passSkipped_sound sound (publicSkipQuotedOrComment scanner.dialect scanner.sql scanner.index)
    exact ⟨nextSound, sameInput, passSkipped_floor (publicSkip_ge _ _ _)⟩
  · split at turn
    next => cases turn
    next =>
      cases turn
      exact ⟨sound.moved rfl rfl, rfl, floor_forward rfl (Nat.le_succ _)⟩

theorem Dialect.mysql_only {dialect : Dialect} (mysql : dialect.isMysqlCompatible) :
    dialect.isOracleOrDamengCompatible = false ∧ dialect.isSqlserverCompatible = false := by
  cases dialect <;> first | exact ⟨rfl, rfl⟩ | cases mysql

/-- A token of a body ends before the comment does: no token runs over a star. -/
theorem bindTokenAt_before_star {scanner : BindScanner} {start stop : Nat} {token : BindToken}
    (mysql : scanner.dialect.isMysqlCompatible) (star : byteAt scanner.sql stop = Byte.star)
    (before : start < stop) (found : bindTokenAt scanner start = some token) : token.stop ≤ stop := by
  obtain ⟨noOracle, noSqlserver⟩ := Dialect.mysql_only mysql
  obtain question | dollar | colon | at' := bindTokenAt_cases found
  · obtain ⟨-, -, rfl⟩ := bindQuestionToken_some question
    exact before
  · obtain ⟨-, -, -, -, run, -, -⟩ := bindDollarToken_some dollar
    rw [run]
    exact runEnd_le_of_refused before (lt_of_byteAt (star.trans_ne (by decide))).le (by rw [star]; decide)
  · exact absurd (bindColonToken_some colon).1 (by rw [noOracle]; decide)
  · exact absurd (bindAtToken_some at').1 (by rw [noSqlserver]; decide)

/-- The turn that finds a token finds it at or behind the floor, and raises the floor to its end. -/
theorem BindScanner.turn_finds_sound {scanner next : BindScanner} {token : BindToken} (sound : scanner.Sound)
    (turn : scanner.turn = .finds token next) :
    next.Sound ∧ next.input = scanner.input ∧ scanner.floor ≤ token.start ∧ token.stop ≤ next.floor := by
  obtain ⟨inside, body, -, found, rfl⟩ := turn_finds turn
  obtain ⟨atIndex, -, -⟩ := bindTokenAt_some found
  refine ⟨sound.moved rfl rfl, rfl, atIndex ▸ scanner.floor_le_index, ?_⟩
  unfold floor
  dsimp only
  split
  next => exact le_rfl
  next scanning =>
    have := bindTokenAt_before_star (sound.mysql scanning) (sound.framed scanning) (body scanning) found
    omega

/-! ## The run -/

/-- A token as the scanner has recognised it in its text. -/
structure BindToken.FoundIn (token : BindToken) (input : BindScanner) : Prop where
  recognised : bindTokenAt input token.start = some token
  unskipped : publicSkipQuotedOrComment input.dialect input.sql token.start = token.start

theorem bindScannerNext_sound {scanner next : BindScanner} {token : BindToken} (sound : scanner.Sound)
    (found : bindScannerNext scanner = some (token, next)) :
    next.Sound ∧ next.input = scanner.input ∧ scanner.floor ≤ token.start ∧ token.stop ≤ next.floor ∧
      token.FoundIn scanner.input := by
  fun_induction bindScannerNext scanner with
  | case1 => cases found
  | case2 scanner later turn inductionHypothesis =>
    obtain ⟨laterSound, sameInput, higher⟩ := BindScanner.turn_continues sound turn
    obtain ⟨nextSound, keeps, starts, stops, recognised⟩ := inductionHypothesis laterSound found
    rw [sameInput] at keeps recognised
    exact ⟨nextSound, keeps, higher.trans starts, stops, recognised⟩
  | case3 scanner token' next' turn =>
    cases found
    obtain ⟨nextSound, sameInput, starts, stops⟩ := BindScanner.turn_finds_sound sound turn
    obtain ⟨-, -, unskipped, recognised, -⟩ := BindScanner.turn_finds turn
    have atIndex := (bindTokenAt_some recognised).1
    refine ⟨nextSound, sameInput, starts, stops, ?_, ?_⟩
    · rw [atIndex]
      exact recognised
    · rw [atIndex]
      exact unskipped

theorem bindTokens_sound {scanner : BindScanner} (sound : scanner.Sound) :
    ((bindTokens scanner).Pairwise fun earlier later => earlier.stop ≤ later.start) ∧
      ∀ token ∈ bindTokens scanner, scanner.floor ≤ token.start ∧ token.FoundIn scanner.input := by
  fun_induction bindTokens scanner with
  | case1 => exact ⟨.nil, fun _ listed => nomatch listed⟩
  | case2 scanner token next found inductionHypothesis =>
    obtain ⟨nextSound, sameInput, starts, stops, recognised⟩ := bindScannerNext_sound sound found
    obtain ⟨ordered, later⟩ := inductionHypothesis nextSound
    rw [sameInput] at later
    have valid := (bindTokenAt_some recognised.recognised).2.1
    refine ⟨.cons (fun behind listed => stops.trans (later behind listed).1) ordered, ?_⟩
    intro listed member
    cases member with
    | head => exact ⟨starts, recognised⟩
    | tail _ member => exact ⟨by have := (later listed member).1; omega, (later listed member).2⟩

/-! ## The tokens by themselves -/

theorem bindTokenAt_first {scanner : BindScanner} {start : Nat} {token : BindToken}
    (found : bindTokenAt scanner start = some token) :
    byteAt scanner.sql start = Byte.question ∨ byteAt scanner.sql start = Byte.dollar ∨
      byteAt scanner.sql start = Byte.colon ∨ byteAt scanner.sql start = Byte.at' := by
  obtain question | dollar | colon | at' := bindTokenAt_cases found
  · exact .inl (bindQuestionToken_some question).1
  · exact .inr (.inl (bindDollarToken_some dollar).1)
  · exact .inr (.inr (.inl (bindColonToken_some colon).2.1))
  · exact .inr (.inr (.inr (bindAtToken_some at').2.1))

/-- A scanner outside of executable comments that stands at a token reports this token. -/
theorem bindScannerNext_at {scanner : BindScanner} {token : BindToken} (outside : scanner.codeEnd = 0)
    (whole : scanner.length = scanner.sql.length)
    (unskipped : publicSkipQuotedOrComment scanner.dialect scanner.sql scanner.index = scanner.index)
    (found : bindTokenAt scanner scanner.index = some token) :
    ∃ next, bindScannerNext scanner = some (token, next) := by
  have first := bindTokenAt_first found
  have visible : isSpace (byteAt scanner.sql scanner.index) = false := by
    obtain first | first | first | first := first <;> (rw [first]; decide)
  have inStatement : byteAt scanner.sql scanner.index ≠ Byte.semicolon := by
    obtain first | first | first | first := first <;> (rw [first]; decide)
  have inside : scanner.index < scanner.length := by
    obtain ⟨-, starts, stops⟩ := bindTokenAt_some found
    omega
  have turn : scanner.turn =
      .finds token { scanner with index := token.stop, codeStart := scanner.passCode } := by
    unfold BindScanner.turn
    rw [if_neg (not_not.mpr inside), if_neg (fun leaves => leaves.1 outside),
      if_neg (Bool.not_eq_true _ ▸ visible), if_neg (fun separates => inStatement separates.2)]
    dsimp only
    rw [if_neg (not_not.mpr unskipped), found]
  rw [bindScannerNext]
  split
  next stops => rw [turn] at stops; cases stops
  next continues => rw [turn] at continues; cases continues
  next finds =>
    rw [turn] at finds
    cases finds
    exact ⟨_, rfl⟩

theorem bindTokenExact_of_found {dialect : Dialect} {sql : Text} {token : BindToken}
    (found : token.FoundIn (bindScannerInit dialect sql)) :
    bindTokenExact dialect sql sql.length token.start token.stop = some token := by
  obtain ⟨-, starts, stops⟩ := bindTokenAt_some found.recognised
  obtain ⟨next, reported⟩ := @bindScannerNext_at ⟨dialect, sql, sql.length, token.start, 0, 0, 0, 0, false⟩ token
    rfl rfl found.unskipped found.recognised
  have fits : token.stop ≤ sql.length := stops
  have terminated : byteAt sql sql.length = 0 := byteAt_of_le le_rfl
  unfold bindTokenExact
  rw [if_neg (Nat.not_le_of_lt starts), if_neg (by rw [terminated]; simpa using fits), reported]
  dsimp only
  rw [if_neg (by simp)]

theorem runEnd_slice_succ {accepts : UInt8 → Bool} {sql : Text} {start stop index position : Nat}
    (located : position = start + index) (ends : runEnd accepts sql (position + 1) ≤ stop) :
    start + runEnd accepts (slice sql start stop) (index + 1) = runEnd accepts sql (position + 1) := by
  subst located
  exact runEnd_slice ends

/-- A dotted name is read alike in a slice that contains it. -/
theorem bindOracleNameEnd_slice {sql : Text} {start stop index position : Nat} (located : position = start + index)
    (fits : stop ≤ sql.length) (inside : position < sql.length) (ends : bindOracleNameEnd sql position ≤ stop) :
    start + bindOracleNameEnd (slice sql start stop) index = bindOracleNameEnd sql position := by
  fun_induction bindOracleNameEnd sql position generalizing index with
  | case1 position partEnd continues =>
    rename_i inductionHypothesis
    have behind := lt_of_byteAt (bindOracleNameStart_ne_zero continues.2)
    have further := (bindOracleNameEnd_bounds behind).1
    have part := runEnd_slice_succ located
      (show runEnd bindOracleNameChar sql (position + 1) ≤ stop by omega)
    rw [bindOracleNameEnd, if_pos]
    · exact inductionHypothesis (by omega) behind ends
    · rw [byteAt_slice (by omega), byteAt_slice (by omega), ← Nat.add_assoc, part]
      exact continues
  | case2 position partEnd =>
    rename_i final
    have part := runEnd_slice_succ located ends
    rw [bindOracleNameEnd, if_neg, part]
    rintro ⟨isDot, starts⟩
    -- a name that went on in the slice would go on in the text
    have behind := lt_of_byteAt (bindOracleNameStart_ne_zero starts)
    rw [slice_length fits] at behind
    rw [byteAt_slice (by omega), part] at isDot
    rw [byteAt_slice (by omega), ← Nat.add_assoc, part] at starts
    exact final ⟨isDot, starts⟩

/-! When a token is recognised -/

section recognition

variable {scanner : BindScanner} {start stop : Nat}

theorem bindQuestionToken_none (other : byteAt scanner.sql start ≠ Byte.question) :
    bindQuestionToken scanner start = none :=
  if_pos (.inl other)

theorem bindDollarToken_none (other : byteAt scanner.sql start ≠ Byte.dollar) :
    bindDollarToken scanner start = none :=
  if_pos (.inl other)

theorem bindColonToken_none (other : byteAt scanner.sql start ≠ Byte.colon) :
    bindColonToken scanner start = none := by
  unfold bindColonToken
  split
  next => rfl
  next => exact if_pos (.inl other)

theorem bindQuestionToken_of (first : byteAt scanner.sql start = Byte.question)
    (foreign : scanner.dialect.usesPostgresqlPlaceholders = false) :
    bindQuestionToken scanner start = some ⟨start, start + 1, 0, 0, .positional⟩ :=
  if_neg (not_or.mpr ⟨not_not.mpr first, by simp [foreign]⟩)

theorem bindDollarToken_of (first : byteAt scanner.sql start = Byte.dollar)
    (low : 49 ≤ byteAt scanner.sql (start + 1)) (high : byteAt scanner.sql (start + 1) ≤ 57)
    (before : bindBoundaryBefore scanner.dialect scanner.sql start)
    (run : runEnd isDigit scanner.sql (start + 1) = stop) (digits : start + 1 < stop)
    (ends : publicCharIsIdent (byteAt scanner.sql stop) = false) (known : bindPublicDollar scanner.dialect) :
    bindDollarToken scanner start = some ⟨start, stop, start + 1, stop - start - 1, .positional⟩ := by
  unfold bindDollarToken
  dsimp only
  rw [run, if_neg, if_neg, if_neg]
  · simp [known]
  · simp only [ends, not_or]
    exact ⟨by decide, by omega⟩
  · simp only [not_or]
    exact ⟨not_not.mpr first, UInt8.not_lt.mpr low, UInt8.not_lt.mpr high, by simp [before]⟩

/-- What a colon must not have around it. -/
theorem bindColonToken_guard (first : byteAt scanner.sql start = Byte.colon)
    (noColon : byteAt scanner.sql (start + 1) ≠ Byte.colon) (noEquals : byteAt scanner.sql (start + 1) ≠ Byte.equals)
    (single : 0 < start → byteAt scanner.sql (start - 1) ≠ Byte.colon)
    (before : bindBoundaryBefore scanner.dialect scanner.sql start) :
    ¬ (byteAt scanner.sql start ≠ Byte.colon ∨ byteAt scanner.sql (start + 1) = Byte.colon ∨
      byteAt scanner.sql (start + 1) = Byte.equals ∨ (0 < start ∧ byteAt scanner.sql (start - 1) = Byte.colon) ∨
      !bindBoundaryBefore scanner.dialect scanner.sql start) := by
  simp only [not_or, not_not]
  exact ⟨first, noColon, noEquals, fun merged => single merged.1 merged.2, by simp [before]⟩

theorem bindColonToken_of_digits (known : scanner.dialect.isOracleOrDamengCompatible)
    (first : byteAt scanner.sql start = Byte.colon) (single : 0 < start → byteAt scanner.sql (start - 1) ≠ Byte.colon)
    (before : bindBoundaryBefore scanner.dialect scanner.sql start)
    (digit : isDigit (byteAt scanner.sql (start + 1)))
    (run : runEnd isDigit scanner.sql (start + 1) = stop)
    (ends : publicCharIsIdent (byteAt scanner.sql stop) = false) :
    bindColonToken scanner start = some ⟨start, stop, start + 1, stop - start - 1, .positional⟩ := by
  have guard := bindColonToken_guard first (fun same => absurd (same ▸ digit) (by decide))
    (fun same => absurd (same ▸ digit) (by decide)) single before
  unfold bindColonToken
  dsimp only
  rw [if_neg (by simp [known]), if_neg guard, if_pos digit, run, if_neg (by simp [ends])]

theorem bindColonToken_of_name (known : scanner.dialect.isOracleOrDamengCompatible)
    (first : byteAt scanner.sql start = Byte.colon) (single : 0 < start → byteAt scanner.sql (start - 1) ≠ Byte.colon)
    (before : bindBoundaryBefore scanner.dialect scanner.sql start)
    (noDigit : isDigit (byteAt scanner.sql (start + 1)) = false)
    (name : bindOracleNameStart (byteAt scanner.sql (start + 1)))
    (run : bindOracleNameEnd scanner.sql (start + 1) = stop)
    (ends : bindBoundaryAfter scanner.dialect scanner.sql stop) :
    bindColonToken scanner start = some ⟨start, stop, start + 1, stop - start - 1, .named⟩ := by
  have guard := bindColonToken_guard first (fun same => absurd (same ▸ name) (by decide))
    (fun same => absurd (same ▸ name) (by decide)) single before
  unfold bindColonToken
  dsimp only
  rw [if_neg (by simp [known]), if_neg guard, if_neg (by simp [noDigit]), if_pos name, run, if_neg (by simp [ends])]

theorem bindAtToken_of (known : scanner.dialect.isSqlserverCompatible)
    (first : byteAt scanner.sql start = Byte.at') (atStart : start = 0)
    (name : sqlserverIsIdentStart (byteAt scanner.sql (start + 1)) ∨ isDigit (byteAt scanner.sql (start + 1)))
    (run : runEnd sqlserverIsIdentChar scanner.sql (start + 2) = stop)
    (ends : bindBoundaryAfter scanner.dialect scanner.sql stop) :
    bindAtToken scanner start = some ⟨start, stop, start + 1, stop - start - 1, .named⟩ := by
  unfold bindAtToken
  dsimp only
  rw [if_neg (by simp [known]), if_neg, run, if_neg (by simp [ends])]
  simp only [not_or, not_not]
  refine ⟨first, fun same => absurd (same ▸ name) (by decide), ?_, by simp [bindBoundaryBefore, atStart]⟩
  rintro ⟨noStart, noDigit⟩
  cases name with
  | inl starts => simp [starts] at noStart
  | inr digit => simp [digit] at noDigit

end recognition

/-! A token that stands by itself: nothing is before it, and the terminating NUL is behind it. -/

section slices

variable {dialect : Dialect} {sql : Text} {start : Nat} {token : BindToken}

theorem byteAt_slice_first (found : bindTokenAt (bindScannerInit dialect sql) start = some token) :
    byteAt (slice sql start token.stop) 0 = byteAt sql start :=
  byteAt_slice (bindTokenAt_some found).2.1

theorem byteAt_slice_end (fits : token.stop ≤ sql.length) :
    byteAt (slice sql start token.stop) (token.stop - start) = 0 :=
  byteAt_of_le (slice_length fits).le

theorem boundaryAfter_end {text : Text} {stop : Nat} (ends : byteAt text stop = 0) :
    bindBoundaryAfter dialect text stop := by
  unfold bindBoundaryAfter
  dsimp only
  rw [ends]
  cases dialect <;> decide

theorem runEnd_slice_token {accepts : UInt8 → Bool} {offset : Nat}
    (run : token.stop = runEnd accepts sql (start + offset)) :
    runEnd accepts (slice sql start token.stop) offset = token.stop - start := by
  have := runEnd_slice run.ge
  omega

theorem bindDollarToken_slice (found : bindDollarToken (bindScannerInit dialect sql) start = some token) :
    bindDollarToken (bindScannerInit dialect (slice sql start token.stop)) 0 =
      some ⟨0, token.stop - start, token.keyStart - start, token.keyLength, token.kind⟩ := by
  obtain ⟨first, low, high, digits, run, known, whole⟩ := bindDollarToken_some found
  rw [bindScannerInit_sql] at first low high run
  have fits : token.stop ≤ sql.length := run ▸ runEnd_le _ (lt_of_byteAt (first.trans_ne (by decide)))
  have second := @byteAt_slice sql start token.stop 1 digits
  have isPublic : bindPublicDollar dialect :=
    known.resolve_right (by simp [BindScanner.markerAccepts, bindScannerInit])
  have ends : publicCharIsIdent (byteAt (slice sql start token.stop) (token.stop - start)) = false := by
    rw [byteAt_slice_end fits]
    decide
  have sliced := @bindDollarToken_of (bindScannerInit dialect (slice sql start token.stop)) 0 (token.stop - start)
    ((byteAt_slice (by omega)).trans first) (low.trans_eq second.symm) (second.trans_le high) rfl
    (runEnd_slice_token run) (by omega) ends isPublic
  rw [sliced, whole]
  simp

theorem bindColonToken_slice (found : bindColonToken (bindScannerInit dialect sql) start = some token) :
    bindColonToken (bindScannerInit dialect (slice sql start token.stop)) 0 =
      some ⟨0, token.stop - start, token.keyStart - start, token.keyLength, token.kind⟩ := by
  obtain ⟨known, first, shape, whole⟩ := bindColonToken_some found
  rw [bindScannerInit_sql] at first shape
  have inside := lt_of_byteAt (first.trans_ne (by decide))
  obtain ⟨digit, kind, run⟩ | ⟨noDigit, name, kind, run⟩ := shape
  · have fits : token.stop ≤ sql.length := run ▸ runEnd_le _ inside
    have grows : start + 1 < token.stop := by
      have := le_runEnd isDigit sql (start + 1 + 1)
      rw [run, runEnd_unfold _ _ _ (by decide), if_pos digit]
      omega
    have second := @byteAt_slice sql start token.stop 1 grows
    have ends : publicCharIsIdent (byteAt (slice sql start token.stop) (token.stop - start)) = false := by
      rw [byteAt_slice_end fits]
      decide
    have sliced := @bindColonToken_of_digits (bindScannerInit dialect (slice sql start token.stop)) 0
      (token.stop - start) known ((byteAt_slice (by omega)).trans first) (by simp) rfl (by rw [← digit]; exact congrArg _ second)
      (runEnd_slice_token run) ends
    rw [sliced, whole, kind]
    simp
  · have bounds := bindOracleNameEnd_bounds (lt_of_byteAt (bindOracleNameStart_ne_zero name))
    rw [← run] at bounds
    have second := @byteAt_slice sql start token.stop 1 bounds.1
    have nameRun := bindOracleNameEnd_slice rfl bounds.2 (by omega) run.ge
    have sliced := @bindColonToken_of_name (bindScannerInit dialect (slice sql start token.stop)) 0
      (token.stop - start) known ((byteAt_slice (by omega)).trans first) (by simp) rfl
      (by rw [← noDigit]; exact congrArg _ second) (by rw [← name]; exact congrArg _ second)
      (by change bindOracleNameEnd (slice sql start token.stop) 1 = _; omega)
      (boundaryAfter_end (byteAt_slice_end bounds.2))
    rw [sliced, whole, kind]
    simp

theorem bindAtToken_slice (found : bindAtToken (bindScannerInit dialect sql) start = some token) :
    bindAtToken (bindScannerInit dialect (slice sql start token.stop)) 0 =
      some ⟨0, token.stop - start, token.keyStart - start, token.keyLength, token.kind⟩ := by
  obtain ⟨known, first, name, run, whole⟩ := bindAtToken_some found
  obtain ⟨-, -, fits⟩ := bindTokenAt_some (show bindTokenAt (bindScannerInit dialect sql) start = some token by
    rw [bindTokenAt, bindQuestionToken_none (first.trans_ne (by decide)),
      bindDollarToken_none (first.trans_ne (by decide)), bindColonToken_none (first.trans_ne (by decide)), found]
    rfl)
  rw [bindScannerInit_sql] at first name run fits
  have grows : start + 1 < token.stop := by
    have := le_runEnd sqlserverIsIdentChar sql (start + 2)
    omega
  have second := @byteAt_slice sql start token.stop 1 grows
  have sliced := @bindAtToken_of (bindScannerInit dialect (slice sql start token.stop)) 0 (token.stop - start)
    known ((byteAt_slice (by omega)).trans first) rfl (by rw [← second] at name; exact name)
    (runEnd_slice_token run) (boundaryAfter_end (byteAt_slice_end fits))
  rw [sliced, whole]
  simp

/-- A token that needs no marker is recognised in the slice that it covers. -/
theorem bindTokenAt_slice (found : bindTokenAt (bindScannerInit dialect sql) start = some token) :
    bindTokenAt (bindScannerInit dialect (slice sql start token.stop)) 0 =
      some ⟨0, token.stop - start, token.keyStart - start, token.keyLength, token.kind⟩ := by
  have first := byteAt_slice_first found
  obtain question | dollar | colon | at' := bindTokenAt_cases found
  · obtain ⟨starts, foreign, whole⟩ := bindQuestionToken_some question
    have sliced := @bindQuestionToken_of (bindScannerInit dialect (slice sql start token.stop)) 0
      (first.trans starts) foreign
    rw [bindTokenAt, sliced, whole]
    simp
  · have starts := first.trans (bindDollarToken_some dollar).1
    rw [bindTokenAt, bindQuestionToken_none (starts.trans_ne (by decide)), bindDollarToken_slice dollar]
    rfl
  · have starts := first.trans (bindColonToken_some colon).2.1
    rw [bindTokenAt, bindQuestionToken_none (starts.trans_ne (by decide)),
      bindDollarToken_none (starts.trans_ne (by decide)), bindColonToken_slice colon]
    rfl
  · have starts := first.trans (bindAtToken_some at').2.1
    rw [bindTokenAt, bindQuestionToken_none (starts.trans_ne (by decide)),
      bindDollarToken_none (starts.trans_ne (by decide)), bindColonToken_none (starts.trans_ne (by decide)),
      bindAtToken_slice at']
    rfl

/-- The digits of a dollar token would be a tag, but no dollar closes it. -/
theorem publicSkipDollarQuote_slice (found : bindDollarToken (bindScannerInit dialect sql) start = some token) :
    publicSkipDollarQuote (slice sql start token.stop) 0 = 0 := by
  obtain ⟨first, -, -, digits, run, -, -⟩ := bindDollarToken_some found
  rw [bindScannerInit_sql] at first run
  have fits : token.stop ≤ sql.length := run ▸ runEnd_le _ (lt_of_byteAt (first.trans_ne (by decide)))
  have tag := runEnd_mono (slice sql start token.stop) 1
    (show ∀ byte, isDigit byte → publicDollarTagCharIsIdent byte by
      intro byte digit
      simp [publicDollarTagCharIsIdent, isAlnum, digit])
  rw [runEnd_slice_token run, ← slice_length fits] at tag
  unfold publicSkipDollarQuote
  dsimp only
  rw [if_pos (byteAt_of_le _ |>.trans_ne (by decide)), ite_self]
  exact tag

/-- No quoted item or comment hides a token that stands by itself. -/
theorem publicSkip_slice (found : bindTokenAt (bindScannerInit dialect sql) start = some token) :
    publicSkipQuotedOrComment dialect (slice sql start token.stop) 0 = 0 := by
  have first := byteAt_slice_first found
  obtain question | dollar | colon | at' := bindTokenAt_cases found
  · have starts := first.trans (bindQuestionToken_some question).1
    simp only [publicSkipQuotedOrComment, starts]
    rfl
  · have starts := first.trans (bindDollarToken_some dollar).1
    unfold publicSkipQuotedOrComment
    dsimp only
    rw [if_pos starts]
    split
    next => exact publicSkipDollarQuote_slice dollar
    next => rfl
  · have starts := first.trans (bindColonToken_some colon).2.1
    simp only [publicSkipQuotedOrComment, starts]
    rfl
  · have starts := first.trans (bindAtToken_some at').2.1
    simp only [publicSkipQuotedOrComment, starts]
    rfl

end slices

theorem bindTokenExact_slice {dialect : Dialect} {sql : Text} {token : BindToken}
    (found : token.FoundIn (bindScannerInit dialect sql)) :
    bindTokenExact dialect (slice sql token.start token.stop) (token.stop - token.start) 0
        (token.stop - token.start) =
      some ⟨0, token.stop - token.start, token.keyStart - token.start, token.keyLength, token.kind⟩ := by
  obtain ⟨-, starts, stops⟩ := bindTokenAt_some found.recognised
  have size : (slice sql token.start token.stop).length = token.stop - token.start := slice_length stops
  have exact := @bindTokenExact_of_found dialect (slice sql token.start token.stop)
    ⟨0, token.stop - token.start, token.keyStart - token.start, token.keyLength, token.kind⟩
    ⟨bindTokenAt_slice found.recognised, publicSkip_slice found.recognised⟩
  rw [size] at exact
  exact exact

end SqlParser.Core
