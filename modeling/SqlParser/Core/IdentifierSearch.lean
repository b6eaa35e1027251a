import SqlParser.Core.IdentifierOrigin
import SqlParser.Core.SourceIdentifierMeaning

/-! # The search for an identifier

The resolver looks for an identifier of the tree from its cursor on. It passes over trivia, binds,
strings and numbers; under an audit it passes over words of the syntax alone, and where such a word
reads as the identifier itself it probes for a later one first. A token of the parser's text is
checked against the source that it comes from.
-/

namespace SqlParser.Core.Source

/-- The resolver that `origin_source` points to, as far as an origin is checked with it. -/
structure OriginSource where
  sql : Text
  lexer : Lexer

/-- The members of `sqlparser_identifier_resolver_t` that a search reads, with those of its handle and the
keywords of the deparser. `sql` is the text up to `length`. -/
structure Resolver where
  sql : Text
  lexer : Lexer
  colonBinds : Bool
  atBinds : Bool
  topKeyword : Bool
  locationsMatch : Bool
  keywordMatch : Bool
  auditIdentifiers : Bool
  origins : Option OriginMap
  originSource : Option OriginSource
  dialect : Dialect
  generation : Nat
  isKeyword : Text → Bool

/-! ## What a search passes over -/

def isHexDigit (byte : UInt8) : Bool :=
  (hexValue byte).isSome

/-- The fraction of a number. -/
def skipFraction (rest : Text) : Text :=
  if rest.head? = some Byte.dot then (rest.drop 1).dropWhile isDigit else rest

/-- The sign of an exponent. -/
def skipSign (rest : Text) : Text :=
  if rest.head? = some plus ∨ rest.head? = some Byte.dash then rest.drop 1 else rest

/-- The exponent of a number, unless its digits are missing. -/
def skipExponent (rest : Text) : Text :=
  if rest.head?.any (isLetter 101) ∧ (skipSign (rest.drop 1)).head?.any isDigit then (skipSign (rest.drop 1)).dropWhile isDigit
  else rest

/-- `sqlparser_skip_number` -/
def skipNumber (rest : Text) : Text :=
  if rest.head? = some 48 ∧ (rest.drop 1).head?.any (fun byte => isLetter 120 byte || isLetter 98 byte) then
    (rest.drop 2).dropWhile isHexDigit
  else skipExponent (skipFraction (rest.dropWhile isDigit))

section searching

variable (resolver : Resolver)

/-- A bind that opens with a colon. -/
def skipColonBind : Text → Option Text
  | colon :: more =>
    if resolver.colonBinds && colon = Byte.colon then
      if more.head?.any isIdentifierStart then some (identifierEnd more)
      else if more.head?.any isDigit then some (more.dropWhile isDigit)
      else if more.head? = some Byte.doubleQuote then some (quotedIdentifierEnd Byte.doubleQuote (more.drop 1))
      else none
    else none
  | [] => none

def isVariablePart (byte : UInt8) : Bool :=
  isIdentifierPart byte || resolver.lexer.mysqlLex && byte = Byte.dot

/-- A variable or a bind behind one or two at signs. -/
def skipAtBind : Text → Option Text
  | sign :: more =>
    if resolver.atBinds && sign = Byte.at' then
      match if more.head? = some Byte.at' then more.drop 1 else more with
      | mark :: behind =>
        if mark = Byte.quote || resolver.lexer.mysqlLex && mark = Byte.doubleQuote then
          some (skipQuotedString mark resolver.lexer.mysqlLex behind)
        else if mark = Byte.doubleQuote || mark = Byte.backtick then some (quotedIdentifierEnd mark behind)
        else if isVariablePart resolver mark then some (behind.dropWhile (isVariablePart resolver))
        else none
      | [] => none
    else none
  | [] => none

/-- A string with or without letters in front of its quote. -/
def skipString : Text → Option Text
  | first :: more =>
    if first = Byte.quote || resolver.lexer.mysqlLex && first = Byte.doubleQuote then
      some (skipQuotedString first resolver.lexer.mysqlLex more)
    else if isLetter 117 first && more.head? = some 38 && (more.drop 1).head? = some Byte.quote then
      some (skipQuotedString Byte.quote false (more.drop 2))
    else if isLetter 101 first && more.head? = some Byte.quote then some (skipQuotedString Byte.quote true (more.drop 1))
    else if isLetter 110 first || isLetter 98 first || isLetter 120 first then
      match more with
      | mark :: behind =>
        if mark = Byte.quote || resolver.lexer.mysqlLex && mark = Byte.doubleQuote then
          some (skipQuotedString mark resolver.lexer.mysqlLex behind)
        else none
      | [] => none
    else none
  | [] => none

/-- The branches of a turn before an identifier is tried. -/
def skipUnnamed (rest : Text) : Option Text :=
  (if resolver.lexer.oracleQQuotes then skipOracleQQuoted rest else none) <|>
    skipColonBind resolver rest <|>
    skipAtBind resolver rest <|>
    skipString resolver rest <|>
    skipIntroducedString resolver.lexer rest <|>
    (if rest.head?.any isDigit then some (skipNumber rest) else none) <|>
    (dollarDelimiter rest).map fun delimiter => (behindDelimiter delimiter (rest.drop delimiter.length)).getD []

/-- `sqlparser_source_word_is_syntax_keyword` of a token that is not quoted. -/
def isSyntaxWord (token after : Text) : Bool :=
  !token.head?.any opensQuoted && token ≠ after &&
    (resolver.isKeyword (tokenOf token after) || resolver.topKeyword && (tokenOf token after).map toLower = ascii "top")

/-! ## Identifiers and where they come from -/

/-- What `sqlparser_source_identifier_at` sees: no identifier, a token that its origin does not bear out, which
fails the audit, or the identifier, with what stands behind it and the spelling that is handed out. -/
inductive Sighting where
  | absent
  | unproven
  | seen (after spelling : Text)
  deriving DecidableEq, Repr

/-- `sqlparser_sqlserver_generated_identifier_spelling` -/
def generatedSpelling (identifier : Text) : Option Text :=
  let marker := ascii "sqlparser_sqlserver_partition_prefix:"
  let spelling := identifier.drop marker.length
  if identifier.take marker.length = marker ∧ spelling.map toLower = ascii "$partition" then some spelling else none

/-- `sqlparser_unquoted_identifier_matches_ascii_ci` -/
def matchesIgnoringCase (token identifier : Text) : Bool :=
  (token.length = identifier.length || identifier.length = 63 && identifier.length < token.length) &&
    (token.take identifier.length).map toLower = identifier.map toLower

/-- `sqlparser_resolve_identifier_origin` of a token of the text. -/
def resolveOrigin (identifier token after : Text) : Sighting :=
  match resolver.origins with
  | none => .seen after (tokenOf token after)
  | some map =>
    let start := offsetOf resolver.sql token
    let origin := originLookup (some map) start (offsetOf resolver.sql after - start)
    match origin.kind, resolver.originSource with
    -- nothing of the source stands behind a token of the rewriting
    | .generated, _ =>
      .seen after (if resolver.dialect.isSqlserverCompatible then (generatedSpelling identifier).getD (tokenOf token after)
        else tokenOf token after)
    | .source, some source =>
      if origin.sourceOffset > source.sql.length ∨ origin.sourceLength > source.sql.length - origin.sourceOffset then .unproven
      else
        let written := source.sql.drop origin.sourceOffset
        match sourceIdentifierAt source.lexer written identifier with
        -- the identifier of the source has to end where the origin does
        | some behind => if offsetOf written behind = origin.sourceLength then .seen after (tokenOf written behind) else .unproven
        | none => .unproven
    | _, _ => .unproven

/-- `sqlparser_source_identifier_at` with `keyword_match`. -/
def keywordAt (rest identifier : Text) : Sighting :=
  let after := identifierEnd rest
  if opensUampIdentifier rest || rest.head?.any opensQuoted then .absent
  else if after ≠ rest ∧ matchesIgnoringCase (tokenOf rest after) identifier then .seen after (tokenOf rest after)
  else .absent

/-- `sqlparser_source_identifier_at` -/
def identifierAt (rest identifier : Text) : Sighting :=
  if resolver.keywordMatch then keywordAt rest identifier
  else
    match sourceIdentifierAt resolver.lexer rest identifier with
    | some after => resolveOrigin resolver identifier rest after
    | none => .absent

/-- The bytes at which a search for a keyword gives up. -/
def endsKeywords (byte : UInt8) : Bool :=
  (ascii ",;()=").contains byte

/-! ## The search -/

/-- What a turn of the search finds, and whether it fails the audit. -/
inductive Turn where
  | stop (unproven : Bool)
  | next (rest : Text) (unproven : Bool)
  | found (token after spelling : Text)
  deriving DecidableEq, Repr

/-- One turn of the loop of `sqlparser_resolve_identifier_forward_at`, up to the probe. -/
def searchTurn (identifier rest : Text) : Turn :=
  match skipTrivia resolver.lexer rest with
  | [] => .stop false
  | first :: more =>
    if resolver.keywordMatch && endsKeywords first then .stop false
    else
      match skipUnnamed resolver (first :: more) with
      | some behind => .next behind false
      | none =>
        match identifierAt resolver (first :: more) identifier with
        | .seen after spelling => .found (first :: more) after spelling
        | sighting =>
          let unproven := sighting = .unproven
          if isIdentifier (first :: more) then
            let after := sourceIdentifierEnd resolver.lexer (first :: more)
            -- an audit does not pass over a name
            if resolver.auditIdentifiers && !isSyntaxWord resolver (first :: more) after then .stop unproven
            else if after ≠ first :: more then .next after unproven
            else if resolver.auditIdentifiers then .stop unproven
            else .next more unproven
          else .next more unproven

/-! ## Every turn moves on -/

theorem skipFraction_suffix (rest : Text) : skipFraction rest <:+ rest := by
  unfold skipFraction
  split
  · exact (List.dropWhile_suffix _).trans (List.drop_suffix 1 rest)
  · exact List.suffix_refl rest

theorem skipSign_suffix (rest : Text) : skipSign rest <:+ rest := by
  unfold skipSign
  split
  · exact List.drop_suffix 1 rest
  · exact List.suffix_refl rest

theorem skipExponent_suffix (rest : Text) : skipExponent rest <:+ rest := by
  unfold skipExponent
  split
  · exact (List.dropWhile_suffix _).trans ((skipSign_suffix _).trans (List.drop_suffix 1 rest))
  · exact List.suffix_refl rest

theorem skipNumber_behind {rest : Text} (starts : rest.head?.any isDigit = true) : skipNumber rest <:+ rest.drop 1 := by
  cases rest with
  | nil => cases starts
  | cons first more =>
    unfold skipNumber
    split
    · exact (List.dropWhile_suffix _).trans (List.drop_suffix 1 more)
    · refine (skipExponent_suffix _).trans ((skipFraction_suffix _).trans ?_)
      rw [List.dropWhile_cons_of_pos (by simpa using starts)]
      exact List.dropWhile_suffix _

theorem skipColonBind_behind {rest behind : Text} (skipped : skipColonBind resolver rest = some behind) : behind <:+ rest.drop 1 := by
  unfold skipColonBind at skipped
  split at skipped
  next colon more =>
    split at skipped
    · split at skipped
      · cases skipped
        exact identifierEnd_suffix more
      split at skipped
      · cases skipped
        exact List.dropWhile_suffix _
      split at skipped
      · cases skipped
        exact (skipQuotedString_closed _ _ _).suffix.trans (List.drop_suffix 1 more)
      · cases skipped
    · cases skipped
  · cases skipped

theorem skipAtBind_behind {rest behind : Text} (skipped : skipAtBind resolver rest = some behind) : behind <:+ rest.drop 1 := by
  unfold skipAtBind at skipped
  split at skipped
  next sign more =>
    split at skipped
    · split at skipped
      next mark named isNamed =>
        have suffix : mark :: named <:+ more := by
          rw [← isNamed]
          split
          · exact List.drop_suffix 1 more
          · exact List.suffix_refl more
        have behindMark : named <:+ more := (List.suffix_cons _ _).trans suffix
        split at skipped
        · cases skipped
          exact (skipQuotedString_closed _ _ _).suffix.trans behindMark
        split at skipped
        · cases skipped
          exact (skipQuotedString_closed _ _ _).suffix.trans behindMark
        split at skipped
        · cases skipped
          exact (List.dropWhile_suffix _).trans behindMark
        · cases skipped
      · cases skipped
    · cases skipped
  · cases skipped

theorem skipString_behind {rest behind : Text} (skipped : skipString resolver rest = some behind) : behind <:+ rest.drop 1 := by
  unfold skipString at skipped
  split at skipped
  next first more =>
    split at skipped
    · cases skipped
      exact (skipQuotedString_closed _ _ _).suffix
    split at skipped
    · cases skipped
      exact (skipQuotedString_closed _ _ _).suffix.trans (List.drop_suffix 2 more)
    split at skipped
    · cases skipped
      exact (skipQuotedString_closed _ _ _).suffix.trans (List.drop_suffix 1 more)
    split at skipped
    · split at skipped
      · split at skipped
        · cases skipped
          exact (skipQuotedString_closed _ _ _).suffix.trans (List.suffix_cons _ _)
        · cases skipped
      · cases skipped
    · cases skipped
  · cases skipped

theorem dollarQuoted_behind {rest behind : Text}
    (skipped : ((dollarDelimiter rest).map fun delimiter => (behindDelimiter delimiter (rest.drop delimiter.length)).getD []) =
      some behind) : behind <:+ rest.drop 1 := by
  obtain ⟨delimiter, isDelimiter, isBehind⟩ := Option.map_eq_some_iff.mp skipped
  obtain ⟨tag, rfl⟩ := dollarDelimiter_eq isDelimiter
  rw [← isBehind]
  cases searched : behindDelimiter (Byte.dollar :: tag ++ [Byte.dollar]) (rest.drop (Byte.dollar :: tag ++ [Byte.dollar]).length) with
  | none => exact List.nil_suffix
  | some tail =>
    obtain ⟨front, isRest⟩ := behindDelimiter_split searched
    have suffix : tail <:+ rest.drop (Byte.dollar :: tag ++ [Byte.dollar]).length :=
      ⟨front ++ (Byte.dollar :: tag ++ [Byte.dollar]), by rw [isRest, List.append_assoc]⟩
    refine suffix.trans ?_
    rw [List.length_append, List.length_cons, List.length_singleton, show tag.length + 1 + 1 = 1 + (tag.length + 1) by omega,
      ← List.drop_drop]
    exact List.drop_suffix _ _

theorem skipUnnamed_behind {rest behind : Text} (skipped : skipUnnamed resolver rest = some behind) : behind <:+ rest.drop 1 := by
  unfold skipUnnamed at skipped
  rw [Option.orElse_eq_some, Option.orElse_eq_some, Option.orElse_eq_some, Option.orElse_eq_some, Option.orElse_eq_some,
    Option.orElse_eq_some] at skipped
  rcases skipped with qQuoted | ⟨-, colon | ⟨-, sign | ⟨-, string | ⟨-, introduced | ⟨-, number | ⟨-, dollar⟩⟩⟩⟩⟩⟩
  · split at qQuoted
    · exact (skipOracleQQuoted_closed qQuoted).suffix
    · cases qQuoted
  · exact skipColonBind_behind resolver colon
  · exact skipAtBind_behind resolver sign
  · exact skipString_behind resolver string
  · obtain ⟨closing, -, closed⟩ := skipIntroducedString_closed resolver.lexer introduced
    exact closed.suffix
  · split at number
    next starts =>
      cases number
      exact skipNumber_behind starts
    · cases number
  · exact dollarQuoted_behind dollar

theorem suffix_behind {first : UInt8} {more after : Text} (suffix : after <:+ first :: more) (moved : after ≠ first :: more) :
    after <:+ more :=
  (List.suffix_cons_iff.mp suffix).resolve_left moved

theorem uampSpanEnd_suffix (lexer : Lexer) (rest : Text) :
    uampIdentifierSpanEnd lexer (quotedIdentifierEnd Byte.doubleQuote rest) <:+ rest := by
  obtain ⟨closing, -, closed⟩ := uampIdentifierSpanEnd_closed lexer (skipQuotedString_closed Byte.doubleQuote false rest)
  exact closed.suffix

theorem sourceIdentifierAt_behind {lexer : Lexer} {rest identifier after : Text}
    (found : sourceIdentifierAt lexer rest identifier = some after) : after <:+ rest.drop 1 := by
  unfold sourceIdentifierAt at found
  split at found
  · dsimp only at found
    split at found
    · cases found
      exact (uampSpanEnd_suffix lexer _).trans (by rw [← List.drop_drop (i := 2) (j := 1)]; exact List.drop_suffix 2 _)
    · cases found
  · split at found
    · cases found
    next first more =>
      split at found
      · dsimp only at found
        split at found
        · cases found
          exact (skipQuotedString_closed _ _ _).suffix
        · cases found
      · dsimp only at found
        split at found
        · cases found
        next moved =>
          split at found
          · cases found
            exact suffix_behind (identifierEnd_suffix _) moved
          · cases found

theorem sourceIdentifierEnd_suffix (lexer : Lexer) (rest : Text) : sourceIdentifierEnd lexer rest <:+ rest := by
  unfold sourceIdentifierEnd
  split
  · exact (uampSpanEnd_suffix lexer _).trans (List.drop_suffix 3 rest)
  · split
    next first more =>
      split
      · exact (skipQuotedString_closed _ _ _).suffix.trans (List.suffix_cons _ _)
      · split
        · exact (skipQuotedString_closed _ _ _).suffix.trans (List.suffix_cons _ _)
        · exact identifierEnd_suffix _
    · exact List.suffix_refl _

theorem resolveOrigin_seen {identifier token after behind spelling : Text}
    (seen : resolveOrigin resolver identifier token after = .seen behind spelling) : behind = after := by
  unfold resolveOrigin at seen
  split at seen
  · cases seen
    rfl
  · dsimp only at seen
    split at seen
    · cases seen
      rfl
    · split at seen
      · cases seen
      · split at seen
        · split at seen
          · cases seen
            rfl
          · cases seen
        · cases seen
    · cases seen

/-- What is seen is an identifier of the text, or a word that is looked for as a keyword. -/
theorem identifierAt_seen {rest identifier after spelling : Text}
    (seen : identifierAt resolver rest identifier = .seen after spelling) :
    (resolver.keywordMatch = true ∧ keywordAt rest identifier = .seen after spelling) ∨
      (resolver.keywordMatch = false ∧ sourceIdentifierAt resolver.lexer rest identifier = some after ∧
        resolveOrigin resolver identifier rest after = .seen after spelling) := by
  unfold identifierAt at seen
  split at seen
  next mode => exact .inl ⟨mode, seen⟩
  next mode =>
    split at seen
    next behind reads =>
      obtain rfl := resolveOrigin_seen resolver seen
      exact .inr ⟨eq_false_of_ne_true mode, reads, seen⟩
    · cases seen

theorem keywordAt_seen {rest identifier after spelling : Text} (seen : keywordAt rest identifier = .seen after spelling) :
    after = identifierEnd rest ∧ after ≠ rest ∧ matchesIgnoringCase (tokenOf rest after) identifier = true ∧
      opensUampIdentifier rest = false ∧ rest.head?.any opensQuoted = false ∧ spelling = tokenOf rest after := by
  unfold keywordAt at seen
  dsimp only at seen
  split_ifs at seen with quoted word
  cases seen
  rw [Bool.not_eq_true, Bool.or_eq_false_iff] at quoted
  exact ⟨rfl, word.1, word.2, quoted.1, quoted.2, rfl⟩

theorem identifierAt_behind {rest identifier after spelling : Text}
    (seen : identifierAt resolver rest identifier = .seen after spelling) : after <:+ rest.drop 1 := by
  rcases identifierAt_seen resolver seen with ⟨-, word⟩ | ⟨-, reads, -⟩
  · obtain ⟨rfl, moved, -⟩ := keywordAt_seen word
    cases rest with
    | nil => exact absurd rfl moved
    | cons first more => exact suffix_behind (identifierEnd_suffix _) moved
  · exact sourceIdentifierAt_behind reads

/-- What a turn of the search can do. -/
theorem searchTurn_cases (identifier rest : Text) :
    (∃ unproven, searchTurn resolver identifier rest = .stop unproven) ∨
      (∃ behind unproven, searchTurn resolver identifier rest = .next behind unproven ∧ behind <:+ rest ∧
        behind.length < rest.length) ∨
      ∃ first more after spelling, searchTurn resolver identifier rest = .found (first :: more) after spelling ∧
        first :: more <:+ rest ∧ identifierAt resolver (first :: more) identifier = .seen after spelling ∧
        after.length < rest.length := by
  have trivia := skipTrivia_suffix resolver.lexer rest
  unfold searchTurn
  cases isToken : skipTrivia resolver.lexer rest with
  | nil => exact .inl ⟨_, rfl⟩
  | cons first more =>
    rw [isToken] at trivia
    have shorter {behind : Text} (suffix : behind <:+ more) : behind <:+ rest ∧ behind.length < rest.length :=
      ⟨(suffix.trans (List.suffix_cons _ _)).trans trivia,
        Nat.lt_of_lt_of_le (Nat.lt_succ_of_le suffix.length_le) trivia.length_le⟩
    dsimp only
    by_cases gives : (resolver.keywordMatch && endsKeywords first) = true
    · exact .inl ⟨_, if_pos gives⟩
    rw [if_neg gives]
    cases skipped : skipUnnamed resolver (first :: more) with
    | some behind => exact .inr (.inl ⟨behind, _, rfl, shorter (skipUnnamed_behind resolver skipped)⟩)
    | none =>
      dsimp only
      -- A token that its origin does not bear out is passed over like one that is no identifier.
      have passed (unproven : Bool) (turn : Turn) (isTurn : turn =
          if isIdentifier (first :: more) then
            if resolver.auditIdentifiers && !isSyntaxWord resolver (first :: more)
                (sourceIdentifierEnd resolver.lexer (first :: more)) then .stop unproven
            else if sourceIdentifierEnd resolver.lexer (first :: more) ≠ first :: more then
              .next (sourceIdentifierEnd resolver.lexer (first :: more)) unproven
            else if resolver.auditIdentifiers then .stop unproven
            else .next more unproven
          else .next more unproven) :
          (∃ unproven, turn = .stop unproven) ∨
            ∃ behind unproven, turn = .next behind unproven ∧ behind <:+ rest ∧ behind.length < rest.length := by
        subst isTurn
        split_ifs with identifies refused moved audit
        · exact .inl ⟨_, rfl⟩
        · exact .inr ⟨_, _, rfl, shorter (suffix_behind (sourceIdentifierEnd_suffix _ _) moved)⟩
        · exact .inl ⟨_, rfl⟩
        · exact .inr ⟨more, _, rfl, shorter (List.suffix_refl more)⟩
        · exact .inr ⟨more, _, rfl, shorter (List.suffix_refl more)⟩
      cases found : identifierAt resolver (first :: more) identifier with
      | seen after spelling =>
        exact .inr (.inr ⟨first, more, after, spelling, rfl, trivia, found, (shorter (identifierAt_behind resolver found)).2⟩)
      | absent => exact (passed _ _ rfl).imp_right .inl
      | unproven => exact (passed _ _ rfl).imp_right .inl

theorem searchTurn_next {identifier rest behind : Text} {unproven : Bool}
    (turn : searchTurn resolver identifier rest = .next behind unproven) :
    behind <:+ rest ∧ behind.length < rest.length := by
  rcases searchTurn_cases resolver identifier rest with
    ⟨_, stop⟩ | ⟨next, _, isNext, shorter⟩ | ⟨first, more, after, spelling, isFound, -⟩
  · rw [turn] at stop
    cases stop
  · rw [turn] at isNext
    cases isNext
    exact shorter
  · rw [turn] at isFound
    cases isFound

theorem searchTurn_found {identifier rest token after spelling : Text}
    (turn : searchTurn resolver identifier rest = .found token after spelling) :
    token <:+ rest ∧ identifierAt resolver token identifier = .seen after spelling ∧ after.length < rest.length := by
  rcases searchTurn_cases resolver identifier rest with
    ⟨_, stop⟩ | ⟨next, _, isNext, -⟩ | ⟨first, more, behind, spelling, isFound, found⟩
  · rw [turn] at stop
    cases stop
  · rw [turn] at isNext
    cases isNext
  · rw [turn] at isFound
    cases isFound
    exact found

/-- A token that is seen, what stands behind it, and its spelling. -/
structure Candidate where
  token : Text
  after : Text
  spelling : Text
  deriving DecidableEq, Repr

/-- What a search finds, and whether it failed the audit. -/
structure Search where
  result : Option Candidate
  unproven : Bool
  deriving DecidableEq, Repr

/-- `sqlparser_resolve_identifier_forward_at` before the identifier is consumed. The probe is the same search
on a copy of the resolver, which keeps a failed audit to itself. -/
def searchForward (identifier rest : Text) : Search :=
  match _turn : searchTurn resolver identifier rest with
  | .stop unproven => ⟨none, unproven⟩
  | .next behind unproven =>
    let later := searchForward identifier behind
    ⟨later.result, unproven || later.unproven⟩
  | .found token after spelling =>
    let later := searchForward identifier after
    if resolver.auditIdentifiers && isSyntaxWord resolver token after && later.result.isSome then later
    else ⟨some ⟨token, after, spelling⟩, false⟩
termination_by rest.length
decreasing_by
  · exact (searchTurn_next resolver _turn).2
  · exact (searchTurn_found resolver _turn).2.2

/-! ## The last candidate -/

/-- The tokens that one pass meets and that are seen as the identifier: under an audit the pass goes on
behind a word of the syntax. -/
def candidates (identifier rest : Text) : List Candidate :=
  match _turn : searchTurn resolver identifier rest with
  | .stop _ => []
  | .next behind _ => candidates identifier behind
  | .found token after spelling =>
    ⟨token, after, spelling⟩ ::
      if resolver.auditIdentifiers && isSyntaxWord resolver token after then candidates identifier after else []
termination_by rest.length
decreasing_by
  · exact (searchTurn_next resolver _turn).2
  · exact (searchTurn_found resolver _turn).2.2

/-- A search does what its turn says. -/
theorem searchForward_turn (identifier rest : Text) :
    searchForward resolver identifier rest =
      match searchTurn resolver identifier rest with
      | .stop unproven => ⟨none, unproven⟩
      | .next behind unproven =>
        ⟨(searchForward resolver identifier behind).result, unproven || (searchForward resolver identifier behind).unproven⟩
      | .found token after spelling =>
        if resolver.auditIdentifiers && isSyntaxWord resolver token after &&
            (searchForward resolver identifier after).result.isSome then searchForward resolver identifier after
        else ⟨some ⟨token, after, spelling⟩, false⟩ := by
  rw [searchForward.eq_def resolver identifier rest]
  split
  next turned => rw [turned]
  next turned => rw [turned]
  next turned => rw [turned]

theorem searchForward_eq (identifier rest : Text) :
    (searchForward resolver identifier rest).result = (candidates resolver identifier rest).getLast? := by
  fun_induction candidates resolver identifier rest with
  | case1 rest unproven turn =>
    rw [searchForward_turn, turn]
    rfl
  | case2 rest behind unproven turn inductionHypothesis =>
    rw [searchForward_turn, turn]
    exact inductionHypothesis
  | case3 rest token after spelling turn inductionHypothesis =>
    rw [searchForward_turn, turn]
    dsimp only
    cases passes : resolver.auditIdentifiers && isSyntaxWord resolver token after with
    | false => rfl
    | true =>
      rw [Bool.true_and, if_pos rfl, List.getLast?_cons, ← inductionHypothesis]
      -- the probe finds the last one of the later candidates, if there is any
      cases later : (searchForward resolver identifier after).result with
      | none => rfl
      | some last => exact later

/-- A candidate is a token of the text that is seen as the identifier. -/
theorem candidates_found {identifier rest : Text} {candidate : Candidate}
    (member : candidate ∈ candidates resolver identifier rest) :
    candidate.token <:+ rest ∧ identifierAt resolver candidate.token identifier = .seen candidate.after candidate.spelling := by
  fun_induction candidates resolver identifier rest with
  | case1 rest unproven turn => cases member
  | case2 rest behind unproven turn inductionHypothesis =>
    obtain ⟨suffix, found⟩ := inductionHypothesis member
    exact ⟨suffix.trans (searchTurn_next resolver turn).1, found⟩
  | case3 rest first behind spelling turn inductionHypothesis =>
    obtain ⟨suffix, found, -⟩ := searchTurn_found resolver turn
    rcases List.mem_cons.mp member with isFirst | later
    · cases isFirst
      exact ⟨suffix, found⟩
    · split at later
      · obtain ⟨isSuffix, isFound⟩ := inductionHypothesis later
        exact ⟨isSuffix.trans ((identifierAt_behind resolver found).trans ((List.drop_suffix 1 _).trans suffix)), isFound⟩
      · cases later

/-- The pass goes on behind a candidate only if it is a word of the syntax, under an audit. -/
theorem candidates_passed {identifier rest : Text} {candidate : Candidate}
    (member : candidate ∈ (candidates resolver identifier rest).dropLast) :
    resolver.auditIdentifiers = true ∧ isSyntaxWord resolver candidate.token candidate.after = true := by
  fun_induction candidates resolver identifier rest with
  | case1 rest unproven turn => cases member
  | case2 rest behind unproven turn inductionHypothesis => exact inductionHypothesis member
  | case3 rest first behind spelling turn inductionHypothesis =>
    by_cases passes : (resolver.auditIdentifiers && isSyntaxWord resolver first behind) = true
    · rw [if_pos passes] at member
      -- the first candidate is not the last one only where another one is behind it
      cases later : candidates resolver identifier behind with
      | nil =>
        rw [later] at member
        cases member
      | cons next more =>
        rw [later, List.dropLast_cons_cons] at member
        rcases List.mem_cons.mp member with isFirst | listed
        · cases isFirst
          exact Bool.and_eq_true_iff.mp passes
        · rw [later] at inductionHypothesis
          exact inductionHypothesis listed
    · rw [if_neg passes] at member
      cases member

/-- The candidates stand in the order of the text. -/
theorem candidates_ordered (identifier rest : Text) :
    (candidates resolver identifier rest).Pairwise fun earlier later => later.token <:+ earlier.after := by
  fun_induction candidates resolver identifier rest with
  | case1 rest unproven turn => exact .nil
  | case2 rest behind unproven turn inductionHypothesis => exact inductionHypothesis
  | case3 rest token after spelling turn inductionHypothesis =>
    refine List.pairwise_cons.mpr ⟨fun later listed => ?_, ?_⟩
    · split at listed
      · exact (candidates_found resolver listed).1
      · cases listed
    · split
      · exact inductionHypothesis
      · exact .nil

/-! ## What a candidate means -/

/-- A token that is handed out for an identifier under some spelling. Its quotes being closed, it denotes the
identifier; and it has no origin to be checked, or was generated, or is written in the source at its origin, which
denotes the identifier as well. A keyword is a word that is the same in other cases. -/
inductive Means (identifier token after : Text) : Text → Prop where
  | keyword (mode : resolver.keywordMatch = true) (word : after = identifierEnd token) (present : after ≠ token)
      (unquoted : opensUampIdentifier token = false ∧ token.head?.any opensQuoted = false)
      (same : matchesIgnoringCase (tokenOf token after) identifier = true) : Means identifier token after (tokenOf token after)
  | text (mode : resolver.keywordMatch = false) (noOrigins : resolver.origins = none)
      (denotes : Closes token → Denotes resolver.lexer token identifier after) :
      Means identifier token after (tokenOf token after)
  | generated {map : OriginMap} {spelling : Text} (mode : resolver.keywordMatch = false) (hasOrigins : resolver.origins = some map)
      (isGenerated : (originLookup (some map) (offsetOf resolver.sql token)
        (offsetOf resolver.sql after - offsetOf resolver.sql token)).kind = .generated)
      (denotes : Closes token → Denotes resolver.lexer token identifier after)
      (spelled : spelling = tokenOf token after ∨
        (resolver.dialect.isSqlserverCompatible ∧ generatedSpelling identifier = some spelling)) :
      Means identifier token after spelling
  | source {map : OriginMap} {source : OriginSource} {offset length : Nat} (mode : resolver.keywordMatch = false)
      (hasOrigins : resolver.origins = some map) (hasSource : resolver.originSource = some source)
      (isSource : originLookup (some map) (offsetOf resolver.sql token)
        (offsetOf resolver.sql after - offsetOf resolver.sql token) = ⟨.source, offset, length⟩)
      (denotes : Closes token → Denotes resolver.lexer token identifier after)
      (inside : offset + length ≤ source.sql.length)
      (written : Closes (source.sql.drop offset) →
        Denotes source.lexer (source.sql.drop offset) identifier (source.sql.drop (offset + length))) :
      Means identifier token after (slice source.sql offset (offset + length))

theorem identifierAt_means {identifier token after spelling : Text}
    (seen : identifierAt resolver token identifier = .seen after spelling) : Means resolver identifier token after spelling := by
  rcases identifierAt_seen resolver seen with ⟨mode, word⟩ | ⟨mode, reads, proven⟩
  · -- in keyword mode nothing is checked against the source
    obtain ⟨isEnd, moved, same, uamp, quoted, rfl⟩ := keywordAt_seen word
    exact .keyword mode isEnd moved ⟨uamp, quoted⟩ same
  · have denotes (closes : Closes token) := (sourceIdentifierAt_iff resolver.lexer closes identifier after).mp reads
    unfold resolveOrigin at proven
    split at proven
    next noOrigins =>
      cases proven
      exact .text mode noOrigins denotes
    next map hasOrigins =>
      dsimp only at proven
      split at proven
      next isGenerated =>
        cases proven
        refine .generated mode hasOrigins isGenerated denotes ?_
        split
        next compatible =>
          cases spelled : generatedSpelling identifier with
          | none => exact .inl rfl
          | some other => exact .inr ⟨compatible, rfl⟩
        · exact .inl rfl
      next source isSource hasSource =>
        generalize isOrigin : originLookup (some map) (offsetOf resolver.sql token)
          (offsetOf resolver.sql after - offsetOf resolver.sql token) = origin at *
        obtain ⟨kind, offset, length⟩ := origin
        dsimp only at isSource proven
        subst isSource
        split at proven
        · cases proven
        next inside =>
          split at proven
          next behind written =>
            split at proven
            next whole =>
              cases proven
              have suffix := (sourceIdentifierAt_behind written).trans (List.drop_suffix 1 _)
              have isBehind : behind = source.sql.drop (offset + length) := by
                rw [← drop_offsetOf suffix, whole, List.drop_drop]
              have isSpelling : tokenOf (source.sql.drop offset) behind = slice source.sql offset (offset + length) := by
                rw [tokenOf, ← offsetOf, whole, slice, List.take_drop]
              rw [isSpelling]
              refine .source mode hasOrigins hasSource isOrigin denotes (by omega) fun closes => ?_
              rw [← isBehind]
              exact (sourceIdentifierAt_iff source.lexer closes identifier behind).mp written
            · cases proven
          · cases proven
      · cases proven

end searching

end SqlParser.Core.Source
