import SqlParser.Core.BindScannerOrder

/-! # The bind occurrence cache

`sqlparser_handle_ensure_bind_occurrences` scans the current text of a handle twice:
once to count the occurrences and the bytes of their texts, once to fill the cache
that it has allocated for them.  The text is the one that
`sqlparser_ensure_current_sql_text` leaves in the handle.
-/

namespace SqlParser.Core

/-- `sqlparser_bind_occurrence_cache_item_t` -/
structure BindOccurrence where
  sourceStart : Nat
  textOffset : Nat
  kind : BindKind
  deriving DecidableEq, Repr

/-- `sqlparser_bind_occurrence_cache_t` with the texts that are stored behind the items. -/
structure BindOccurrenceCache where
  count : Nat
  items : List BindOccurrence
  text : Text
  deriving DecidableEq, Repr

def sizeofBindOccurrenceCache : Nat := 8

def sizeofBindOccurrence : Nat := 24

/-- `sqlparser_bind_role_cursor_t`: it is made from the dialect and the text, and asked once for every token. -/
structure BindRoleCursor (σ : Type) where
  init : Dialect → Text → σ
  accept : σ → BindToken → Bool × σ

/-- The part of `sqlparser_handle_t` that the cache depends on. -/
structure BindHandle where
  hasRepresentation : Bool
  sql : Option Text
  parserSql : Option Text
  currentSql : Option Text
  currentParserSql : Option Text
  hasControl : Bool
  surfaceSourceComplete : Bool
  generation : Nat
  dialect : Dialect
  bindOccurrences : Option BindOccurrenceCache
  bindOccurrencesGeneration : Nat
  deriving DecidableEq, Repr

def invalidSpan : Error := ⟨.internalError, "bind scanner returned an invalid token span"⟩

def cacheTooLarge : Error := ⟨.resourceLimit, "bind occurrence cache is too large"⟩

def scanChanged : Error := ⟨.internalError, "bind scanner result changed while building cache"⟩

/-! ## The two passes -/

section passes

variable {σ : Type}

/-- The counting loop over the reported tokens. -/
def countOccurrences (role : BindRoleCursor σ) (sqlLength : Nat) :
    List BindToken → σ → Nat → Nat → Except Error (Nat × Nat)
  | [], _, count, textSize => .ok (count, textSize)
  | token :: rest, cursor, count, textSize =>
    match role.accept cursor token with
    | (false, next) => countOccurrences role sqlLength rest next count textSize
    | (true, next) =>
      if token.start ≥ token.stop ∨ token.stop > sqlLength then .error invalidSpan
      else
        let tokenLength := token.stop - token.start
        if count = sizeMax ∨ tokenLength = sizeMax ∨ textSize > sizeMax - tokenLength - 1 then
          .error cacheTooLarge
        else countOccurrences role sqlLength rest next (count + 1) (textSize + (tokenLength + 1))

/-- The filling loop over the reported tokens, with the items and the texts written so far. -/
def fillOccurrences (role : BindRoleCursor σ) (sql : Text) (count : Nat) :
    List BindToken → σ → List BindOccurrence → Text → Except Error (List BindOccurrence × Text)
  | [], _, items, text => .ok (items, text)
  | token :: rest, cursor, items, text =>
    match role.accept cursor token with
    | (false, next) => fillOccurrences role sql count rest next items text
    | (true, next) =>
      if items.length ≥ count ∨ token.start ≥ token.stop ∨ token.stop > sql.length then .error scanChanged
      else
        fillOccurrences role sql count rest next (items ++ [⟨token.start, text.length, token.kind⟩])
          (text ++ (slice sql token.start token.stop ++ [0]))

/-- The cache of a text. -/
def buildBindOccurrences (role : BindRoleCursor σ) (allocate : Nat → Bool) (dialect : Dialect) (sql : Text) :
    Except Error BindOccurrenceCache :=
  match countOccurrences role sql.length (bindTokens (bindScannerInit dialect sql)) (role.init dialect sql) 0 0 with
  | .error error => .error error
  | .ok (count, textSize) =>
    if count > (sizeMax - sizeofBindOccurrenceCache) / sizeofBindOccurrence then .error cacheTooLarge
    else
      let itemsSize := count * sizeofBindOccurrence
      if textSize > sizeMax - sizeofBindOccurrenceCache - itemsSize then .error cacheTooLarge
      else if !allocate (sizeofBindOccurrenceCache + itemsSize + textSize) then .error outOfMemory
      else
        match fillOccurrences role sql count (bindTokens (bindScannerInit dialect sql))
            (role.init dialect sql) [] [] with
        | .error error => .error error
        | .ok (items, text) =>
          if items.length ≠ count ∨ text.length ≠ textSize then .error scanChanged
          else .ok ⟨count, items, text⟩

end passes

/-! ## The current text -/

/-- The calls of `sqlparser_ensure_current_sql_text`.  Each of them computes a text or fails, and writes no field of
`BindHandle`; `postprocessDeparse` is missing where the dialect has none. -/
structure TextCalls where
  flushAst : BindHandle → Except Error Unit
  restoreSourceEnvelope : BindHandle → Option Text → Except Error Text
  validateOutputText : BindHandle → Text → String → Except Error Unit
  projectSurfaceUnits : BindHandle → Nat → Except Error Unit
  buildPublicSql : BindHandle → Except Error Text
  deparse : BindHandle → Except Error Text
  restoreSemanticComments : BindHandle → Text → Except Error Text
  postprocessDeparse : Option (Text → Except Error Text)

/-- The text of a handle whose edits are all edits of its source. -/
def TextCalls.surfaceText (calls : TextCalls) (handle : BindHandle) : Except Error Text := do
  let publicSql ← calls.restoreSourceEnvelope handle none
  calls.validateOutputText handle publicSql "current SQL"
  if handle.hasControl then calls.projectSurfaceUnits handle publicSql.length
  return publicSql

/-- The text for the parser and the public text, from the deparser. -/
def TextCalls.deparsedTexts (calls : TextCalls) (handle : BindHandle) : Except Error (Text × Text) := do
  let query ← calls.deparse handle
  let query ← calls.restoreSemanticComments handle query
  calls.validateOutputText handle query "current SQL"
  match calls.postprocessDeparse with
  | none =>
    let query ← calls.restoreSourceEnvelope handle (some query)
    return (query, query)
  | some postprocess =>
    let publicSql ← postprocess query
    let publicSql ← calls.restoreSourceEnvelope handle (some publicSql)
    calls.validateOutputText handle publicSql "deparse output"
    return (query, publicSql)

/-- The current text need not be computed. -/
def BindHandle.hasCurrentText (handle : BindHandle) : Bool :=
  handle.generation = 0 ||
    if handle.surfaceSourceComplete || handle.hasControl then handle.currentSql.isSome
    else handle.currentSql.isSome && handle.currentParserSql.isSome

/-- `sqlparser_ensure_current_sql_text` -/
def ensureCurrentSqlText (calls : TextCalls) (handle : BindHandle) : Except Error BindHandle :=
  if handle.sql = none ∨ handle.parserSql = none then .error ⟨.invalidArgument, "handle must not be NULL"⟩
  else do
    calls.flushAst handle
    if handle.hasCurrentText then return handle
    else if handle.surfaceSourceComplete then
      let publicSql ← calls.surfaceText handle
      return { handle with currentSql := some publicSql }
    else
      let cleared := { handle with currentSql := none, currentParserSql := none }
      if handle.hasControl then
        let publicSql ← calls.buildPublicSql cleared
        return { cleared with currentSql := some publicSql }
      else
        let texts ← calls.deparsedTexts cleared
        return { cleared with currentParserSql := some texts.1, currentSql := some texts.2 }

/-- `sqlparser_effective_sql` -/
def BindHandle.effectiveSql (handle : BindHandle) : Option Text :=
  if handle.generation = 0 then handle.sql
  else
    match handle.currentSql with
    | none => handle.sql
    | some sql => some sql

/-! ## The cache -/

section cache

variable {σ : Type}

/-- `sqlparser_handle_ensure_bind_occurrences` -/
def ensureBindOccurrences (role : BindRoleCursor σ) (allocate : Nat → Bool) (calls : TextCalls) (handle : BindHandle) :
    Except Error BindHandle :=
  if !handle.hasRepresentation ∨ handle.sql = none then .error ⟨.invalidArgument, "handle must not be NULL"⟩
  else if handle.bindOccurrences ≠ none ∧ handle.bindOccurrencesGeneration = handle.generation then .ok handle
  else
    match ensureCurrentSqlText calls handle with
    | .error error => .error error
    | .ok handle =>
      match handle.effectiveSql with
      | none => .error ⟨.internalError, "current SQL is missing"⟩
      | some sql =>
        match buildBindOccurrences role allocate handle.dialect sql with
        | .error error => .error error
        | .ok cache =>
          .ok { handle with bindOccurrences := some cache, bindOccurrencesGeneration := handle.generation }

/-! ## What the passes compute -/

/-- The tokens that the role cursor accepts. -/
def acceptedTokens (role : BindRoleCursor σ) : List BindToken → σ → List BindToken
  | [], _ => []
  | token :: rest, cursor =>
    match role.accept cursor token with
    | (false, next) => acceptedTokens role rest next
    | (true, next) => token :: acceptedTokens role rest next

/-- The bytes of the texts of some tokens, each with its NUL. -/
def occurrenceText (sql : Text) (tokens : List BindToken) : Text :=
  tokens.flatMap fun token => slice sql token.start token.stop ++ [0]

/-- The items of some tokens, with the texts stored from an offset on. -/
def occurrenceItems (sql : Text) : List BindToken → Nat → List BindOccurrence
  | [], _ => []
  | token :: rest, offset =>
    ⟨token.start, offset, token.kind⟩ ::
      occurrenceItems sql rest (offset + (slice sql token.start token.stop ++ [0]).length)

def TokensFit (sql : Text) (tokens : List BindToken) : Prop :=
  ∀ token ∈ tokens, token.start < token.stop ∧ token.stop ≤ sql.length

variable {role : BindRoleCursor σ} {sql : Text}

theorem TokensFit.tail {token : BindToken} {rest : List BindToken} (fit : TokensFit sql (token :: rest)) :
    TokensFit sql rest :=
  fun later listed => fit later (.tail _ listed)

theorem occurrenceItems_length (sql : Text) (tokens : List BindToken) (offset : Nat) :
    (occurrenceItems sql tokens offset).length = tokens.length := by
  induction tokens generalizing offset with
  | nil => rfl
  | cons token rest inductionHypothesis => simp [occurrenceItems, inductionHypothesis]

/-- The counting pass counts the accepted tokens and their bytes, or the bytes are more than a `size_t` holds. -/
theorem countOccurrences_spec (tokens : List BindToken) (fit : TokensFit sql tokens) (cursor : σ)
    (count textSize : Nat) (counts : count ≤ textSize) :
    (countOccurrences role sql.length tokens cursor count textSize = .error cacheTooLarge ∧
        sizeMax < textSize + (occurrenceText sql (acceptedTokens role tokens cursor)).length) ∨
      countOccurrences role sql.length tokens cursor count textSize =
        .ok (count + (acceptedTokens role tokens cursor).length,
          textSize + (occurrenceText sql (acceptedTokens role tokens cursor)).length) := by
  induction tokens generalizing cursor count textSize with
  | nil => exact .inr rfl
  | cons token rest inductionHypothesis =>
    have rests := inductionHypothesis fit.tail
    cases asked : role.accept cursor token with
    | mk accepted next =>
      cases accepted with
      | false =>
        simp only [countOccurrences, acceptedTokens, asked]
        exact rests next count textSize counts
      | true =>
        obtain ⟨starts, stops⟩ := fit token (.head _)
        have size := @slice_length sql token.start token.stop stops
        have bytes : (occurrenceText sql (token :: acceptedTokens role rest next)).length =
            token.stop - token.start + 1 + (occurrenceText sql (acceptedTokens role rest next)).length := by
          simp only [occurrenceText, List.flatMap_cons, List.length_append, List.length_cons, List.length_nil, size]
        simp only [countOccurrences, acceptedTokens, asked]
        rw [if_neg (not_or.mpr ⟨Nat.not_le_of_lt starts, Nat.not_lt_of_le stops⟩), bytes]
        split
        next large => exact .inl ⟨rfl, by omega⟩
        next =>
          have onward := rests next (count + 1) (textSize + (token.stop - token.start + 1)) (by omega)
          rwa [Nat.add_assoc textSize, Nat.add_assoc count 1, Nat.add_comm 1] at onward

/-- The filling pass writes the accepted tokens when it may write as many. -/
theorem fillOccurrences_spec (tokens : List BindToken) (fit : TokensFit sql tokens) (cursor : σ)
    (count : Nat) (items : List BindOccurrence) (text : Text)
    (room : items.length + (acceptedTokens role tokens cursor).length ≤ count) :
    fillOccurrences role sql count tokens cursor items text =
      .ok (items ++ occurrenceItems sql (acceptedTokens role tokens cursor) text.length,
        text ++ occurrenceText sql (acceptedTokens role tokens cursor)) := by
  induction tokens generalizing cursor items text with
  | nil => simp [fillOccurrences, acceptedTokens, occurrenceItems, occurrenceText]
  | cons token rest inductionHypothesis =>
    have rests := inductionHypothesis fit.tail
    cases asked : role.accept cursor token with
    | mk accepted next =>
      cases accepted with
      | false =>
        simp only [fillOccurrences, acceptedTokens, asked] at room ⊢
        exact rests next items text room
      | true =>
        obtain ⟨starts, stops⟩ := fit token (.head _)
        simp only [fillOccurrences, acceptedTokens, asked, List.length_cons] at room ⊢
        rw [if_neg, rests]
        · simp [occurrenceItems, occurrenceText, List.append_assoc]
        · simp only [List.length_append, List.length_cons, List.length_nil]
          omega
        · omega

/-- The entries of a cache are the slices of its tokens, in their order. -/
structure BindOccurrenceCache.Describes (cache : BindOccurrenceCache) (sql : Text) (tokens : List BindToken) :
    Prop where
  count : cache.count = tokens.length
  size : cache.items.length = tokens.length
  entry : ∀ (index : Nat) (token : BindToken), tokens[index]? = some token →
    ∃ item, cache.items[index]? = some item ∧ item.sourceStart = token.start ∧ item.kind = token.kind ∧
      slice sql token.start token.stop ++ [0] <+: cache.text.drop item.textOffset

theorem occurrenceItems_entry (tokens : List BindToken) (before : Text) (index : Nat) (token : BindToken)
    (listed : tokens[index]? = some token) :
    ∃ item, (occurrenceItems sql tokens before.length)[index]? = some item ∧ item.sourceStart = token.start ∧
      item.kind = token.kind ∧
      slice sql token.start token.stop ++ [0] <+: (before ++ occurrenceText sql tokens).drop item.textOffset := by
  induction tokens generalizing before index with
  | nil => cases listed
  | cons first rest inductionHypothesis =>
    cases index with
    | zero =>
      cases listed
      refine ⟨_, rfl, rfl, rfl, ?_⟩
      simp [occurrenceText]
    | succ index =>
      obtain ⟨item, located, start, kind, stored⟩ :=
        inductionHypothesis (before ++ (slice sql first.start first.stop ++ [0])) index listed
      refine ⟨item, ?_, start, kind, ?_⟩
      · rw [← located, occurrenceItems, List.getElem?_cons_succ]
        simp only [List.length_append]
      · simpa [occurrenceText, List.append_assoc] using stored

/-- The bytes of a cache with the texts of some tokens. -/
def occurrenceCacheSize (sql : Text) (tokens : List BindToken) : Nat :=
  sizeofBindOccurrenceCache + tokens.length * sizeofBindOccurrence + (occurrenceText sql tokens).length

def occurrenceCache (sql : Text) (tokens : List BindToken) : BindOccurrenceCache :=
  ⟨tokens.length, occurrenceItems sql tokens 0, occurrenceText sql tokens⟩

theorem occurrenceCache_describes (sql : Text) (tokens : List BindToken) :
    (occurrenceCache sql tokens).Describes sql tokens where
  count := rfl
  size := occurrenceItems_length sql tokens 0
  entry index token listed := occurrenceItems_entry tokens [] index token listed

/-- The tokens of a text that the role cursor accepts. -/
def bindOccurrenceTokens (role : BindRoleCursor σ) (dialect : Dialect) (sql : Text) : List BindToken :=
  acceptedTokens role (bindTokens (bindScannerInit dialect sql)) (role.init dialect sql)

/-- The cache is built where its size is a `size_t` and the memory is there; no error tells of a change between the
passes. -/
theorem buildBindOccurrences_eq (role : BindRoleCursor σ) (allocate : Nat → Bool) (dialect : Dialect) (sql : Text)
    (fit : TokensFit sql (bindTokens (bindScannerInit dialect sql))) :
    buildBindOccurrences role allocate dialect sql =
      if sizeMax < occurrenceCacheSize sql (bindOccurrenceTokens role dialect sql) then .error cacheTooLarge
      else if allocate (occurrenceCacheSize sql (bindOccurrenceTokens role dialect sql)) then
        .ok (occurrenceCache sql (bindOccurrenceTokens role dialect sql))
      else .error outOfMemory := by
  have full : sizeMax = 18446744073709551615 := rfl
  have filled := @fillOccurrences_spec _ role _ _ fit (role.init dialect sql)
    (bindOccurrenceTokens role dialect sql).length [] [] (by simp [bindOccurrenceTokens])
  rw [← bindOccurrenceTokens, List.nil_append, List.nil_append, List.length_nil] at filled
  have items := occurrenceItems_length sql (bindOccurrenceTokens role dialect sql) 0
  have counted := @countOccurrences_spec _ role _ _ fit (role.init dialect sql) 0 0 le_rfl
  rw [← bindOccurrenceTokens, Nat.zero_add, Nat.zero_add] at counted
  unfold buildBindOccurrences occurrenceCacheSize sizeofBindOccurrenceCache sizeofBindOccurrence
  obtain ⟨large, bytes⟩ | counted := counted
  · rw [large, if_pos (by omega)]
  rw [counted]
  dsimp only
  by_cases large : sizeMax < 8 + (bindOccurrenceTokens role dialect sql).length * 24 +
      (occurrenceText sql (bindOccurrenceTokens role dialect sql)).length
  · rw [if_pos large]
    -- one of the two tests behind the loop finds it
    by_cases many : (bindOccurrenceTokens role dialect sql).length > (sizeMax - 8) / 24
    · rw [if_pos many]
    · rw [if_neg many, if_pos (by omega)]
  · rw [if_neg (by omega), if_neg (by omega), if_neg large]
    cases allocate (8 + (bindOccurrenceTokens role dialect sql).length * 24 +
      (occurrenceText sql (bindOccurrenceTokens role dialect sql)).length) with
    | false => rfl
    | true =>
      rw [if_neg (by decide), if_pos rfl, filled]
      dsimp only
      rw [if_neg (by simp [items])]
      rfl

end cache

/-! ## The whole scan -/

/-- An iteration of the scanner that reports these tokens and then none. -/
inductive BindScans : BindScanner → List BindToken → Prop where
  | ends {scanner : BindScanner} : bindScannerNext scanner = none → BindScans scanner []
  | reports {scanner next : BindScanner} {token : BindToken} {rest : List BindToken} :
      bindScannerNext scanner = some (token, next) → BindScans next rest → BindScans scanner (token :: rest)

theorem bindTokens_scans (scanner : BindScanner) : BindScans scanner (bindTokens scanner) := by
  fun_induction bindTokens scanner with
  | case1 scanner ends => exact .ends ends
  | case2 scanner token next found inductionHypothesis => exact .reports found inductionHypothesis

theorem bindTokens_fit {scanner : BindScanner} (sound : scanner.Sound) : TokensFit scanner.sql (bindTokens scanner) := by
  intro token listed
  obtain ⟨-, starts, stops⟩ := bindTokenAt_some ((bindTokens_sound sound).2 token listed).2.recognised
  exact ⟨starts, stops⟩

theorem bindTokens_ordered {scanner : BindScanner} (sound : scanner.Sound) :
    (bindTokens scanner).Pairwise fun earlier later => earlier.start < later.start ∧ earlier.stop ≤ later.start := by
  refine (bindTokens_sound sound).1.imp_of_mem ?_
  intro earlier later listed _ disjoint
  have := (bindTokens_fit sound earlier listed).1
  omega

/-- The quote of the body outruns the comment, and the scanner moves back behind the comment. -/
example : (bindTokens (bindScannerInit .mysql (ascii "/*! ? 'a */; 'b' ?"))).map BindToken.start = [4, 17] := by
  decide +kernel

/-! ## Runs -/

section runs

variable {σ : Type} {role : BindRoleCursor σ} {handle after : BindHandle} {calls : TextCalls}

/-- What the text step leaves: a current text and the other fields as they were. -/
structure TextEnsured (handle after : BindHandle) : Prop where
  current : after.hasCurrentText
  sql : after.sql ≠ none
  kept : handle.hasCurrentText → after = handle
  occurrences : after.bindOccurrences = handle.bindOccurrences
  occurrencesGeneration : after.bindOccurrencesGeneration = handle.bindOccurrencesGeneration
  generation : after.generation = handle.generation

theorem TextEnsured.same (sql : handle.sql ≠ none) (current : handle.hasCurrentText) : TextEnsured handle handle :=
  ⟨current, sql, fun _ => rfl, rfl, rfl, rfl⟩

theorem ensureCurrentSqlText_ok (ensured : ensureCurrentSqlText calls handle = .ok after) : TextEnsured handle after := by
  unfold ensureCurrentSqlText at ensured
  split at ensured
  next => cases ensured
  next present =>
    have sql : handle.sql ≠ none := fun missing => present (.inl missing)
    cases flushed : calls.flushAst handle with
    | error error =>
      rw [flushed] at ensured
      cases ensured
    | ok done =>
      rw [flushed] at ensured
      change (if handle.hasCurrentText then _ else _) = _ at ensured
      split at ensured
      next current =>
        cases ensured
        exact .same sql current
      next stale =>
        split at ensured
        next complete =>
          -- the source with its edits
          cases written : calls.surfaceText handle with
          | error error =>
            rw [written] at ensured
            cases ensured
          | ok publicSql =>
            rw [written] at ensured
            cases ensured
            exact ⟨by simp [BindHandle.hasCurrentText, complete], sql, fun current => absurd current stale, rfl, rfl, rfl⟩
        next deparsed =>
          dsimp only at ensured
          split at ensured
          next control =>
            cases built : calls.buildPublicSql { handle with currentSql := none, currentParserSql := none } with
            | error error =>
              rw [built] at ensured
              cases ensured
            | ok publicSql =>
              rw [built] at ensured
              cases ensured
              exact ⟨by simp [BindHandle.hasCurrentText, control], sql, fun current => absurd current stale, rfl, rfl, rfl⟩
          next =>
            cases texts : calls.deparsedTexts { handle with currentSql := none, currentParserSql := none } with
            | error error =>
              rw [texts] at ensured
              cases ensured
            | ok both =>
              rw [texts] at ensured
              cases ensured
              exact ⟨by simp [BindHandle.hasCurrentText], sql, fun current => absurd current stale, rfl, rfl, rfl⟩

theorem effectiveSql_isSome (sql : handle.sql ≠ none) : ∃ current, handle.effectiveSql = some current := by
  obtain ⟨text, isText⟩ := Option.ne_none_iff_exists'.mp sql
  unfold BindHandle.effectiveSql
  rw [isText]
  split
  · exact ⟨text, rfl⟩
  · cases handle.currentSql with
    | none => exact ⟨text, rfl⟩
    | some current => exact ⟨current, rfl⟩

/-- A cache of the handle's generation describes the current text. -/
def BindHandle.HoldsOccurrences (role : BindRoleCursor σ) (handle : BindHandle) : Prop :=
  ∀ cache, handle.bindOccurrences = some cache → handle.bindOccurrencesGeneration = handle.generation →
    handle.hasCurrentText ∧ ∃ current, handle.effectiveSql = some current ∧
      cache.Describes current (bindOccurrenceTokens role handle.dialect current)

theorem BindHandle.HoldsOccurrences.text (holds : handle.HoldsOccurrences role)
    (ensured : ensureCurrentSqlText calls handle = .ok after) : after.HoldsOccurrences role := by
  have step := ensureCurrentSqlText_ok ensured
  intro cache cached fresh
  have current := (holds cache (step.occurrences.symm.trans cached)
    (step.occurrencesGeneration.symm.trans (fresh.trans step.generation))).1
  rw [step.kept current] at cached fresh ⊢
  exact holds cache cached fresh

/-- One call, from a handle whose cache is right: the errors it has, and what it leaves. -/
theorem ensureBindOccurrences_spec (allocate : Nat → Bool) (holds : handle.HoldsOccurrences role) :
    match ensureBindOccurrences role allocate calls handle with
    | .error error =>
      (error = ⟨.invalidArgument, "handle must not be NULL"⟩ ∧ (handle.hasRepresentation = false ∨ handle.sql = none)) ∨
        ensureCurrentSqlText calls handle = .error error ∨
        ∃ after current, ensureCurrentSqlText calls handle = .ok after ∧ after.effectiveSql = some current ∧
          let size := occurrenceCacheSize current (bindOccurrenceTokens role after.dialect current)
          (error = cacheTooLarge ∧ sizeMax < size) ∨ (error = outOfMemory ∧ size ≤ sizeMax ∧ allocate size = false)
    | .ok after =>
      ∃ cache current, after.bindOccurrences = some cache ∧ after.bindOccurrencesGeneration = after.generation ∧
        after.hasCurrentText ∧ after.effectiveSql = some current ∧
        cache.Describes current (bindOccurrenceTokens role after.dialect current) := by
  unfold ensureBindOccurrences
  split_ifs with missing cached
  · refine .inl ⟨rfl, ?_⟩
    simpa using missing
  · -- the cache is of this generation, so the run has left it with the tokens of the current text
    obtain ⟨cache, isCache⟩ := Option.ne_none_iff_exists'.mp cached.1
    obtain ⟨text, current, isCurrent, described⟩ := holds cache isCache cached.2
    exact ⟨cache, current, isCache, cached.2, text, isCurrent, described⟩
  · cases ensured : ensureCurrentSqlText calls handle with
    | error error => exact .inr (.inl rfl)
    | ok after =>
      -- a text that was computed is there, so the internal error is never reached
      have step := ensureCurrentSqlText_ok ensured
      obtain ⟨current, isCurrent⟩ := effectiveSql_isSome step.sql
      have fit := bindTokens_fit (bindScannerInit_sound after.dialect current)
      dsimp only
      rw [isCurrent]
      dsimp only
      rw [buildBindOccurrences_eq role allocate after.dialect current fit]
      split_ifs with large room
      · exact .inr (.inr ⟨after, current, rfl, isCurrent, .inl ⟨rfl, large⟩⟩)
      · exact ⟨_, current, rfl, rfl, step.current, isCurrent, occurrenceCache_describes _ _⟩
      · exact .inr (.inr ⟨after, current, rfl, isCurrent, .inr ⟨rfl, Nat.le_of_not_lt large, by simpa using room⟩⟩)

/-- The calls on a handle from any state without a cache of its generation; an edit of the handle leads to such a
state. -/
inductive BindRun (role : BindRoleCursor σ) : BindHandle → Prop where
  | edited {handle : BindHandle} :
      handle.bindOccurrences = none ∨ handle.bindOccurrencesGeneration ≠ handle.generation → BindRun role handle
  | text {calls : TextCalls} {handle after : BindHandle} :
      BindRun role handle → ensureCurrentSqlText calls handle = .ok after → BindRun role after
  | occurrences {calls : TextCalls} {allocate : Nat → Bool} {handle after : BindHandle} :
      BindRun role handle → ensureBindOccurrences role allocate calls handle = .ok after → BindRun role after

theorem BindRun.holds (run : BindRun role handle) : handle.HoldsOccurrences role := by
  induction run with
  | edited stale =>
    intro cache cached fresh
    obtain none | other := stale
    · rw [none] at cached
      cases cached
    · exact absurd fresh other
  | text _ ensured inductionHypothesis => exact BindHandle.HoldsOccurrences.text inductionHypothesis ensured
  | @occurrences calls allocate handle after _ ensured inductionHypothesis =>
    have spec := @ensureBindOccurrences_spec _ role handle calls allocate inductionHypothesis
    rw [ensured] at spec
    obtain ⟨cache, current, isCache, -, text, isCurrent, described⟩ := spec
    intro other isOther _
    cases isCache.symm.trans isOther
    exact ⟨text, current, isCurrent, described⟩

end runs

/-- From every initial scanner, with or without markers, the iteration ends after disjoint tokens in
ascending order; without markers each token is exact, in its text and by itself; and in every run of
calls on a handle the cache holds the tokens of the current text, unless the text cannot be computed, the
cache is larger than a `size_t` tells or the memory is not there: the two passes never disagree. -/
theorem bind_occurrences_stable (dialect : Dialect) (sql : Text) (markerStart markerCount : Nat) :
    (∀ scanner ∈ [bindScannerInit dialect sql, bindScannerInitMarkers dialect sql markerStart markerCount],
      BindScans scanner (bindTokens scanner) ∧
      (∀ token ∈ bindTokens scanner, token.start < token.stop ∧ token.stop ≤ sql.length) ∧
      (bindTokens scanner).Pairwise fun earlier later =>
        earlier.start < later.start ∧ earlier.stop ≤ later.start) ∧
    (∀ token ∈ bindTokens (bindScannerInit dialect sql),
      bindTokenExact dialect sql sql.length token.start token.stop = some token ∧
      bindTokenExact dialect (slice sql token.start token.stop) (token.stop - token.start) 0
          (token.stop - token.start) =
        some ⟨0, token.stop - token.start, token.keyStart - token.start, token.keyLength, token.kind⟩) ∧
    ∀ (σ : Type) (role : BindRoleCursor σ) (handle : BindHandle), BindRun role handle →
      ∀ (allocate : Nat → Bool) (calls : TextCalls),
      match ensureBindOccurrences role allocate calls handle with
      | .error error =>
        (error = ⟨.invalidArgument, "handle must not be NULL"⟩ ∧ (handle.hasRepresentation = false ∨ handle.sql = none)) ∨
          ensureCurrentSqlText calls handle = .error error ∨
          ∃ after current, ensureCurrentSqlText calls handle = .ok after ∧ after.effectiveSql = some current ∧
            let size := occurrenceCacheSize current (bindOccurrenceTokens role after.dialect current)
            (error = cacheTooLarge ∧ sizeMax < size) ∨ (error = outOfMemory ∧ size ≤ sizeMax ∧ allocate size = false)
      | .ok after =>
        ∃ cache current, after.bindOccurrences = some cache ∧ after.bindOccurrencesGeneration = after.generation ∧
          after.hasCurrentText ∧ after.effectiveSql = some current ∧
          cache.Describes current (bindOccurrenceTokens role after.dialect current) := by
  refine ⟨?_, ?_, fun σ role handle run allocate calls => ensureBindOccurrences_spec allocate run.holds⟩
  · intro scanner listed
    have sound : scanner.Sound ∧ scanner.sql = sql := by
      simp only [List.mem_cons, List.not_mem_nil, or_false] at listed
      obtain rfl | rfl := listed
      · exact ⟨bindScannerInit_sound dialect sql, rfl⟩
      · exact ⟨bindScannerInitMarkers_sound dialect sql markerStart markerCount, bindScannerInitMarkers_sql ..⟩
    refine ⟨bindTokens_scans scanner, ?_, bindTokens_ordered sound.1⟩
    have fit := bindTokens_fit sound.1
    rw [sound.2] at fit
    exact fit
  · intro token listed
    have found := ((bindTokens_sound (bindScannerInit_sound dialect sql)).2 token listed).2
    exact ⟨bindTokenExact_of_found found, bindTokenExact_slice found⟩

end SqlParser.Core
