import SqlParser.Core.Bytes

/-! # The public lexer

`sqlparser_surface.c` knows for every dialect what opens a quoted item or a
comment and where it ends.  A loop of the source that moves an offset to the
end of a construct is a function from the rest of the text at the offset to the
rest behind the construct.
-/

namespace SqlParser.Core

/-! ## Dialect capabilities -/

namespace Dialect

def usesPostgresqlPlaceholders (dialect : Dialect) : Bool :=
  dialect = .postgresql || dialect = .vastbasePostgresql || dialect = .kingbasePostgresql

def isOracleCompatible (dialect : Dialect) : Bool :=
  dialect = .oracle || dialect = .vastbaseOracle || dialect = .kingbaseOracle

def isOracleOrDamengCompatible (dialect : Dialect) : Bool :=
  dialect.isOracleCompatible || dialect = .dameng

def isMysqlCompatible (dialect : Dialect) : Bool :=
  dialect = .mysql || dialect = .vastbaseMysql || dialect = .kingbaseMysql

def isSqlserverCompatible (dialect : Dialect) : Bool :=
  dialect = .sqlserver || dialect = .vastbaseSqlserver || dialect = .kingbaseSqlserver

end Dialect

/-! ## Quotes and comments -/

/-- `sqlparser_public_char_is_ident` -/
def publicCharIsIdent (byte : UInt8) : Bool :=
  isAlnum byte || byte = Byte.underscore || byte = Byte.dollar || byte = Byte.hash || byte ≥ 0x80

def publicDollarTagCharIsIdent (byte : UInt8) : Bool :=
  isAlnum byte || byte = Byte.underscore || byte ≥ 0x80

/-- The rest behind the first occurrence of the delimiter. -/
def behindDelimiter (delimiter : Text) : Text → Option Text
  | [] => none
  | byte :: rest =>
    if delimiter.isPrefixOf (byte :: rest) then some ((byte :: rest).drop delimiter.length)
    else behindDelimiter delimiter rest

/-- `sqlparser_public_skip_dollar_quote` -/
def publicSkipDollarQuote (text : Text) (index : Nat) : Nat :=
  let previous := byteAt text (index - 1)
  if byteAt text index ≠ Byte.dollar ∨ (0 < index ∧
      (isAlnum previous ∨ previous = Byte.underscore ∨ previous = Byte.dollar ∨ previous ≥ 0x80)) then
    index
  else
    let tagEnd := index + 1 + ((text.drop (index + 1)).takeWhile publicDollarTagCharIsIdent).length
    if byteAt text tagEnd ≠ Byte.dollar then index
    else
      let delimiter := (text.drop index).take (tagEnd - index + 1)
      match behindDelimiter delimiter (text.drop (tagEnd + 1)) with
      | some rest => offsetOf text rest
      | none => index

/-- The rest behind the closing pair of a q-quote. -/
def behindQQuote (close : UInt8) : Text → Text
  | [] => []
  | byte :: rest =>
    if byte = close ∧ rest.head? = some Byte.quote then rest.drop 1 else behindQQuote close rest

/-- `sqlparser_public_skip_oracle_q_quote` -/
def publicSkipOracleQQuote (dialect : Dialect) (text : Text) (index : Nat) : Nat :=
  if !dialect.isOracleOrDamengCompatible then index
  else
    let isN := byteAt text index = 110 ∨ byteAt text index = 78
    let isQ := fun (byte : UInt8) => byte = 113 ∨ byte = 81
    let start := if isN ∧ isQ (byteAt text (index + 1)) then index + 1 else index
    if ¬ isQ (byteAt text start) ∨ byteAt text (start + 1) ≠ Byte.quote ∨ byteAt text (start + 2) = 0 then
      index
    else
      let opener := byteAt text (start + 2)
      let close :=
        if opener = Byte.openBracket then Byte.closeBracket
        else if opener = 123 then 125
        else if opener = 40 then 41
        else if opener = 60 then 62
        else opener
      offsetOf text (behindQQuote close (text.drop (start + 3)))

def publicNestedComments (dialect : Dialect) : Bool :=
  dialect.usesPostgresqlPlaceholders || dialect.isSqlserverCompatible || dialect = .kingbaseOracle

/-- `strcspn`: the rest from the first stop on. -/
def untilStop (stop : UInt8 → Bool) (rest : Text) : Text :=
  rest.dropWhile fun byte => !stop byte

theorem untilStop_suffix (stop : UInt8 → Bool) (rest : Text) : untilStop stop rest <:+ rest :=
  List.dropWhile_suffix _

theorem untilStop_length (stop : UInt8 → Bool) (rest : Text) :
    (untilStop stop rest).length ≤ rest.length :=
  (untilStop_suffix stop rest).length_le

/-- What stands two bytes behind a jump is a rest of the text. -/
theorem jumped_suffix {stop : UInt8 → Bool} {rest tail : Text} {first second : UInt8}
    (jumped : untilStop stop rest = first :: second :: tail) : second :: tail <:+ rest := by
  have suffix := untilStop_suffix stop rest
  rw [jumped] at suffix
  exact (List.suffix_cons first (second :: tail)).trans suffix

theorem jumped_length {stop : UInt8 → Bool} {rest tail : Text} {first second : UInt8}
    (jumped : untilStop stop rest = first :: second :: tail) : tail.length + 2 ≤ rest.length := by
  have shorter := untilStop_length stop rest
  rw [jumped] at shorter
  exact shorter

/-- The loop over a block comment, entered behind its opening. -/
def behindBlockComment (nested : Bool) (depth : Nat) (rest : Text) : Text :=
  match jumped : untilStop (fun byte => byte = Byte.star || (nested && byte = Byte.slash)) rest with
  | [] => []
  | [_] => []
  | first :: second :: tail =>
    have := jumped_length jumped
    if nested ∧ first = Byte.slash ∧ second = Byte.star then behindBlockComment nested (depth + 1) tail
    else if first = Byte.star ∧ second = Byte.slash then
      if depth - 1 = 0 then tail else behindBlockComment nested (depth - 1) tail
    else behindBlockComment nested depth (second :: tail)
termination_by rest.length
decreasing_by all_goals (first | omega | (rw [List.length_cons]; omega))

/-- The loop over a bracketed identifier, entered behind the bracket. -/
def behindBracket (rest : Text) : Text :=
  match jumped : untilStop (fun byte => byte = Byte.closeBracket) rest with
  | [] => []
  | [_] => []
  | first :: second :: tail =>
    have := jumped_length jumped
    if second ≠ Byte.closeBracket then second :: tail else behindBracket tail
termination_by rest.length
decreasing_by omega

/-- The loop over a quoted item, entered behind the opening quote. -/
def behindQuoted (quote : UInt8) (escapes : Bool) (rest : Text) : Text :=
  match jumped : untilStop (fun byte => byte = quote || (escapes && byte = Byte.backslash)) rest with
  | [] => []
  | [_] => []
  | first :: second :: tail =>
    have := jumped_length jumped
    if first = Byte.backslash ∧ escapes then behindQuoted quote escapes tail
    else if second ≠ quote then second :: tail
    else behindQuoted quote escapes tail
termination_by rest.length
decreasing_by all_goals omega

def behindLine (rest : Text) : Text :=
  untilStop (fun byte => byte = Byte.lineFeed) rest

/-- Whether a backslash escapes the next byte of an item opened by this quote. -/
def publicBackslashEscapes (dialect : Dialect) (text : Text) (index : Nat) (quote : UInt8) : Bool :=
  dialect.isMysqlCompatible || (quote = Byte.quote && 0 < index &&
    (byteAt text (index - 1) = 101 || byteAt text (index - 1) = 69) &&
    (index = 1 || !publicCharIsIdent (byteAt text (index - 2))))

/-- `sqlparser_public_skip_quoted_or_comment` -/
def publicSkipQuotedOrComment (dialect : Dialect) (text : Text) (index : Nat) : Nat :=
  let byte := byteAt text index
  let next := byteAt text (index + 1)
  if byte = Byte.dollar then
    if dialect.usesPostgresqlPlaceholders || dialect.isOracleCompatible then
      publicSkipDollarQuote text index
    else index
  else if byte = 113 ∨ byte = 81 ∨ byte = 110 ∨ byte = 78 then publicSkipOracleQQuote dialect text index
  else if byte = Byte.dash then
    if next ≠ Byte.dash then index
    else
      let third := byteAt text (index + 2)
      if dialect.isMysqlCompatible && third ≠ 0 && !isSpace third && !isControl third then index
      else offsetOf text (behindLine (text.drop (index + 2)))
  else if byte = Byte.hash then
    if !dialect.isMysqlCompatible then index
    else offsetOf text (behindLine (text.drop (index + 1)))
  else if byte = Byte.slash then
    if next ≠ Byte.star then index
    else offsetOf text (behindBlockComment (publicNestedComments dialect) 1 (text.drop (index + 2)))
  else if byte = Byte.openBracket then
    if !dialect.isSqlserverCompatible then index
    else offsetOf text (behindBracket (text.drop (index + 1)))
  else if (byte = Byte.backtick ∧ dialect.isMysqlCompatible) ∨ byte = Byte.quote ∨
      byte = Byte.doubleQuote then
    offsetOf text
      (behindQuoted byte (publicBackslashEscapes dialect text index byte) (text.drop (index + 1)))
  else index

/-! ## Bounds -/

theorem behindDelimiter_suffix {delimiter rest tail : Text}
    (found : behindDelimiter delimiter rest = some tail) : tail <:+ rest := by
  induction rest with
  | nil => cases found
  | cons byte rest inductionHypothesis =>
    unfold behindDelimiter at found
    split at found
    next =>
      cases found
      exact List.drop_suffix _ _
    next => exact (inductionHypothesis found).trans (List.suffix_cons byte rest)

theorem behindDelimiter_shorter {delimiter rest tail : Text} (present : delimiter ≠ [])
    (found : behindDelimiter delimiter rest = some tail) : tail.length < rest.length := by
  induction rest with
  | nil => cases found
  | cons byte rest inductionHypothesis =>
    unfold behindDelimiter at found
    split at found
    next =>
      cases found
      have := List.length_pos_iff.mpr present
      rw [List.length_drop, List.length_cons]
      omega
    next => exact (inductionHypothesis found).trans (Nat.lt_succ_self _)

theorem behindDelimiter_split {delimiter rest tail : Text} (found : behindDelimiter delimiter rest = some tail) :
    ∃ front, rest = front ++ delimiter ++ tail := by
  induction rest with
  | nil => cases found
  | cons byte rest inductionHypothesis =>
    rw [behindDelimiter] at found
    split at found
    next here =>
      obtain ⟨behind, isRest⟩ := List.isPrefixOf_iff_prefix.mp here
      refine ⟨[], ?_⟩
      rw [← isRest, List.drop_left] at found
      rw [List.nil_append, ← isRest, Option.some.inj found]
    · obtain ⟨front, rfl⟩ := inductionHypothesis found
      exact ⟨byte :: front, rfl⟩

theorem behindQQuote_suffix (close : UInt8) (rest : Text) : behindQQuote close rest <:+ rest := by
  induction rest with
  | nil => exact List.suffix_rfl
  | cons byte rest inductionHypothesis =>
    unfold behindQQuote
    split
    next => exact (List.drop_suffix 1 rest).trans (List.suffix_cons byte rest)
    next => exact inductionHypothesis.trans (List.suffix_cons byte rest)

theorem behindBlockComment_suffix (nested : Bool) (depth : Nat) (rest : Text) :
    behindBlockComment nested depth rest <:+ rest := by
  fun_induction behindBlockComment nested depth rest with
  | case1 => exact List.nil_suffix
  | case2 => exact List.nil_suffix
  | case3 depth rest first second tail jumped _ opens inductionHypothesis =>
    exact inductionHypothesis.trans ((List.suffix_cons second tail).trans (jumped_suffix jumped))
  | case4 depth rest first second tail jumped _ flat closes last =>
    exact (List.suffix_cons second tail).trans (jumped_suffix jumped)
  | case5 depth rest first second tail jumped _ flat closes inner inductionHypothesis =>
    exact inductionHypothesis.trans ((List.suffix_cons second tail).trans (jumped_suffix jumped))
  | case6 depth rest first second tail jumped _ flat other inductionHypothesis =>
    exact inductionHypothesis.trans (jumped_suffix jumped)

theorem behindBracket_suffix (rest : Text) : behindBracket rest <:+ rest := by
  fun_induction behindBracket rest with
  | case1 => exact List.nil_suffix
  | case2 => exact List.nil_suffix
  | case3 rest first second tail jumped _ ends => exact jumped_suffix jumped
  | case4 rest first second tail jumped _ doubled inductionHypothesis =>
    exact inductionHypothesis.trans ((List.suffix_cons second tail).trans (jumped_suffix jumped))

theorem behindQuoted_suffix (quote : UInt8) (escapes : Bool) (rest : Text) :
    behindQuoted quote escapes rest <:+ rest := by
  fun_induction behindQuoted quote escapes rest with
  | case1 => exact List.nil_suffix
  | case2 => exact List.nil_suffix
  | case3 rest first second tail jumped _ escaped inductionHypothesis =>
    exact inductionHypothesis.trans ((List.suffix_cons second tail).trans (jumped_suffix jumped))
  | case4 rest first second tail jumped _ plain ends => exact jumped_suffix jumped
  | case5 rest first second tail jumped _ plain doubled inductionHypothesis =>
    exact inductionHypothesis.trans ((List.suffix_cons second tail).trans (jumped_suffix jumped))

/-- A rest behind a rest at a later offset. -/
theorem offsetOf_later {text rest : Text} {index later : Nat} (inside : index ≤ text.length)
    (order : index ≤ later) (suffix : rest <:+ text.drop later) :
    index ≤ offsetOf text rest ∧ offsetOf text rest ≤ text.length := by
  refine le_offsetOf (suffix.trans ?_) inside
  rw [← Nat.add_sub_cancel' order, ← List.drop_drop]
  exact List.drop_suffix _ _

theorem publicSkip_bounds (dialect : Dialect) {text : Text} {index : Nat} (inside : index ≤ text.length) :
    index ≤ publicSkipQuotedOrComment dialect text index ∧
      publicSkipQuotedOrComment dialect text index ≤ text.length := by
  have stays : index ≤ index ∧ index ≤ text.length := ⟨le_rfl, inside⟩
  have dollarQuote : index ≤ publicSkipDollarQuote text index ∧
      publicSkipDollarQuote text index ≤ text.length := by
    unfold publicSkipDollarQuote
    dsimp only
    split
    next => exact stays
    next =>
      split
      next => exact stays
      next =>
        split
        next rest found => exact offsetOf_later inside (by omega) (behindDelimiter_suffix found)
        next => exact stays
  have qQuote : index ≤ publicSkipOracleQQuote dialect text index ∧
      publicSkipOracleQQuote dialect text index ≤ text.length := by
    unfold publicSkipOracleQQuote
    dsimp only
    split
    next => exact stays
    next =>
      have behindN (national : Prop) [Decidable national] : index ≤ if national then index + 1 else index := by
        split <;> omega
      split_ifs
      all_goals first
        | exact stays
        | exact offsetOf_later inside (by omega) (behindQQuote_suffix _ _)
  unfold publicSkipQuotedOrComment
  dsimp only
  split_ifs
  all_goals first
    | exact stays
    | exact dollarQuote
    | exact qQuote
    | exact offsetOf_later inside (by omega) (untilStop_suffix _ _)
    | exact offsetOf_later inside (by omega) (behindBlockComment_suffix _ _ _)
    | exact offsetOf_later inside (by omega) (behindBracket_suffix _)
    | exact offsetOf_later inside (by omega) (behindQuoted_suffix _ _ _)

/-! ## The loops byte by byte

The loops jump to the next byte that they test.  Seen from a single byte, a byte that is
not tested is passed.
-/

theorem untilStop_pass {stop : UInt8 → Bool} {byte : UInt8} (passed : stop byte = false) (rest : Text) :
    untilStop stop (byte :: rest) = untilStop stop rest := by
  simp [untilStop, passed]

theorem untilStop_here {stop : UInt8 → Bool} {byte : UInt8} (stops : stop byte) (rest : Text) :
    untilStop stop (byte :: rest) = byte :: rest := by
  simp [untilStop, stops]

def stopsQuoted (quote : UInt8) (escapes : Bool) (byte : UInt8) : Bool :=
  byte = quote || (escapes && byte = Byte.backslash)

/-- The turn of the loop over a quoted item at the byte to which it has jumped. -/
def quotedAt (quote : UInt8) (escapes : Bool) : Text → Text
  | [] => []
  | [_] => []
  | first :: second :: tail =>
    if first = Byte.backslash ∧ escapes then behindQuoted quote escapes tail
    else if second ≠ quote then second :: tail
    else behindQuoted quote escapes tail

theorem behindQuoted_jump (quote : UInt8) (escapes : Bool) (rest : Text) :
    behindQuoted quote escapes rest = quotedAt quote escapes (untilStop (stopsQuoted quote escapes) rest) := by
  rw [behindQuoted]
  change _ = quotedAt quote escapes (untilStop (fun byte => byte = quote || (escapes && byte = Byte.backslash)) rest)
  split
  next jumped => exact (congrArg (quotedAt quote escapes) jumped).symm
  next jumped => exact (congrArg (quotedAt quote escapes) jumped).symm
  next jumped => exact (congrArg (quotedAt quote escapes) jumped).symm

theorem behindQuoted_nil (quote : UInt8) (escapes : Bool) : behindQuoted quote escapes [] = [] := by
  rw [behindQuoted_jump]
  rfl

theorem behindQuoted_last (quote : UInt8) (escapes : Bool) (byte : UInt8) :
    behindQuoted quote escapes [byte] = [] := by
  rw [behindQuoted_jump]
  cases stops : stopsQuoted quote escapes byte with
  | false => rw [untilStop_pass stops]; rfl
  | true => rw [untilStop_here stops]; rfl

theorem behindQuoted_pass {quote byte : UInt8} {escapes : Bool} (passed : stopsQuoted quote escapes byte = false)
    (rest : Text) : behindQuoted quote escapes (byte :: rest) = behindQuoted quote escapes rest := by
  rw [behindQuoted_jump, untilStop_pass passed, ← behindQuoted_jump]

theorem behindQuoted_escape (quote next : UInt8) (rest : Text) :
    behindQuoted quote true (Byte.backslash :: next :: rest) = behindQuoted quote true rest := by
  rw [behindQuoted_jump, untilStop_here (by simp [stopsQuoted]), quotedAt, if_pos ⟨rfl, rfl⟩]

theorem behindQuoted_quote {quote : UInt8} {escapes : Bool} (plain : quote ≠ Byte.backslash) (next : UInt8)
    (rest : Text) :
    behindQuoted quote escapes (quote :: next :: rest) =
      if next = quote then behindQuoted quote escapes rest else next :: rest := by
  rw [behindQuoted_jump, untilStop_here (by simp [stopsQuoted]), quotedAt, if_neg (fun escaped => plain escaped.1),
    ite_not]

/-- A bracketed name is read as an item without escapes. -/
theorem behindBracket_quoted (rest : Text) : behindBracket rest = behindQuoted Byte.closeBracket false rest := by
  have stops : stopsQuoted Byte.closeBracket false = fun byte => decide (byte = Byte.closeBracket) := by
    funext byte
    simp [stopsQuoted]
  fun_induction behindBracket rest with
  | case1 rest jumped => rw [behindQuoted_jump, stops, jumped, quotedAt]
  | case2 rest byte jumped => rw [behindQuoted_jump, stops, jumped, quotedAt]
  | case3 rest first second tail jumped _ ends =>
    rw [behindQuoted_jump, stops, jumped, quotedAt, if_neg (by simp), if_pos ends]
  | case4 rest first second tail jumped _ doubled inductionHypothesis =>
    rw [behindQuoted_jump, stops, jumped, quotedAt, if_neg (by simp), if_neg doubled]
    exact inductionHypothesis

theorem behindQuoted_shorter (quote : UInt8) (escapes : Bool) {rest : Text} (present : rest ≠ []) :
    (behindQuoted quote escapes rest).length < rest.length := by
  have shorter := untilStop_length (stopsQuoted quote escapes) rest
  have positive := List.length_pos_iff.mpr present
  rw [behindQuoted_jump]
  cases jumped : untilStop (stopsQuoted quote escapes) rest with
  | nil => exact positive
  | cons first jumpedRest =>
    rw [jumped] at shorter
    cases jumpedRest with
    | nil => exact positive
    | cons second tail =>
      have tailShorter := (behindQuoted_suffix quote escapes tail).length_le
      simp only [List.length_cons] at shorter
      rw [quotedAt]
      split
      next => omega
      next =>
        split
        next => rw [List.length_cons]; omega
        next => omega

/-- A run of bytes that are not tested is passed. -/
theorem behindQuoted_run {quote : UInt8} {escapes : Bool} (run rest : Text)
    (passed : ∀ byte ∈ run, stopsQuoted quote escapes byte = false) :
    behindQuoted quote escapes (run ++ rest) = behindQuoted quote escapes rest := by
  induction run with
  | nil => rfl
  | cons byte run inductionHypothesis =>
    rw [List.cons_append, behindQuoted_pass (passed byte (.head _))]
    exact inductionHypothesis fun later listed => passed later (.tail _ listed)

/-- A run of quotes: doubled quotes are passed, and an odd quote ends the item. -/
theorem behindQuoted_quotes {quote : UInt8} {escapes : Bool} (plain : quote ≠ Byte.backslash) {after : Text}
    (other : after.head? ≠ some quote) (count : Nat) :
    behindQuoted quote escapes (List.replicate count quote ++ after) =
      if count % 2 = 1 then after else behindQuoted quote escapes after := by
  induction count using Nat.twoStepInduction with
  | zero => rfl
  | one =>
    rw [if_pos rfl, List.replicate_one, List.singleton_append]
    cases after with
    | nil => exact behindQuoted_last _ _ _
    | cons next rest =>
      rw [behindQuoted_quote plain, if_neg]
      rintro rfl
      exact other rfl
  | more count inductionHypothesis _ =>
    rw [List.replicate_succ, List.replicate_succ, List.cons_append, List.cons_append, behindQuoted_quote plain,
      if_pos rfl, inductionHypothesis, Nat.add_mod_right]

/-- The turn of the loop over a block comment at the byte to which it has jumped. -/
def blockCommentAt (nested : Bool) (depth : Nat) : Text → Text
  | [] => []
  | [_] => []
  | first :: second :: tail =>
    if nested ∧ first = Byte.slash ∧ second = Byte.star then behindBlockComment nested (depth + 1) tail
    else if first = Byte.star ∧ second = Byte.slash then
      if depth - 1 = 0 then tail else behindBlockComment nested (depth - 1) tail
    else behindBlockComment nested depth (second :: tail)

def stopsBlockComment (nested : Bool) (byte : UInt8) : Bool :=
  byte = Byte.star || (nested && byte = Byte.slash)

theorem behindBlockComment_jump (nested : Bool) (depth : Nat) (rest : Text) :
    behindBlockComment nested depth rest =
      blockCommentAt nested depth (untilStop (stopsBlockComment nested) rest) := by
  rw [behindBlockComment]
  change _ = blockCommentAt nested depth
    (untilStop (fun byte => byte = Byte.star || (nested && byte = Byte.slash)) rest)
  split
  next jumped => exact (congrArg (blockCommentAt nested depth) jumped).symm
  next jumped => exact (congrArg (blockCommentAt nested depth) jumped).symm
  next jumped => exact (congrArg (blockCommentAt nested depth) jumped).symm

theorem behindBlockComment_last (nested : Bool) (depth : Nat) (byte : UInt8) :
    behindBlockComment nested depth [byte] = [] := by
  rw [behindBlockComment_jump]
  cases stops : stopsBlockComment nested byte with
  | false => rw [untilStop_pass stops]; rfl
  | true => rw [untilStop_here stops]; rfl

theorem behindBlockComment_pass {nested : Bool} {byte : UInt8} (depth : Nat)
    (passed : stopsBlockComment nested byte = false) (rest : Text) :
    behindBlockComment nested depth (byte :: rest) = behindBlockComment nested depth rest := by
  rw [behindBlockComment_jump, untilStop_pass passed, ← behindBlockComment_jump]

/-- A comment that does not nest ends behind the first closing pair. -/
theorem behindBlockComment_flat (rest : Text) :
    behindBlockComment false 1 rest = (behindDelimiter [Byte.star, Byte.slash] rest).getD [] := by
  induction rest with
  | nil => rw [behindBlockComment_jump]; rfl
  | cons byte rest inductionHypothesis =>
    by_cases star : byte = Byte.star
    case neg =>
      rw [behindBlockComment_pass 1 (by simp [stopsBlockComment, star]), inductionHypothesis, behindDelimiter,
        if_neg (by simp [List.isPrefixOf, Ne.symm star])]
    case pos =>
      subst star
      cases rest with
      | nil => rw [behindBlockComment_last]; rfl
      | cons next tail =>
        rw [behindBlockComment_jump, untilStop_here (by simp [stopsBlockComment]), blockCommentAt,
          if_neg (by simp), behindDelimiter]
        by_cases slash : next = Byte.slash
        case pos => rw [if_pos ⟨rfl, slash⟩, if_pos rfl, if_pos (by simp [slash])]; rfl
        case neg =>
          rw [if_neg (fun closes => slash closes.2), inductionHypothesis,
            if_neg (by simp [List.isPrefixOf, Ne.symm slash])]

end SqlParser.Core
