import SqlParser.Core.SurfaceScan

/-! # The public lexer byte by byte

`sqlparser_public_skip_quoted_or_comment` jumps with `strcspn` to the bytes that end a construct.  The
reference reads one byte after the other up to the terminating NUL, as the scanner did before it was made
fast, and the two return the same offset.
-/

namespace SqlParser.Core

/-! ## The source -/

/-- `sqlparser_public_skip_trivia` -/
def publicSkipTrivia (dialect : Dialect) (sql : Text) (pos : Nat) : Nat :=
  if _present : byteAt sql pos ≠ 0 then
    if isSpace (byteAt sql pos) then publicSkipTrivia dialect sql (pos + 1)
    else if !publicCommentAt dialect sql pos then pos
    -- the source does not trust the comment to move
    else if _stuck : publicSkipQuotedOrComment dialect sql pos = pos then pos
    else publicSkipTrivia dialect sql (publicSkipQuotedOrComment dialect sql pos)
  else pos
termination_by sql.length - pos
decreasing_by
  all_goals have inside := lt_of_byteAt _present
  · omega
  · have bounds := publicSkip_bounds dialect inside.le
    omega

/-! ## The reference -/

/-- `strncmp` finds no difference between the bytes from two offsets on; a delimiter holds no NUL. -/
def sameBytes (sql : Text) (left right count : Nat) : Bool :=
  decide (∀ shift < count, byteAt sql (left + shift) = byteAt sql (right + shift))

def referenceTagEnd (sql : Text) (pos : Nat) : Nat :=
  if _tag : publicDollarTagCharIsIdent (byteAt sql pos) then referenceTagEnd sql (pos + 1) else pos
termination_by sql.length - pos
decreasing_by
  have present : byteAt sql pos ≠ 0 := by
    intro ends
    rw [ends] at _tag
    cases _tag
  have inside := lt_of_byteAt present
  omega

/-- The loop over the body of a dollar quote: the offset behind the closing delimiter. -/
def referenceDollarBody (sql : Text) (index delimiterLength body : Nat) : Option Nat :=
  if _present : byteAt sql body ≠ 0 then
    if sameBytes sql body index delimiterLength then some (body + delimiterLength)
    else referenceDollarBody sql index delimiterLength (body + 1)
  else none
termination_by sql.length - body
decreasing_by
  have inside := lt_of_byteAt _present
  omega

def referenceSkipDollarQuote (sql : Text) (index : Nat) : Nat :=
  let previous := byteAt sql (index - 1)
  if byteAt sql index ≠ Byte.dollar ∨ (0 < index ∧
      (isAlnum previous ∨ previous = Byte.underscore ∨ previous = Byte.dollar ∨ previous ≥ 0x80)) then
    index
  else
    let tagEnd := referenceTagEnd sql (index + 1)
    if byteAt sql tagEnd ≠ Byte.dollar then index
    else (referenceDollarBody sql index (tagEnd - index + 1) (tagEnd + 1)).getD index

def referenceQQuoteBody (sql : Text) (close : UInt8) (pos : Nat) : Nat :=
  if _present : byteAt sql pos ≠ 0 then
    if byteAt sql pos = close ∧ byteAt sql (pos + 1) = Byte.quote then pos + 2
    else referenceQQuoteBody sql close (pos + 1)
  else pos
termination_by sql.length - pos
decreasing_by
  have inside := lt_of_byteAt _present
  omega

def referenceSkipOracleQQuote (dialect : Dialect) (sql : Text) (index : Nat) : Nat :=
  if !dialect.isOracleOrDamengCompatible then index
  else
    let isN := byteAt sql index = 110 ∨ byteAt sql index = 78
    let isQ := fun (byte : UInt8) => byte = 113 ∨ byte = 81
    let pos := if isN ∧ isQ (byteAt sql (index + 1)) then index + 1 else index
    if ¬ isQ (byteAt sql pos) ∨ byteAt sql (pos + 1) ≠ Byte.quote ∨ byteAt sql (pos + 2) = 0 then index
    else
      let opener := byteAt sql (pos + 2)
      let close :=
        if opener = Byte.openBracket then Byte.closeBracket
        else if opener = 123 then 125
        else if opener = 40 then 41
        else if opener = 60 then 62
        else opener
      referenceQQuoteBody sql close (pos + 3)

def referenceLine (sql : Text) (pos : Nat) : Nat :=
  if _going : byteAt sql pos ≠ 0 ∧ byteAt sql pos ≠ Byte.lineFeed then referenceLine sql (pos + 1) else pos
termination_by sql.length - pos
decreasing_by
  have inside := lt_of_byteAt _going.1
  omega

def referenceBlockComment (sql : Text) (nested : Bool) (depth pos : Nat) : Nat :=
  if _going : byteAt sql pos ≠ 0 ∧ byteAt sql (pos + 1) ≠ 0 then
    if nested ∧ byteAt sql pos = Byte.slash ∧ byteAt sql (pos + 1) = Byte.star then
      referenceBlockComment sql nested (depth + 1) (pos + 2)
    else if byteAt sql pos = Byte.star ∧ byteAt sql (pos + 1) = Byte.slash then
      if depth - 1 = 0 then pos + 2 else referenceBlockComment sql nested (depth - 1) (pos + 2)
    else referenceBlockComment sql nested depth (pos + 1)
  -- the last byte of a comment that is not closed is looked at on its own
  else if byteAt sql pos = 0 then pos
  else pos + 1
termination_by sql.length - pos
decreasing_by
  all_goals
    have inside := lt_of_byteAt _going.1
    omega

/-- The loop over a quoted item or a bracketed name. -/
def referenceQuoted (sql : Text) (quote : UInt8) (escapes : Bool) (pos : Nat) : Nat :=
  if _present : byteAt sql pos ≠ 0 then
    if byteAt sql pos = Byte.backslash ∧ escapes ∧ byteAt sql (pos + 1) ≠ 0 then
      referenceQuoted sql quote escapes (pos + 2)
    else if byteAt sql pos = quote then
      if byteAt sql (pos + 1) = quote then referenceQuoted sql quote escapes (pos + 2) else pos + 1
    else referenceQuoted sql quote escapes (pos + 1)
  else pos
termination_by sql.length - pos
decreasing_by
  all_goals
    have inside := lt_of_byteAt _present
    omega

/-- The reference of the repository's own comparison of the scanners. -/
def referenceSkipQuotedOrComment (dialect : Dialect) (sql : Text) (index : Nat) : Nat :=
  let byte := byteAt sql index
  let next := byteAt sql (index + 1)
  let third := byteAt sql (index + 2)
  let dollarQuote :=
    if dialect.usesPostgresqlPlaceholders || dialect.isOracleCompatible then referenceSkipDollarQuote sql index
    else index
  let qQuote := referenceSkipOracleQQuote dialect sql index
  if byte = 0 then index
  else if dollarQuote ≠ index then dollarQuote
  else if qQuote ≠ index then qQuote
  else if byte = Byte.dash ∧ next = Byte.dash then
    if dialect.isMysqlCompatible && third ≠ 0 && !isSpace third && !isControl third then index
    else referenceLine sql (index + 2)
  else if dialect.isMysqlCompatible ∧ byte = Byte.hash then referenceLine sql (index + 1)
  else if byte = Byte.slash ∧ next = Byte.star then
    referenceBlockComment sql (publicNestedComments dialect) 1 (index + 2)
  else if dialect.isSqlserverCompatible ∧ byte = Byte.openBracket then
    referenceQuoted sql Byte.closeBracket false (index + 1)
  else if byte ≠ Byte.quote ∧ byte ≠ Byte.doubleQuote ∧ (!dialect.isMysqlCompatible ∨ byte ≠ Byte.backtick) then
    index
  else referenceQuoted sql byte (publicBackslashEscapes dialect sql index byte) (index + 1)

/-! ## The jumps at a pair of bytes -/

theorem behindBlockComment_pair (nested : Bool) (depth : Nat) (first second : UInt8) (tail : Text) :
    behindBlockComment nested depth (first :: second :: tail) =
      blockCommentAt nested depth (first :: second :: tail) := by
  cases stops : stopsBlockComment nested first with
  | true => rw [behindBlockComment_jump, untilStop_here stops]
  | false =>
    rw [stopsBlockComment, Bool.or_eq_false_iff, decide_eq_false_iff_not] at stops
    rw [behindBlockComment_pass depth (by rw [stopsBlockComment]; simp [stops.1]; simpa using stops.2), blockCommentAt,
      if_neg, if_neg (fun closes => stops.1 closes.1)]
    rintro ⟨rfl, rfl, -⟩
    cases stops.2

theorem behindQuoted_pair (quote : UInt8) (escapes : Bool) (first second : UInt8) (tail : Text) :
    behindQuoted quote escapes (first :: second :: tail) =
      if first = Byte.backslash ∧ escapes then behindQuoted quote escapes tail
      else if first = quote then if second = quote then behindQuoted quote escapes tail else second :: tail
      else behindQuoted quote escapes (second :: tail) := by
  cases stops : stopsQuoted quote escapes first with
  | true =>
    rw [behindQuoted_jump, untilStop_here stops, quotedAt]
    simp only [stopsQuoted, Bool.or_eq_true, Bool.and_eq_true, decide_eq_true_eq] at stops
    by_cases escaped : first = Byte.backslash ∧ escapes
    · rw [if_pos escaped, if_pos escaped]
    · rw [if_neg escaped, if_neg escaped, if_pos (stops.resolve_right fun both => escaped both.symm), ite_not]
  | false =>
    rw [behindQuoted_pass stops]
    simp only [stopsQuoted, Bool.or_eq_false_iff, Bool.and_eq_false_iff, decide_eq_false_iff_not] at stops
    rw [if_neg (by rintro ⟨rfl, rfl⟩; simp at stops), if_neg stops.1]

/-! ## The loops of the two -/

section loops

variable {sql : Text}

theorem drop_present {pos : Nat} (present : byteAt sql pos ≠ 0) : sql.drop pos = byteAt sql pos :: sql.drop (pos + 1) :=
  drop_eq_byteAt (lt_of_byteAt present)

theorem drop_pair {pos : Nat} (present : byteAt sql (pos + 1) ≠ 0) :
    sql.drop pos = byteAt sql pos :: byteAt sql (pos + 1) :: sql.drop (pos + 2) := by
  have inside := lt_of_byteAt present
  rw [drop_eq_byteAt (by omega), drop_eq_byteAt inside]

variable (terminated : 0 ∉ sql)
include terminated

theorem byteAt_present {pos : Nat} (inside : pos < sql.length) : byteAt sql pos ≠ 0 := by
  intro ends
  exact terminated (ends ▸ byteAt_mem inside)

theorem drop_ended {pos : Nat} (ended : byteAt sql pos = 0) : sql.drop pos = [] := by
  rw [List.drop_eq_nil_iff]
  by_contra inside
  exact byteAt_present terminated (Nat.lt_of_not_le inside) ended

theorem offsetOf_ended {pos : Nat} (inside : pos ≤ sql.length) (ended : byteAt sql pos = 0) : offsetOf sql [] = pos :=
  Nat.le_antisymm (List.drop_eq_nil_iff.mp (drop_ended terminated ended)) inside

theorem line_agrees {pos : Nat} (inside : pos ≤ sql.length) :
    offsetOf sql (behindLine (sql.drop pos)) = referenceLine sql pos := by
  fun_induction referenceLine sql pos with
  | case1 pos going inductionHypothesis =>
    rw [drop_present going.1, behindLine, untilStop_pass (by simpa using going.2)]
    exact inductionHypothesis (lt_of_byteAt going.1)
  | case2 pos ended =>
    by_cases present : byteAt sql pos = 0
    case pos =>
      rw [drop_ended terminated present, behindLine]
      exact offsetOf_ended terminated inside present
    case neg =>
      have lineFeed : byteAt sql pos = Byte.lineFeed := by_contra fun other => ended ⟨present, other⟩
      rw [drop_present present, behindLine, untilStop_here (by simpa using lineFeed), ← drop_present present,
        offsetOf_drop inside]

theorem blockComment_agrees (nested : Bool) (depth : Nat) {pos : Nat} (inside : pos ≤ sql.length) :
    offsetOf sql (behindBlockComment nested depth (sql.drop pos)) = referenceBlockComment sql nested depth pos := by
  fun_induction referenceBlockComment sql nested depth pos with
  | case1 depth pos going opens inductionHypothesis =>
    rw [drop_pair going.2, behindBlockComment_pair, blockCommentAt, if_pos opens]
    exact inductionHypothesis (lt_of_byteAt going.2)
  | case2 depth pos going flat closes last =>
    rw [drop_pair going.2, behindBlockComment_pair, blockCommentAt, if_neg flat, if_pos closes, if_pos last]
    exact offsetOf_drop (lt_of_byteAt going.2)
  | case3 depth pos going flat closes inner inductionHypothesis =>
    rw [drop_pair going.2, behindBlockComment_pair, blockCommentAt, if_neg flat, if_pos closes, if_neg inner]
    exact inductionHypothesis (lt_of_byteAt going.2)
  | case4 depth pos going flat other inductionHypothesis =>
    rw [drop_pair going.2, behindBlockComment_pair, blockCommentAt, if_neg flat, if_neg other, ← drop_present going.2]
    exact inductionHypothesis (lt_of_byteAt going.1)
  | case5 depth pos ended present =>
    rw [drop_ended terminated present, behindBlockComment_jump]
    exact offsetOf_ended terminated inside present
  | case6 depth pos ended present =>
    have last : byteAt sql (pos + 1) = 0 := by_contra fun next => ended ⟨present, next⟩
    rw [drop_present present, drop_ended terminated last, behindBlockComment_last]
    exact offsetOf_ended terminated (lt_of_byteAt present) last

theorem quoted_agrees {quote : UInt8} (escapes : Bool) (plain : quote ≠ Byte.backslash) (visible : quote ≠ 0) {pos : Nat}
    (inside : pos ≤ sql.length) :
    offsetOf sql (behindQuoted quote escapes (sql.drop pos)) = referenceQuoted sql quote escapes pos := by
  fun_induction referenceQuoted sql quote escapes pos with
  | case1 pos present escaped inductionHypothesis =>
    rw [drop_pair escaped.2.2, behindQuoted_pair, if_pos ⟨escaped.1, escaped.2.1⟩]
    exact inductionHypothesis (lt_of_byteAt escaped.2.2)
  | case2 pos present unescaped ends doubled inductionHypothesis =>
    have next : byteAt sql (pos + 1) ≠ 0 := by rwa [doubled]
    rw [drop_pair next, behindQuoted_pair, if_neg (fun escaped => plain (ends ▸ escaped.1)), if_pos ends, if_pos doubled]
    exact inductionHypothesis (lt_of_byteAt next)
  | case3 pos present unescaped ends single =>
    by_cases next : byteAt sql (pos + 1) = 0
    case pos =>
      rw [drop_present present, drop_ended terminated next, behindQuoted_last]
      exact offsetOf_ended terminated (lt_of_byteAt present) next
    case neg =>
      rw [drop_pair next, behindQuoted_pair, if_neg (fun escaped => plain (ends ▸ escaped.1)), if_pos ends, if_neg single,
        ← drop_present next]
      exact offsetOf_drop (lt_of_byteAt present)
  | case4 pos present unescaped other inductionHypothesis =>
    have behind := inductionHypothesis (lt_of_byteAt present)
    by_cases next : byteAt sql (pos + 1) = 0
    case pos =>
      rw [drop_ended terminated next, behindQuoted_nil] at behind
      rw [drop_present present, drop_ended terminated next, behindQuoted_last, behind]
    case neg =>
      have unescapedPair : ¬ (byteAt sql pos = Byte.backslash ∧ escapes) := fun escaped =>
        unescaped ⟨escaped.1, escaped.2, next⟩
      rw [drop_pair next, behindQuoted_pair, if_neg unescapedPair, if_neg other, ← drop_present next]
      exact behind
  | case5 pos ended =>
    rw [not_not] at ended
    rw [drop_ended terminated ended, behindQuoted_nil]
    exact offsetOf_ended terminated inside ended

theorem qQuote_agrees {close : UInt8} {pos : Nat} (inside : pos ≤ sql.length) :
    offsetOf sql (behindQQuote close (sql.drop pos)) = referenceQQuoteBody sql close pos := by
  fun_induction referenceQQuoteBody sql close pos with
  | case1 pos present closes =>
    have next : byteAt sql (pos + 1) ≠ 0 := by rw [closes.2]; decide
    rw [drop_pair next, behindQQuote, closes.2, if_pos ⟨closes.1, rfl⟩, List.drop_one, List.tail_cons]
    exact offsetOf_drop (lt_of_byteAt next)
  | case2 pos present goesOn inductionHypothesis =>
    have noQuote (closes : byteAt sql pos = close ∧ (sql.drop (pos + 1)).head? = some Byte.quote) : False := by
      refine goesOn ⟨closes.1, ?_⟩
      rw [byteAt_eq_head, List.headD_eq_head?_getD, closes.2]
      rfl
    rw [drop_present present, behindQQuote, if_neg noQuote]
    exact inductionHypothesis (lt_of_byteAt present)
  | case3 pos ended =>
    rw [not_not] at ended
    rw [drop_ended terminated ended, behindQQuote]
    exact offsetOf_ended terminated inside ended

omit terminated in
theorem tagEnd_agrees (pos : Nat) : runEnd publicDollarTagCharIsIdent sql pos = referenceTagEnd sql pos := by
  fun_induction referenceTagEnd sql pos with
  | case1 pos tag inductionHypothesis => rw [runEnd_unfold _ _ _ rfl, if_pos tag, inductionHypothesis]
  | case2 pos other => rw [runEnd_unfold _ _ _ rfl, if_neg other]

omit terminated in
theorem getElem?_iff_byteAt {pos : Nat} {byte : UInt8} (visible : byte ≠ 0) :
    sql[pos]? = some byte ↔ byteAt sql pos = byte := by
  rw [byteAt, List.getD_eq_getElem?_getD]
  cases sql[pos]? with
  | none => simp [Ne.symm visible]
  | some found => simp

/-- The delimiter begins a rest of the text where `strncmp` finds no difference. -/
theorem delimiter_begins {index count body : Nat} (inside : index + count ≤ sql.length) :
    ((sql.drop index).take count).isPrefixOf (sql.drop body) ↔ sameBytes sql body index count := by
  have length : ((sql.drop index).take count).length = count := by
    rw [List.length_take, List.length_drop]
    omega
  have compared (shift : Nat) (early : shift < ((sql.drop index).take count).length) :
      (sql.drop body)[shift]? = some ((sql.drop index).take count)[shift] ↔
        byteAt sql (body + shift) = byteAt sql (index + shift) := by
    have within : index + shift < sql.length := by omega
    have same : ((sql.drop index).take count)[shift] = byteAt sql (index + shift) := by
      rw [List.getElem_take, List.getElem_drop, byteAt, List.getD_eq_getElem _ _ within]
    rw [same, List.getElem?_drop, getElem?_iff_byteAt (byteAt_present terminated within)]
  rw [List.isPrefixOf_iff_prefix, List.prefix_iff_getElem?, sameBytes, decide_eq_true_iff]
  constructor
  · intro begins shift early
    have here : shift < ((sql.drop index).take count).length := by rwa [length]
    exact (compared shift here).mp (begins shift here)
  · intro same shift early
    exact (compared shift early).mpr (same shift (by rwa [length] at early))

theorem dollarBody_agrees {index count body : Nat} (delimiterInside : index + count ≤ sql.length)
    (inside : body ≤ sql.length) :
    (behindDelimiter ((sql.drop index).take count) (sql.drop body)).map (offsetOf sql) =
      referenceDollarBody sql index count body := by
  have length : ((sql.drop index).take count).length = count := by
    rw [List.length_take, List.length_drop]
    omega
  fun_induction referenceDollarBody sql index count body with
  | case1 body present same =>
    have begins := (delimiter_begins terminated delimiterInside).mpr same
    have fits := (List.isPrefixOf_iff_prefix.mp begins).length_le
    rw [length, List.length_drop] at fits
    rw [drop_present present, behindDelimiter, ← drop_present present, if_pos begins, length, List.drop_drop,
      Option.map_some, offsetOf_drop (by omega)]
  | case2 body present other inductionHypothesis =>
    rw [drop_present present, behindDelimiter, ← drop_present present,
      if_neg (fun begins => other ((delimiter_begins terminated delimiterInside).mp begins))]
    exact inductionHypothesis (lt_of_byteAt present)
  | case3 body ended =>
    rw [not_not] at ended
    rw [drop_ended terminated ended]
    rfl

/-! ## The two lexers -/

theorem dollarQuote_agrees (index : Nat) : publicSkipDollarQuote sql index = referenceSkipDollarQuote sql index := by
  have tagEnd : index + 1 + ((sql.drop (index + 1)).takeWhile publicDollarTagCharIsIdent).length =
      referenceTagEnd sql (index + 1) := tagEnd_agrees (index + 1)
  unfold publicSkipDollarQuote referenceSkipDollarQuote
  simp only [tagEnd]
  split
  case isTrue => rfl
  case isFalse opens =>
    split
    case isTrue => rfl
    case isFalse closes =>
      have order : index + 1 ≤ referenceTagEnd sql (index + 1) := by
        rw [← tagEnd]
        exact Nat.le_add_right _ _
      have closed : byteAt sql (referenceTagEnd sql (index + 1)) ≠ 0 := by
        rw [not_not.mp closes]
        decide
      have inside := lt_of_byteAt closed
      rw [← dollarBody_agrees terminated (by omega) (by omega)]
      cases behindDelimiter ((sql.drop index).take (referenceTagEnd sql (index + 1) - index + 1))
        (sql.drop (referenceTagEnd sql (index + 1) + 1)) with
      | none => rfl
      | some rest => rfl

theorem oracleQQuote_agrees (dialect : Dialect) (index : Nat) :
    publicSkipOracleQQuote dialect sql index = referenceSkipOracleQQuote dialect sql index := by
  unfold publicSkipOracleQQuote referenceSkipOracleQQuote
  dsimp only
  generalize (if (byteAt sql index = 110 ∨ byteAt sql index = 78) ∧
    (byteAt sql (index + 1) = 113 ∨ byteAt sql (index + 1) = 81) then index + 1 else index) = pos
  split
  case isTrue => rfl
  case isFalse =>
    split
    case isTrue => rfl
    case isFalse opens =>
      have opener : byteAt sql (pos + 2) ≠ 0 := fun ended => opens (.inr (.inr ended))
      exact qQuote_agrees terminated (lt_of_byteAt opener)

omit terminated in
theorem dollarQuote_other {index : Nat} (other : byteAt sql index ≠ Byte.dollar) :
    referenceSkipDollarQuote sql index = index := by
  rw [referenceSkipDollarQuote]
  exact if_pos (.inl other)

omit terminated in
theorem oracleQQuote_other (dialect : Dialect) {index : Nat}
    (other : ¬ (byteAt sql index = 113 ∨ byteAt sql index = 81 ∨ byteAt sql index = 110 ∨ byteAt sql index = 78)) :
    referenceSkipOracleQQuote dialect sql index = index := by
  have noN : ¬ (byteAt sql index = 110 ∨ byteAt sql index = 78) := fun letter => other (.inr (.inr letter))
  have noQ : ¬ (byteAt sql index = 113 ∨ byteAt sql index = 81) := by
    rintro (lower | upper)
    · exact other (.inl lower)
    · exact other (.inr (.inl upper))
  simp only [referenceSkipOracleQQuote, noN, noQ, false_and, if_false, not_false_eq_true, true_or, if_true, ite_self]

theorem dollar_agrees (dialect : Dialect) {index : Nat} (dollar : byteAt sql index = Byte.dollar) :
    publicSkipQuotedOrComment dialect sql index = referenceSkipQuotedOrComment dialect sql index := by
  have noQQuote := oracleQQuote_other dialect (show ¬ (_ ∨ _ ∨ _ ∨ _) by rw [dollar]; decide)
  rw [publicSkipQuotedOrComment, referenceSkipQuotedOrComment, dollarQuote_agrees terminated, noQQuote]
  simp [dollar, Byte.dollar, Byte.dash, Byte.hash, Byte.slash, Byte.openBracket, Byte.quote, Byte.doubleQuote,
    Byte.backtick]

theorem letter_agrees (dialect : Dialect) {index : Nat}
    (letter : byteAt sql index = 113 ∨ byteAt sql index = 81 ∨ byteAt sql index = 110 ∨ byteAt sql index = 78) :
    publicSkipQuotedOrComment dialect sql index = referenceSkipQuotedOrComment dialect sql index := by
  have noDollar : byteAt sql index ≠ Byte.dollar := by
    rcases letter with q | q | q | q <;> (rw [q]; decide)
  rw [publicSkipQuotedOrComment, referenceSkipQuotedOrComment, oracleQQuote_agrees terminated,
    dollarQuote_other noDollar]
  rcases letter with q | q | q | q
  all_goals
    simp [q, Byte.dollar, Byte.dash, Byte.hash, Byte.slash, Byte.openBracket, Byte.quote, Byte.doubleQuote,
      Byte.backtick]

/-- The openings that are no names: each leads to the same loop in both. -/
theorem opening_agrees (dialect : Dialect) {index : Nat} (noDollar : byteAt sql index ≠ Byte.dollar)
    (noLetter : ¬ (byteAt sql index = 113 ∨ byteAt sql index = 81 ∨ byteAt sql index = 110 ∨ byteAt sql index = 78)) :
    publicSkipQuotedOrComment dialect sql index = referenceSkipQuotedOrComment dialect sql index := by
  rw [publicSkipQuotedOrComment, referenceSkipQuotedOrComment, dollarQuote_other noDollar,
    oracleQQuote_other dialect noLetter]
  dsimp only
  rw [if_neg noDollar, if_neg noLetter]
  by_cases ended : byteAt sql index = 0
  case pos =>
    simp [ended, Byte.dash, Byte.hash, Byte.slash, Byte.openBracket, Byte.quote, Byte.doubleQuote, Byte.backtick]
  -- each opening that the reference tests, in its order, and then the quotes
  have behind := lt_of_byteAt ended
  have line := line_agrees terminated (show index + 1 ≤ sql.length from behind)
  by_cases dash : byteAt sql index = Byte.dash
  case pos =>
    by_cases next : byteAt sql (index + 1) = Byte.dash
    case pos =>
      have two := lt_of_byteAt (show byteAt sql (index + 1) ≠ 0 by rw [next]; decide)
      have line := line_agrees terminated (show index + 2 ≤ sql.length from two)
      simp [dash, next, line, Byte.dash]
    case neg =>
      simp [dash, next, Byte.dash, Byte.hash, Byte.slash, Byte.openBracket, Byte.quote, Byte.doubleQuote, Byte.backtick]
  by_cases hash : byteAt sql index = Byte.hash
  case pos =>
    cases dialect.isMysqlCompatible <;>
      simp [hash, line, Byte.dash, Byte.hash, Byte.slash, Byte.openBracket, Byte.quote, Byte.doubleQuote]
  by_cases slash : byteAt sql index = Byte.slash
  case pos =>
    by_cases next : byteAt sql (index + 1) = Byte.star
    case pos =>
      have two := lt_of_byteAt (show byteAt sql (index + 1) ≠ 0 by rw [next]; decide)
      have block := blockComment_agrees terminated (publicNestedComments dialect) 1 (show index + 2 ≤ sql.length from two)
      simp [slash, next, block, Byte.dash, Byte.hash, Byte.slash]
    case neg =>
      simp [slash, next, Byte.dash, Byte.hash, Byte.slash, Byte.openBracket, Byte.quote, Byte.doubleQuote, Byte.backtick]
  by_cases bracket : byteAt sql index = Byte.openBracket
  case pos =>
    have name := quoted_agrees terminated false (show Byte.closeBracket ≠ Byte.backslash by decide) (by decide)
      (show index + 1 ≤ sql.length from behind)
    cases dialect.isSqlserverCompatible <;>
      simp [bracket, behindBracket_quoted, name, Byte.dash, Byte.hash, Byte.slash, Byte.openBracket, Byte.quote,
        Byte.doubleQuote, Byte.backtick]
  have noLine : ¬ (byteAt sql index = Byte.dash ∧ byteAt sql (index + 1) = Byte.dash) := fun line => dash line.1
  have noHash : ¬ (dialect.isMysqlCompatible ∧ byteAt sql index = Byte.hash) := fun line => hash line.2
  have noBlock : ¬ (byteAt sql index = Byte.slash ∧ byteAt sql (index + 1) = Byte.star) := fun block => slash block.1
  have noName : ¬ (dialect.isSqlserverCompatible ∧ byteAt sql index = Byte.openBracket) := fun name => bracket name.2
  rw [if_neg dash, if_neg hash, if_neg slash, if_neg bracket, if_neg ended, ite_self, if_neg (not_not_intro rfl),
    if_neg (not_not_intro rfl), if_neg noLine, if_neg noHash, if_neg noBlock, if_neg noName]
  have noItem : (byteAt sql index ≠ Byte.quote ∧ byteAt sql index ≠ Byte.doubleQuote ∧
      (!dialect.isMysqlCompatible ∨ byteAt sql index ≠ Byte.backtick)) ↔
        ¬ ((byteAt sql index = Byte.backtick ∧ dialect.isMysqlCompatible) ∨ byteAt sql index = Byte.quote ∨
          byteAt sql index = Byte.doubleQuote) := by
    constructor
    · rintro ⟨noQuote, noDoubleQuote, noBacktick⟩ (⟨backtick, mysql⟩ | quote | doubleQuote)
      · rw [mysql] at noBacktick
        exact noBacktick.elim (fun other => by cases other) (fun other => other backtick)
      · exact noQuote quote
      · exact noDoubleQuote doubleQuote
    · intro other
      refine ⟨fun quote => other (.inr (.inl quote)), fun quote => other (.inr (.inr quote)), ?_⟩
      cases mysql : dialect.isMysqlCompatible with
      | false => exact .inl rfl
      | true => exact .inr fun backtick => other (.inl ⟨backtick, mysql⟩)
  simp only [noItem]
  by_cases quoted : (byteAt sql index = Byte.backtick ∧ dialect.isMysqlCompatible) ∨ byteAt sql index = Byte.quote ∨
      byteAt sql index = Byte.doubleQuote
  case pos =>
    have plain : byteAt sql index ≠ Byte.backslash := by
      rcases quoted with backtick | quote | doubleQuote
      · rw [backtick.1]; decide
      · rw [quote]; decide
      · rw [doubleQuote]; decide
    rw [if_pos quoted, if_neg (not_not_intro quoted)]
    exact quoted_agrees terminated _ plain ended behind
  case neg =>
    rw [if_neg quoted, if_pos quoted]

theorem skip_agrees (dialect : Dialect) (index : Nat) :
    publicSkipQuotedOrComment dialect sql index = referenceSkipQuotedOrComment dialect sql index := by
  by_cases dollar : byteAt sql index = Byte.dollar
  case pos => exact dollar_agrees terminated dialect dollar
  by_cases letter : byteAt sql index = 113 ∨ byteAt sql index = 81 ∨ byteAt sql index = 110 ∨ byteAt sql index = 78
  case pos => exact letter_agrees terminated dialect letter
  exact opening_agrees terminated dialect dollar letter

end loops

/-! ## Trivia -/

/-- The offsets behind blanks and whole comments. -/
inductive TriviaRun (dialect : Dialect) (sql : Text) (start : Nat) : Nat → Prop where
  | start : TriviaRun dialect sql start start
  | blank {pos : Nat} (run : TriviaRun dialect sql start pos) (blank : isSpace (byteAt sql pos)) :
      TriviaRun dialect sql start (pos + 1)
  | comment {pos : Nat} (run : TriviaRun dialect sql start pos) (opens : publicCommentAt dialect sql pos) :
      TriviaRun dialect sql start (referenceSkipQuotedOrComment dialect sql pos)

/-- The byte stands in a comment that opens behind blanks and whole comments. -/
def InComment (dialect : Dialect) (sql : Text) (start pos : Nat) : Prop :=
  ∃ opening, TriviaRun dialect sql start opening ∧ publicCommentAt dialect sql opening ∧ opening ≤ pos ∧
    pos < referenceSkipQuotedOrComment dialect sql opening

section trivia

variable {dialect : Dialect} {sql : Text} {start pos : Nat}

theorem isSpace_present (blank : isSpace (byteAt sql pos)) : byteAt sql pos ≠ 0 := by
  intro ended
  rw [ended] at blank
  cases blank

/-- The bytes that open a comment are no blanks, and no NUL. -/
theorem publicCommentAt_byte (comment : publicCommentAt dialect sql pos) :
    byteAt sql pos = Byte.slash ∨ byteAt sql pos = Byte.dash ∨ byteAt sql pos = Byte.hash := by
  unfold publicCommentAt at comment
  split at comment
  next block => exact .inl block.1
  next =>
    split at comment
    next line => exact .inr (.inl line.1)
    next =>
      rw [Bool.and_eq_true, decide_eq_true_iff] at comment
      exact .inr (.inr comment.2)

theorem publicCommentAt_present (comment : publicCommentAt dialect sql pos) :
    byteAt sql pos ≠ 0 ∧ isSpace (byteAt sql pos) = false := by
  rcases publicCommentAt_byte comment with slash | dash | hash
  · rw [slash]; decide
  · rw [dash]; decide
  · rw [hash]; decide

theorem publicCommentAt_moves (comment : publicCommentAt dialect sql pos) :
    pos < publicSkipQuotedOrComment dialect sql pos ∧ publicSkipQuotedOrComment dialect sql pos ≤ sql.length :=
  publicCommentAt_forward (lt_of_byteAt (publicCommentAt_present comment).1) comment

theorem publicSkipTrivia_blank (blank : isSpace (byteAt sql pos)) :
    publicSkipTrivia dialect sql pos = publicSkipTrivia dialect sql (pos + 1) := by
  rw [publicSkipTrivia, dif_pos (isSpace_present blank), if_pos blank]

theorem publicSkipTrivia_comment (comment : publicCommentAt dialect sql pos) :
    publicSkipTrivia dialect sql pos = publicSkipTrivia dialect sql (publicSkipQuotedOrComment dialect sql pos) := by
  obtain ⟨present, noBlank⟩ := publicCommentAt_present comment
  rw [publicSkipTrivia, dif_pos present, noBlank, comment, if_neg Bool.false_ne_true, Bool.not_true,
    if_neg Bool.false_ne_true, dif_neg (publicCommentAt_moves comment).1.ne']

theorem publicSkipTrivia_bounds (inside : pos ≤ sql.length) :
    pos ≤ publicSkipTrivia dialect sql pos ∧ publicSkipTrivia dialect sql pos ≤ sql.length := by
  fun_induction publicSkipTrivia dialect sql pos with
  | case1 pos present blank inductionHypothesis =>
    have bounds := inductionHypothesis (lt_of_byteAt present)
    exact ⟨(Nat.le_succ pos).trans bounds.1, bounds.2⟩
  | case2 | case3 | case5 => exact ⟨le_rfl, inside⟩
  | case4 pos present noBlank comment moved inductionHypothesis =>
    have skipped := publicSkip_bounds dialect inside
    have bounds := inductionHypothesis skipped.2
    exact ⟨skipped.1.trans bounds.1, bounds.2⟩

/-- Neither a blank nor a comment stands where the loop stops. -/
theorem publicSkipTrivia_stops : isSpace (byteAt sql (publicSkipTrivia dialect sql pos)) = false := by
  fun_induction publicSkipTrivia dialect sql pos with
  | case1 | case4 => assumption
  | case2 pos present noBlank | case3 pos present noBlank => simpa using noBlank
  | case5 pos ended =>
    rw [not_not] at ended
    rw [ended]
    rfl

variable (terminated : 0 ∉ sql)
include terminated

/-- The loop goes on alike from every offset behind trivia. -/
theorem TriviaRun.same (run : TriviaRun dialect sql start pos) (inside : start ≤ sql.length) :
    pos ≤ sql.length ∧ publicSkipTrivia dialect sql start = publicSkipTrivia dialect sql pos := by
  induction run with
  | start => exact ⟨inside, rfl⟩
  | blank run blank inductionHypothesis =>
    exact ⟨lt_of_byteAt (isSpace_present blank), inductionHypothesis.2.trans (publicSkipTrivia_blank blank)⟩
  | comment run opens inductionHypothesis =>
    rw [← skip_agrees terminated dialect]
    exact ⟨(publicCommentAt_moves opens).2, inductionHypothesis.2.trans (publicSkipTrivia_comment opens)⟩

/-- What the loop passes is blank or stands in a comment. -/
theorem publicSkipTrivia_passes {later : Nat} (run : TriviaRun dialect sql start pos) (inside : pos ≤ sql.length)
    (order : pos ≤ later) (before : later < publicSkipTrivia dialect sql pos) :
    isSpace (byteAt sql later) ∨ InComment dialect sql start later := by
  fun_induction publicSkipTrivia dialect sql pos with
  | case1 pos present blank inductionHypothesis =>
    rcases order.eq_or_lt with rfl | order
    · exact .inl blank
    · exact inductionHypothesis (run.blank blank) (lt_of_byteAt present) order before
  | case2 | case3 | case5 => omega
  | case4 pos present noBlank comment moved inductionHypothesis =>
    have opens : publicCommentAt dialect sql pos := by simpa using comment
    have same := skip_agrees terminated dialect pos
    rcases Nat.lt_or_ge later (publicSkipQuotedOrComment dialect sql pos) with within | behind
    · exact .inr ⟨pos, run, opens, order, same ▸ within⟩
    · have behindComment := run.comment opens
      rw [← same] at behindComment
      exact inductionHypothesis behindComment (publicCommentAt_moves opens).2 behind before

/-- The loop stops at the first byte that is neither blank nor in a comment. -/
theorem publicSkipTrivia_isLeast (dialect : Dialect) (inside : start ≤ sql.length) :
    IsLeast {stop | start ≤ stop ∧ isSpace (byteAt sql stop) = false ∧ ¬ InComment dialect sql start stop}
      (publicSkipTrivia dialect sql start) := by
  refine ⟨⟨(publicSkipTrivia_bounds inside).1, publicSkipTrivia_stops, ?_⟩, ?_⟩
  · -- a comment that holds the stop would have been passed as a whole
    rintro ⟨opening, run, opens, -, within⟩
    obtain ⟨openingInside, same⟩ := run.same terminated inside
    rw [← skip_agrees terminated dialect] at within
    rw [same, publicSkipTrivia_comment opens] at within
    exact absurd (publicSkipTrivia_bounds (publicCommentAt_moves opens).2).1 (Nat.not_le_of_lt within)
  · rintro stop ⟨order, noBlank, outside⟩
    by_contra early
    rcases publicSkipTrivia_passes terminated .start inside order (Nat.lt_of_not_le early) with blank | comment
    · rw [noBlank] at blank
      cases blank
    · exact outside comment

end trivia

/-- The public lexer is the reference, stays in the text, and leaves every place where a comment opens; what
skips trivia stops at the first byte that is neither blank nor in a comment. -/
theorem public_lexer_reference (dialect : Dialect) {sql : Text} (terminated : 0 ∉ sql) {index : Nat}
    (inside : index ≤ sql.length) :
    publicSkipQuotedOrComment dialect sql index = referenceSkipQuotedOrComment dialect sql index ∧
      (index ≤ publicSkipQuotedOrComment dialect sql index ∧
        publicSkipQuotedOrComment dialect sql index ≤ sql.length) ∧
      (publicCommentAt dialect sql index → index < publicSkipQuotedOrComment dialect sql index) ∧
      IsLeast {stop | index ≤ stop ∧ isSpace (byteAt sql stop) = false ∧ ¬ InComment dialect sql index stop}
        (publicSkipTrivia dialect sql index) :=
  ⟨skip_agrees terminated dialect index, publicSkip_bounds dialect inside,
    fun comment => (publicCommentAt_moves comment).1,
    publicSkipTrivia_isLeast terminated dialect inside⟩

/-- A comment in a comment, and the outer one not closed. -/
theorem public_lexer_reference_unclosed :
    publicSkipQuotedOrComment .postgresql (ascii "/*/**/") 0 =
        referenceSkipQuotedOrComment .postgresql (ascii "/*/**/") 0 ∧
      0 < publicSkipQuotedOrComment .postgresql (ascii "/*/**/") 0 := by
  obtain ⟨same, -, moves, -⟩ := @public_lexer_reference .postgresql (ascii "/*/**/") (by decide) 0 (Nat.zero_le _)
  exact ⟨same, moves (by decide)⟩

end SqlParser.Core
