import SqlParser.Oracle.Preprocess

/-! # The Oracle preprocessor and the public lexer

The preprocessor and the public lexer decide by themselves where a string, a quoted identifier
and a comment end. For each piece of the preprocessor stands here when the two agree.
-/

namespace SqlParser.Oracle

open SqlParser.Core

/-! ## The public lexer in Oracle texts -/

theorem publicSkipOracleQQuote_eq (sql : Text) (index : Nat) :
    publicSkipOracleQQuote .oracle sql index =
      if qQuotePrefixLength sql index = 0 ∨ byteAt sql (index + qQuotePrefixLength sql index + 1) = 0 then index
      else
        offsetOf sql (behindQQuote (closeDelimiter (byteAt sql (index + qQuotePrefixLength sql index + 1)))
          (sql.drop (index + qQuotePrefixLength sql index + 2))) := by
  have known : (!Dialect.oracle.isOracleOrDamengCompatible) = false := rfl
  simp only [publicSkipOracleQQuote, known, qQuotePrefixLength, closeDelimiter]
  grind

/-- The bytes at which the public lexer looks for a quoted item or a comment. -/
def opensItem (byte : UInt8) : Bool :=
  byte = Byte.dollar || byte = Byte.dash || byte = Byte.slash || byte = Byte.quote || byte = Byte.doubleQuote

theorem publicSkip_oracle {sql : Text} {index : Nat} (noDollar : byteAt sql index ≠ Byte.dollar) :
    publicSkipQuotedOrComment .oracle sql index =
      if byteAt sql index = Byte.dash ∧ byteAt sql (index + 1) = Byte.dash then
        offsetOf sql (behindLine (sql.drop (index + 2)))
      else if byteAt sql index = Byte.slash ∧ byteAt sql (index + 1) = Byte.star then
        offsetOf sql (behindFirstClose (sql.drop (index + 2)))
      else if byteAt sql index = Byte.quote ∨ byteAt sql index = Byte.doubleQuote then
        offsetOf sql (behindQuoted (byteAt sql index) (publicBackslashEscapes .oracle sql index (byteAt sql index))
          (sql.drop (index + 1)))
      else publicSkipOracleQQuote .oracle sql index := by
  have noBrackets : (!Dialect.oracle.isSqlserverCompatible) = true := rfl
  have notMysql : Dialect.oracle.isMysqlCompatible = false := rfl
  have flat : publicNestedComments .oracle = false := rfl
  simp only [publicSkipQuotedOrComment, noBrackets, notMysql, flat, behindBlockComment_flat, behindFirstClose,
    if_neg noDollar]
  -- a byte that can begin the prefix of a q-quote opens nothing else
  by_cases letter : byteAt sql index = 113 ∨ byteAt sql index = 81 ∨ byteAt sql index = 110 ∨ byteAt sql index = 78
  · rw [if_pos letter]
    obtain letter | letter | letter | letter := letter <;> rw [letter] <;> rfl
  have noPrefix : publicSkipOracleQQuote .oracle sql index = index := by
    simp only [not_or] at letter
    have zero : qQuotePrefixLength sql index = 0 := by simp [qQuotePrefixLength, letter]
    rw [publicSkipOracleQQuote_eq, if_pos (.inl zero)]
  rw [if_neg letter, noPrefix]
  grind

/-- Only the bytes that are tested open an item other than a q-quote. -/
theorem publicSkip_letter {sql : Text} {index : Nat} (closed : opensItem (byteAt sql index) = false) :
    publicSkipQuotedOrComment .oracle sql index = publicSkipOracleQQuote .oracle sql index := by
  simp only [opensItem, Bool.or_eq_false_iff, decide_eq_false_iff_not] at closed
  rw [publicSkip_oracle closed.1.1.1.1, if_neg (fun dashes => closed.1.1.1.2 dashes.1),
    if_neg (fun comment => closed.1.1.2 comment.1), if_neg (by simp [closed])]

theorem publicSkip_closed {sql : Text} {index : Nat} (noPrefix : qQuotePrefixLength sql index = 0)
    (closed : opensItem (byteAt sql index) = false) : publicSkipQuotedOrComment .oracle sql index = index := by
  rw [publicSkip_letter closed, publicSkipOracleQQuote_eq, if_pos (.inl noPrefix)]

theorem publicSkip_quote {sql : Text} {index : Nat} {quote : UInt8} (first : byteAt sql index = quote)
    (quoted : quote = Byte.quote ∨ quote = Byte.doubleQuote) :
    publicSkipQuotedOrComment .oracle sql index =
      offsetOf sql (behindQuoted quote (publicBackslashEscapes .oracle sql index quote) (sql.drop (index + 1))) := by
  have others : quote ≠ Byte.dollar ∧ quote ≠ Byte.dash ∧ quote ≠ Byte.slash := by obtain rfl | rfl := quoted <;> decide
  rw [publicSkip_oracle (first.trans_ne others.1), first, if_neg (fun dashes => others.2.1 dashes.1),
    if_neg (fun comment => others.2.2 comment.1), if_pos quoted]

/-! ## Quoted items -/

/-- Without escapes both read a quoted item alike. -/
theorem behindCopiedQuote_public {quote : UInt8} (plain : quote ≠ Byte.backslash) (rest : Text) :
    behindCopiedQuote quote rest = behindQuoted quote false rest := by
  fun_induction behindCopiedQuote quote rest with
  | case1 => exact (behindQuoted_nil _ _).symm
  | case2 => exact (behindQuoted_last _ _ _).symm
  | case3 rest inductionHypothesis => rw [behindQuoted_quote plain, if_pos rfl, inductionHypothesis]
  | case4 next rest single => rw [behindQuoted_quote plain, if_neg single]
  | case5 byte next rest other inductionHypothesis =>
    rw [behindQuoted_pass (by simp [stopsQuoted, other]), inductionHypothesis]

theorem behindQuotedToken_public {rest behind : Text} (found : behindQuotedToken rest = some behind) :
    behindQuoted Byte.doubleQuote false rest = behind := by
  fun_induction behindQuotedToken rest with
  | case1 => cases found
  | case2 =>
    cases found
    exact behindQuoted_last _ _ _
  | case3 => cases found
  | case4 rest inductionHypothesis =>
    rw [behindQuoted_quote (by decide), if_pos rfl]
    exact inductionHypothesis found
  | case5 next rest single =>
    cases found
    rw [behindQuoted_quote (by decide), if_neg single]
  | case6 byte next rest other inductionHypothesis =>
    rw [behindQuoted_pass (by simp [stopsQuoted, other])]
    exact inductionHypothesis found

theorem copyQBody_public {close : UInt8} {rest content behind : Text}
    (copied : copyQBody close rest = some (content, behind)) : behindQQuote close rest = behind := by
  induction rest generalizing content with
  | nil => cases copied
  | cons byte rest inductionHypothesis =>
    rw [copyQBody] at copied
    rw [behindQQuote]
    split at copied
    next closes =>
      cases copied
      rw [if_pos closes]
    next stillOpen =>
      obtain ⟨⟨content', behind'⟩, copied', same⟩ := Option.map_eq_some_iff.mp copied
      cases same
      rw [if_neg stillOpen]
      exact inductionHypothesis copied'

theorem publicBackslashEscapes_doubleQuote (sql : Text) (index : Nat) :
    publicBackslashEscapes .oracle sql index Byte.doubleQuote = false := rfl

/-! ## What the preprocessor copies -/

/-- A quoted item or a comment begins at the offset. -/
def StartsItem (sql : Text) (index : Nat) : Prop :=
  (byteAt sql index = Byte.quote ∨ byteAt sql index = Byte.doubleQuote) ∨
    (byteAt sql index = Byte.dash ∧ byteAt sql (index + 1) = Byte.dash) ∨
    (byteAt sql index = Byte.slash ∧ byteAt sql (index + 1) = Byte.star)

section copies

variable {sql : Text} {index : Nat}

theorem copyQuotedOrComment_eq (noDollar : byteAt sql index ≠ Byte.dollar) :
    copyQuotedOrComment sql index =
      if byteAt sql index = Byte.quote ∨ byteAt sql index = Byte.doubleQuote then
        offsetOf sql (behindCopiedQuote (byteAt sql index) (sql.drop (index + 1)))
      else if byteAt sql index = Byte.dash ∧ byteAt sql (index + 1) = Byte.dash then
        offsetOf sql ((behindLine (sql.drop index)).drop 1)
      else if byteAt sql index = Byte.slash ∧ byteAt sql (index + 1) = Byte.star then
        offsetOf sql (behindFirstClose (sql.drop index))
      else index := by
  have noDollarQuote : skipDollarQuotedSpan sql index = index := if_pos (.inl noDollar)
  simp only [copyQuotedOrComment, noDollarQuote]
  rw [if_neg (lt_irrefl index)]

/-- The rest at an offset at which two bytes stand. -/
theorem drop_two {first second : UInt8} (isFirst : byteAt sql index = first) (isSecond : byteAt sql (index + 1) = second)
    (firstPresent : first ≠ 0) (secondPresent : second ≠ 0) :
    sql.drop index = first :: second :: sql.drop (index + 2) := by
  have inside := lt_of_byteAt (isFirst.trans_ne firstPresent)
  have insideNext := lt_of_byteAt (isSecond.trans_ne secondPresent)
  rw [drop_eq_byteAt inside, drop_eq_byteAt insideNext, isFirst, isSecond]

theorem copyQuotedOrComment_dashes (first : byteAt sql index = Byte.dash) (second : byteAt sql (index + 1) = Byte.dash) :
    copyQuotedOrComment sql index = offsetOf sql ((behindLine (sql.drop (index + 2))).drop 1) := by
  rw [copyQuotedOrComment_eq (first.trans_ne (by decide)), if_neg (by rw [first]; decide), if_pos ⟨first, second⟩,
    drop_two first second (by decide) (by decide)]
  rfl

theorem copyQuotedOrComment_slash (first : byteAt sql index = Byte.slash) (second : byteAt sql (index + 1) = Byte.star) :
    copyQuotedOrComment sql index = offsetOf sql (behindFirstClose (Byte.star :: sql.drop (index + 2))) := by
  rw [copyQuotedOrComment_eq (first.trans_ne (by decide)), if_neg (by rw [first]; decide),
    if_neg (fun dashes => absurd (first.symm.trans dashes.1) (by decide)), if_pos ⟨first, second⟩, drop_two first second (by decide) (by decide),
    behindFirstClose_cons, if_neg (by decide)]

theorem copyQuotedOrComment_quote (quoted : byteAt sql index = Byte.quote ∨ byteAt sql index = Byte.doubleQuote) :
    copyQuotedOrComment sql index =
      offsetOf sql (behindQuoted (byteAt sql index) false (sql.drop (index + 1))) := by
  have noDollar : byteAt sql index ≠ Byte.dollar := by obtain first | first := quoted <;> rw [first] <;> decide
  have plain : byteAt sql index ≠ Byte.backslash := by obtain first | first := quoted <;> rw [first] <;> decide
  rw [copyQuotedOrComment_eq noDollar, if_pos quoted, behindCopiedQuote_public plain]

/-- The preprocessor copies something exactly where a quoted item or a comment begins. -/
theorem lt_copyQuotedOrComment_iff (noDollar : byteAt sql index ≠ Byte.dollar) :
    index < copyQuotedOrComment sql index ↔ StartsItem sql index := by
  constructor
  · intro copied
    rw [copyQuotedOrComment_eq noDollar] at copied
    unfold StartsItem
    split_ifs at copied with quoted dashes comment
    · exact .inl quoted
    · exact .inr (.inl dashes)
    · exact .inr (.inr comment)
    · exact absurd copied (lt_irrefl index)
  · rintro (quoted | ⟨first, second⟩ | ⟨first, second⟩)
    · have inside : index < sql.length := by
        apply lt_of_byteAt
        obtain first | first := quoted <;> rw [first] <;> decide
      rw [copyQuotedOrComment_quote quoted]
      exact (offsetOf_later inside le_rfl (behindQuoted_suffix _ _ _)).1
    · have inside := lt_of_byteAt (second.trans_ne (by decide))
      rw [copyQuotedOrComment_dashes first second]
      have suffix : (behindLine (sql.drop (index + 2))).drop 1 <:+ sql.drop (index + 2) :=
        (List.drop_suffix 1 _).trans (untilStop_suffix _ _)
      exact (offsetOf_later inside.le (Nat.le_succ _) suffix).1
    · have inside := lt_of_byteAt (second.trans_ne (by decide))
      rw [copyQuotedOrComment_slash first second, ← second, ← drop_eq_byteAt inside]
      exact (offsetOf_later inside.le le_rfl (behindFirstClose_suffix _)).1

/-- Where neither a prefix of a q-quote nor an item begins, the public lexer passes a byte. -/
theorem publicSkip_plain (noPrefix : qQuotePrefixLength sql index = 0) (noDollar : byteAt sql index ≠ Byte.dollar)
    (noItem : ¬ StartsItem sql index) : publicSkipQuotedOrComment .oracle sql index = index := by
  simp only [StartsItem, not_or] at noItem
  rw [publicSkip_oracle noDollar, if_neg noItem.2.1, if_neg noItem.2.2, if_neg (not_or.mpr noItem.1),
    publicSkipOracleQQuote_eq, if_pos (.inl noPrefix)]

end copies

/-! ## Words -/

/-- The letters of a word that is replaced: none of them is a q, and no n is the last. -/
def isClosedWord (word : Text) : Bool :=
  word.all (fun byte => byte ≠ 113 && (byte = Byte.underscore || (97 ≤ byte && byte ≤ 122))) && word.getLast? ≠ some 110

theorem closed_of_toLower {byte : UInt8}
    (letter : toLower byte = Byte.underscore ∨ (97 ≤ toLower byte ∧ toLower byte ≤ 122)) :
    byte ≠ Byte.dollar ∧ opensItem byte = false ∧ byte ≠ Byte.question ∧ byte ≠ Byte.colon := by
  revert byte
  decide +kernel

/-- The prefixes of a q-quote. -/
theorem qQuotePrefixLength_cases (sql : Text) (index : Nat) :
    qQuotePrefixLength sql index = 0 ∨
      (qQuotePrefixLength sql index = 1 ∧ toLower (byteAt sql index) = 113 ∧ byteAt sql (index + 1) = Byte.quote) ∨
      (qQuotePrefixLength sql index = 2 ∧ toLower (byteAt sql index) = 110 ∧
        toLower (byteAt sql (index + 1)) = 113 ∧ byteAt sql (index + 2) = Byte.quote) := by
  have isQ (byte : UInt8) : (byte = 113 || byte = 81) = decide (toLower byte = 113) := by
    revert byte
    decide +kernel
  have isN (byte : UInt8) : (byte = 110 || byte = 78) = decide (toLower byte = 110) := by
    revert byte
    decide +kernel
  simp only [qQuotePrefixLength, isQ, isN, Bool.and_eq_true, decide_eq_true_eq]
  split
  next short => exact .inr (.inl ⟨rfl, short⟩)
  next =>
    split
    next long => exact .inr (.inr ⟨rfl, long.1.1, long.1.2, long.2⟩)
    next => exact .inl rfl

theorem noPrefix_of_toLower {sql : Text} {index : Nat} (noQ : toLower (byteAt sql index) ≠ 113)
    (noN : toLower (byteAt sql index) ≠ 110) : qQuotePrefixLength sql index = 0 := by
  obtain noPrefix | ⟨-, isQ, -⟩ | ⟨-, isN, -⟩ := qQuotePrefixLength_cases sql index
  · exact noPrefix
  · exact absurd isQ noQ
  · exact absurd isN noN

section words

variable {sql word : Text} {start : Nat}

theorem toLower_byteAt_word (spelled : ((sql.drop start).take word.length).map toLower = word) {offset : Nat}
    (inside : offset < word.length) : toLower (byteAt sql (start + offset)) = byteAt word offset := by
  have here := congrArg (·[offset]?) spelled
  rw [List.getElem?_map, List.getElem?_take, if_pos inside, List.getElem?_drop] at here
  rw [byteAt, byteAt, List.getD_eq_getElem?_getD, List.getD_eq_getElem?_getD, ← here]
  cases sql[start + offset]? with
  | none => rfl
  | some byte => rfl

theorem isClosedWord_letter (closed : isClosedWord word) {offset : Nat} (inside : offset < word.length) :
    byteAt word offset ≠ 113 ∧
      (byteAt word offset = Byte.underscore ∨ (97 ≤ byteAt word offset ∧ byteAt word offset ≤ 122)) := by
  have letters := List.all_eq_true.mp (Bool.and_eq_true_iff.mp closed).1 word[offset] (List.getElem_mem inside)
  rw [byteAt, List.getD_eq_getElem _ _ inside]
  simpa using letters

/-- No byte of a word that is replaced opens anything. -/
theorem publicSkip_word (spelled : ((sql.drop start).take word.length).map toLower = word) (closed : isClosedWord word)
    {index : Nat} (starts : start ≤ index) (before : index < start + word.length) :
    publicSkipQuotedOrComment .oracle sql index = index ∧ byteAt sql index ≠ Byte.question ∧
      byteAt sql index ≠ Byte.colon := by
  obtain ⟨offset, rfl⟩ := Nat.exists_eq_add_of_le starts
  have inside : offset < word.length := by omega
  have here := toLower_byteAt_word spelled inside
  obtain ⟨noQ, letter⟩ := isClosedWord_letter closed inside
  rw [← here] at noQ letter
  obtain ⟨-, closedByte, noQuestion, noColon⟩ := closed_of_toLower letter
  refine ⟨publicSkip_closed ?_ closedByte, noQuestion, noColon⟩
  obtain noPrefix | ⟨-, isQ, -⟩ | ⟨-, isN, isQ, -⟩ := qQuotePrefixLength_cases sql (start + offset)
  · exact noPrefix
  · exact absurd isQ noQ
  · -- an n is not the last letter, and no q stands behind it in the word
    have notLast : offset + 1 < word.length := by
      by_contra last
      have atEnd : word.length - 1 = offset := by omega
      have ends := (Bool.and_eq_true_iff.mp closed).2
      rw [List.getLast?_eq_getElem?, atEnd, List.getElem?_eq_getElem inside] at ends
      rw [here, byteAt, List.getD_eq_getElem _ _ inside] at isN
      simp [isN] at ends
    have behind := (isClosedWord_letter closed notLast).1
    rw [← toLower_byteAt_word spelled notLast] at behind
    exact absurd isQ behind

theorem asciiWordEqual_spelled (found : asciiWordEqual sql start word) (lower : word.map toLower = word) :
    ((sql.drop start).take word.length).map toLower = word := by
  simp only [asciiWordEqual, Bool.and_eq_true, decide_eq_true_eq] at found
  exact found.1.trans lower

theorem returningIntoWordAt_spelled (found : returningIntoWordAt sql start word) (lower : word.map toLower = word) :
    ((sql.drop start).take word.length).map toLower = word := by
  simp only [returningIntoWordAt, Bool.and_eq_true, decide_eq_true_eq] at found
  exact found.1.2.trans lower

end words

/-! ## Names with a link -/

/-- A name of an identifier or of a link. -/
structure NameToken (sql : Text) (start stop : Nat) : Prop where
  ends : identifierTokenEnd sql start = stop
  present : start ≠ stop

/-- The tokens of a name with a link, each but the last in front of a dot or an at sign. -/
inductive NameChain (sql : Text) : Nat → List (Nat × Nat) → Nat → Prop
  | last {start stop : Nat} (token : NameToken sql start stop) : NameChain sql start [(start, stop)] stop
  | next {start mid stop : Nat} {tokens : List (Nat × Nat)} (token : NameToken sql start mid)
      (separated : byteAt sql mid = Byte.dot ∨ byteAt sql mid = Byte.at') (rest : NameChain sql (mid + 1) tokens stop) :
    NameChain sql start ((start, mid) :: tokens) stop

def DatabaseLink.tokens (link : DatabaseLink) : List (Nat × Nat) :=
  link.parts ++ [(link.objectStart, link.objectStop), (link.linkStart, link.linkStop)]

theorem databaseLinkParts_chain {sql : Text} {budget start objectStart objectStop stop : Nat}
    {parts others : List (Nat × Nat)} (found : databaseLinkParts sql budget start = some (parts, objectStart, objectStop))
    (behind : NameToken sql objectStart objectStop → NameChain sql objectStart ((objectStart, objectStop) :: others) stop) :
    NameChain sql start (parts ++ (objectStart, objectStop) :: others) stop := by
  induction budget generalizing start parts with
  | zero => cases found
  | succ budget inductionHypothesis =>
    simp only [databaseLinkParts] at found
    split at found
    next => cases found
    next named =>
      have token : NameToken sql start (identifierTokenEnd sql start) := ⟨rfl, fun same => named (.inl same.symm)⟩
      split at found
      next dot =>
        obtain ⟨⟨parts', last⟩, found', same⟩ := Option.map_eq_some_iff.mp found
        cases same
        exact .next token (.inl dot) (inductionHypothesis found')
      next =>
        cases found
        exact behind token

theorem databaseLinkAt_chain {sql : Text} {start : Nat} {link : DatabaseLink}
    (found : databaseLinkAt sql start = .ok (some link)) : NameChain sql start link.tokens link.linkStop := by
  rw [databaseLinkAt] at found
  split at found
  next => cases found
  next parts objectStart objectStop named =>
    split at found
    next => cases found
    next at' =>
      simp only at found
      split at found
      next => cases found
      next named' =>
        cases found
        apply databaseLinkParts_chain named
        intro object
        exact .next object (.inr (Decidable.not_not.mp at')) (.last ⟨rfl, fun same => named' (.inl same.symm)⟩)

/-- The public lexer ends a quoted name where the name ends, and sees no item in another name. -/
def TokenAgrees (sql : Text) (start stop : Nat) : Prop :=
  if byteAt sql start = Byte.doubleQuote then publicSkipQuotedOrComment .oracle sql start = stop
  else ∀ index, start ≤ index → index < stop → publicSkipQuotedOrComment .oracle sql index = index

/-- Whether the name that ends here is no prefix of a q-quote. -/
def nameInStep (sql : Text) (stop : Nat) : Bool :=
  qQuotePrefixLength sql (stop - 1) = 0 || byteAt sql (stop + 1) = 0

section names

variable {sql : Text} {start stop : Nat}

theorem behindQuotedToken_closed {rest behind : Text} (found : behindQuotedToken rest = some behind) :
    Byte.doubleQuote :: behind <:+ rest := by
  fun_induction behindQuotedToken rest with
  | case1 => cases found
  | case2 =>
    cases found
    exact List.suffix_rfl
  | case3 => cases found
  | case4 rest inductionHypothesis =>
    exact (inductionHypothesis found).trans ((List.suffix_cons _ rest).trans (List.suffix_cons _ _))
  | case5 next rest =>
    cases found
    exact List.suffix_rfl
  | case6 byte next rest _ inductionHypothesis => exact (inductionHypothesis found).trans (List.suffix_cons _ _)

theorem NameToken.quoted (token : NameToken sql start stop) (first : byteAt sql start = Byte.doubleQuote) :
    publicSkipQuotedOrComment .oracle sql start = stop ∧ byteAt sql (stop - 1) = Byte.doubleQuote := by
  have ends := token.ends
  unfold identifierTokenEnd at ends
  rw [if_pos first] at ends
  split at ends
  next rest found =>
    have closed := (behindQuotedToken_closed found).trans (List.drop_suffix (start + 1) sql)
    constructor
    · rw [publicSkip_quote first (.inr rfl), publicBackslashEscapes_doubleQuote, behindQuotedToken_public found]
      exact ends
    · rw [← ends]
      exact byteAt_before closed
  next => exact absurd ends token.present

theorem NameToken.plain (token : NameToken sql start stop) (first : byteAt sql start ≠ Byte.doubleQuote) :
    (∀ index, start ≤ index → index < stop → isIdentChar (byteAt sql index)) ∧
      isIdentChar (byteAt sql stop) = false := by
  have ends := token.ends
  unfold identifierTokenEnd at ends
  rw [if_neg first] at ends
  split at ends
  next => exact absurd ends token.present
  next starts =>
    have startChar : isIdentChar (byteAt sql start) := by
      have : isIdentStart (byteAt sql start) := by simpa using starts
      simp only [isIdentStart, Bool.or_eq_true] at this
      unfold isIdentChar isAlnum
      cases this with
      | inl letter => simp [letter]
      | inr underscore => simp [underscore]
    subst ends
    refine ⟨fun index order before => ?_, refused_runEnd sql (start + 1) (by decide)⟩
    cases Nat.eq_or_lt_of_le order with
    | inl same => exact same ▸ startChar
    | inr later => exact accepted_of_lt_runEnd later before

theorem closed_of_identChar {byte : UInt8} (isChar : isIdentChar byte) (noDollar : byte ≠ Byte.dollar) :
    opensItem byte = false ∧ byte ≠ Byte.question ∧ byte ≠ Byte.colon ∧ byte ≠ Byte.quote := by
  revert byte
  decide +kernel

theorem ne_dollar (noDollar : Byte.dollar ∉ sql) (index : Nat) : byteAt sql index ≠ Byte.dollar := by
  intro dollar
  have inside := lt_of_byteAt (dollar.trans_ne (by decide))
  rw [byteAt, List.getD_eq_getElem _ _ inside] at dollar
  exact noDollar (dollar ▸ List.getElem_mem inside)

/-- A name that does not end in front of a quote is closed for the public lexer, any other name
unless it ends in a prefix of a q-quote. -/
theorem NameToken.agrees_iff (token : NameToken sql start stop) (order : start < stop) (noDollar : Byte.dollar ∉ sql) :
    TokenAgrees sql start stop ↔ nameInStep sql stop := by
  unfold TokenAgrees
  split
  next first =>
    obtain ⟨skips, last⟩ := token.quoted first
    have noPrefix : qQuotePrefixLength sql (stop - 1) = 0 := by
      obtain noPrefix | ⟨-, isQ, -⟩ | ⟨-, isN, -⟩ := qQuotePrefixLength_cases sql (stop - 1)
      · exact noPrefix
      · exact absurd isQ (by rw [last]; decide)
      · exact absurd isN (by rw [last]; decide)
    exact ⟨fun _ => by simp [nameInStep, noPrefix], fun _ => skips⟩
  next first =>
    obtain ⟨chars, ends⟩ := token.plain first
    have closed (index : Nat) (starts : start ≤ index) (before : index < stop) :=
      closed_of_identChar (chars index starts before) (ne_dollar noDollar index)
    constructor
    · intro passes
      have last := passes (stop - 1) (by omega) (by omega)
      have lastClosed := (closed (stop - 1) (by omega) (by omega)).1
      obtain noPrefix | ⟨short, -, -⟩ | ⟨-, -, isQ, -⟩ := qQuotePrefixLength_cases sql (stop - 1)
      · simp [nameInStep, noPrefix]
      · have opener : stop - 1 + 1 + 1 = stop + 1 := by omega
        by_cases zero : byteAt sql (stop + 1) = 0
        case pos => simp [nameInStep, zero]
        case neg =>
          have inside := lt_of_byteAt zero
          rw [publicSkip_letter lastClosed, publicSkipOracleQQuote_eq, short, opener, if_neg (by simp [zero])] at last
          have behind := (offsetOf_later inside (le_refl (stop + 2))
            (behindQQuote_suffix (closeDelimiter (byteAt sql (stop + 1))) _)).1
          have same : stop - 1 + 1 + 2 = stop + 2 := by omega
          rw [same] at last
          omega
      · have here : stop - 1 + 1 = stop := by omega
        rw [here] at isQ
        rw [show isIdentChar (byteAt sql stop) = true by
          revert isQ
          generalize byteAt sql stop = byte
          revert byte
          decide +kernel] at ends
        cases ends
    · intro inStep index starts before
      have closedHere := (closed index starts before).1
      -- a quote stands behind the name only
      have atStop {position : Nat} (quote : byteAt sql position = Byte.quote) (behind : start < position) :
          stop ≤ position := by
        by_contra inside
        exact absurd quote (closed position behind.le (Nat.lt_of_not_le inside)).2.2.2
      obtain noPrefix | ⟨short, isQ, quote⟩ | ⟨long, -, isQ, quote⟩ := qQuotePrefixLength_cases sql index
      · exact publicSkip_closed noPrefix closedHere
      · have atEnd : stop = index + 1 := by
          have := atStop quote (by omega)
          omega
        subst atEnd
        have zero : byteAt sql (index + 1 + 1) = 0 := by simpa [nameInStep, short] using inStep
        rw [publicSkip_letter closedHere, publicSkipOracleQQuote_eq, short, if_pos (.inr zero)]
      · have isChar : isIdentChar (byteAt sql (index + 1)) := by
          revert isQ
          generalize byteAt sql (index + 1) = byte
          revert byte
          decide +kernel
        have before' : index + 1 < stop := by
          by_contra beyond
          have same : stop = index + 1 := by omega
          rw [same, isChar] at ends
          cases ends
        have atEnd : stop = index + 2 := by
          have := atStop quote (by omega)
          omega
        subst atEnd
        have present : qQuotePrefixLength sql (index + 1) ≠ 0 := by
          intro none
          simp only [qQuotePrefixLength] at none
          rw [if_pos] at none
          · cases none
          · simp only [quote, decide_true, Bool.and_true]
            revert isQ
            generalize byteAt sql (index + 1) = byte
            revert byte
            decide +kernel
        have zero : byteAt sql (index + 2 + 1) = 0 := by simpa [nameInStep, present] using inStep
        rw [publicSkip_letter closedHere, publicSkipOracleQQuote_eq, long, if_pos (.inr zero)]

theorem nameInStep_separated (positive : 0 < stop) (separated : byteAt sql stop = Byte.dot ∨ byteAt sql stop = Byte.at') :
    nameInStep sql stop := by
  have here : stop - 1 + 1 = stop := by omega
  obtain noPrefix | ⟨-, -, quote⟩ | ⟨-, -, isQ, -⟩ := qQuotePrefixLength_cases sql (stop - 1)
  · simp [nameInStep, noPrefix]
  · rw [here] at quote
    exact absurd quote (by obtain same | same := separated <;> rw [same] <;> decide)
  · rw [here] at isQ
    exact absurd isQ (by obtain same | same := separated <;> rw [same] <;> decide)

theorem NameToken.order (token : NameToken sql start stop) (inside : start ≤ sql.length) : start < stop :=
  Nat.lt_of_le_of_ne (token.ends ▸ (identifierTokenEnd_bounds inside).1) token.present

theorem NameChain.agrees_iff {tokens : List (Nat × Nat)} (chain : NameChain sql start tokens stop)
    (inside : start ≤ sql.length) (noDollar : Byte.dollar ∉ sql) :
    (∀ token ∈ tokens, TokenAgrees sql token.1 token.2) ↔ nameInStep sql stop := by
  induction chain with
  | last token =>
    rw [← token.agrees_iff (token.order inside) noDollar]
    simp
  | @next start mid stop tokens token separated rest inductionHypothesis =>
    have midInside : mid < sql.length := by
      apply lt_of_byteAt
      obtain same | same := separated <;> rw [same] <;> decide
    have order := token.order inside
    have agrees := (token.agrees_iff order noDollar).mpr (nameInStep_separated (by omega) separated)
    rw [← inductionHypothesis midInside, List.forall_mem_cons]
    exact and_iff_right agrees

end names

/-! ## Agreement piece by piece -/

/-- The public lexer ends the quoted items and the comment of a piece where the preprocessor ends
them, up to the line feed behind a line comment, and sees no such item in a piece of code. -/
def Piece.AgreesWithPublicLexer (piece : Piece) (sql : Text) : Prop :=
  let skip := publicSkipQuotedOrComment .oracle sql
  match piece.kind with
  | .qString _ _ => skip piece.start = piece.stop
  | .nationalString => skip piece.start = piece.start ∧ skip (piece.start + 1) = piece.stop
  | .verbatim =>
    if byteAt sql piece.start = Byte.dash then
      skip piece.start = piece.stop ∨
        (skip piece.start + 1 = piece.stop ∧ byteAt sql (skip piece.start) = Byte.lineFeed)
    else skip piece.start = piece.stop
  | .databaseLink link => ∀ token ∈ link.tokens, TokenAgrees sql token.1 token.2
  | .question | .bind => skip piece.start = piece.start
  | .hierarchyKeyword _ | .into | .returning _ | .minus | .except | .code =>
    ∀ index, piece.start ≤ index → index < piece.stop → skip index = index

/-- The pieces on which the two lexers cannot fall out of step. -/
def Piece.inStep (piece : Piece) (sql : Text) : Bool :=
  match piece.kind with
  | .verbatim =>
    !(byteAt sql piece.start = Byte.slash && byteAt sql (piece.start + 2) = Byte.slash) || piece.start + 3 = sql.length
  | .databaseLink link => nameInStep sql link.linkStop
  | _ => true

/-- No string of the text stands behind a word E. -/
def Piece.isEscapeString (piece : Piece) (sql : Text) : Bool :=
  byteAt sql piece.start = Byte.quote && publicBackslashEscapes .oracle sql piece.start Byte.quote

section agreement

variable {sql : Text} {intoStart : Option Nat} {index : Nat} {piece : Piece}

/-- A comment that closes with the star that opens it ends elsewhere for the public lexer, unless the text ends with it. -/
theorem flatComment_agrees (tail : Text) :
    behindFirstClose tail = behindFirstClose (Byte.star :: tail) ↔ byteAt tail 0 ≠ Byte.slash ∨ tail.length = 1 := by
  cases tail with
  | nil =>
    constructor
    · exact fun _ => .inl (by decide)
    · exact fun _ => rfl
  | cons next tail =>
    rw [behindFirstClose_cons]
    by_cases slash : next = Byte.slash
    case neg =>
      rw [if_neg fun closes => slash closes.2]
      exact ⟨fun _ => .inl slash, fun _ => rfl⟩
    case pos =>
      subst slash
      rw [if_pos ⟨rfl, rfl⟩]
      have first : byteAt (Byte.slash :: tail) 0 = Byte.slash := rfl
      cases tail with
      | nil => exact ⟨fun _ => .inr rfl, fun _ => rfl⟩
      | cons second tail =>
        rw [behindFirstClose_cons, if_neg fun closes => absurd closes.1 (by decide)]
        constructor
        · intro same
          -- the comment of the public lexer would end before its own closing pair
          exfalso
          rw [behindFirstClose] at same
          cases found : behindDelimiter [Byte.star, Byte.slash] (second :: tail) with
          | none =>
            rw [found] at same
            cases same
          | some behind =>
            have shorter := behindDelimiter_shorter (by decide) found
            rw [found, Option.getD_some] at same
            rw [same] at shorter
            exact lt_irrefl _ shorter
        · rintro (other | single)
          · exact absurd first other
          · simp at single

theorem word_agrees {word : Text} (spelled : ((sql.drop index).take word.length).map toLower = word)
    (closed : isClosedWord word) : ∀ position, index ≤ position → position < index + word.length →
      publicSkipQuotedOrComment .oracle sql position = position :=
  fun _ starts before => (publicSkip_word spelled closed starts before).1

theorem hierarchyInternalKeyword_word {internal : Text} {length : Nat}
    (found : hierarchyInternalKeyword sql index = some (internal, length)) :
    ∃ word, ((sql.drop index).take word.length).map toLower = word ∧ isClosedWord word ∧ word.length = length := by
  unfold hierarchyInternalKeyword at found
  split_ifs at found with root connect start nocycle prior
  all_goals obtain ⟨rfl, rfl⟩ := Prod.mk.inj (Option.some.inj found)
  · exact ⟨_, asciiWordEqual_spelled root (by decide), by decide, rfl⟩
  · exact ⟨_, asciiWordEqual_spelled (Bool.and_eq_true_iff.mp connect).1 (by decide), by decide, rfl⟩
  · exact ⟨_, asciiWordEqual_spelled (Bool.and_eq_true_iff.mp start).1 (by decide), by decide, rfl⟩
  · exact ⟨_, asciiWordEqual_spelled nocycle (by decide), by decide, rfl⟩
  · exact ⟨_, asciiWordEqual_spelled prior (by decide), by decide, rfl⟩

theorem verbatim_agrees (noDollar : Byte.dollar ∉ sql)
    (copied : copyQuotedOrComment sql index > index)
    (noEscape : (Piece.mk index (copyQuotedOrComment sql index) .verbatim).isEscapeString sql = false) :
    (Piece.mk index (copyQuotedOrComment sql index) .verbatim).AgreesWithPublicLexer sql ↔
      (Piece.mk index (copyQuotedOrComment sql index) .verbatim).inStep sql := by
  unfold Piece.AgreesWithPublicLexer Piece.inStep
  dsimp only
  obtain quoted | ⟨first, second⟩ | ⟨first, second⟩ := (lt_copyQuotedOrComment_iff (ne_dollar noDollar index)).mp copied
  · have escapes : publicBackslashEscapes .oracle sql index (byteAt sql index) = false := by
      obtain first | first := quoted
      · simpa [Piece.isEscapeString, first] using noEscape
      · rw [first]
        exact publicBackslashEscapes_doubleQuote sql index
    have others : byteAt sql index ≠ Byte.dash ∧ byteAt sql index ≠ Byte.slash := by
      obtain first | first := quoted <;> rw [first] <;> decide
    rw [if_neg others.1, publicSkip_quote rfl quoted, escapes, ← copyQuotedOrComment_quote quoted]
    simp [others.2]
  · have skip : publicSkipQuotedOrComment .oracle sql index = offsetOf sql (behindLine (sql.drop (index + 2))) := by
      rw [publicSkip_oracle (ne_dollar noDollar index), if_pos ⟨first, second⟩]
    have notSlash : byteAt sql index ≠ Byte.slash := first.trans_ne (by decide)
    rw [if_pos first, skip, copyQuotedOrComment_dashes first second]
    refine ⟨fun _ => by simp [notSlash], fun _ => ?_⟩
    have lineSuffix : behindLine (sql.drop (index + 2)) <:+ sql :=
      (untilStop_suffix _ _).trans (List.drop_suffix (index + 2) sql)
    cases line : behindLine (sql.drop (index + 2)) with
    | nil => exact .inl rfl
    | cons feed rest =>
      have isFeed : feed = Byte.lineFeed := by
        have head := List.head?_dropWhile_not (fun byte => !decide (byte = Byte.lineFeed)) (sql.drop (index + 2))
        have jumped : (sql.drop (index + 2)).dropWhile (fun byte => !decide (byte = Byte.lineFeed)) = feed :: rest := line
        rw [jumped] at head
        simpa using head
      rw [line] at lineSuffix
      refine .inr ⟨(offsetOf_cons lineSuffix).symm, ?_⟩
      rw [byteAt_offsetOf lineSuffix, isFeed]
      rfl
  · have skip : publicSkipQuotedOrComment .oracle sql index = offsetOf sql (behindFirstClose (sql.drop (index + 2))) := by
      rw [publicSkip_oracle (ne_dollar noDollar index), if_neg (fun dashes => absurd (first.symm.trans dashes.1) (by decide)),
        if_pos ⟨first, second⟩]
    have inside := lt_of_byteAt (second.trans_ne (by decide))
    have located := drop_two first second (by decide) (by decide)
    have tailSuffix : Byte.star :: sql.drop (index + 2) <:+ sql := by
      have := List.drop_suffix index sql
      rw [located] at this
      exact (List.suffix_cons _ _).trans this
    have third : byteAt (sql.drop (index + 2)) 0 = byteAt sql (index + 2) := byteAt_drop sql (index + 2) 0
    rw [if_neg (by rw [first]; decide), skip, copyQuotedOrComment_slash first second,
      offsetOf_inj ((behindFirstClose_suffix _).trans (List.drop_suffix _ sql))
        ((behindFirstClose_suffix _).trans tailSuffix), flatComment_agrees, third, List.length_drop, first]
    have lengths : sql.length - (index + 2) = 1 ↔ index + 3 = sql.length := by omega
    rw [lengths]
    simp

/-- The lexers agree on a piece exactly when it is in step. -/
theorem Reads.agrees_iff (reads : Reads sql intoStart index piece) (fits : IntoFits sql intoStart)
    (inside : index < sql.length) (noDollar : Byte.dollar ∉ sql) (noEscape : piece.isEscapeString sql = false) :
    piece.AgreesWithPublicLexer sql ↔ piece.inStep sql := by
  cases reads with
  | @qString prefixLength content behind prefixed positive opens copied =>
    refine ⟨fun _ => rfl, fun _ => ?_⟩
    have closed : opensItem (byteAt sql index) = false := by
      obtain none | ⟨-, isQ, -⟩ | ⟨-, isN, -⟩ := qQuotePrefixLength_cases sql index
      · omega
      · exact (closed_of_toLower (.inr (by rw [isQ]; decide))).2.1
      · exact (closed_of_toLower (.inr (by rw [isN]; decide))).2.1
    unfold Piece.AgreesWithPublicLexer
    dsimp only
    rw [publicSkip_letter closed, publicSkipOracleQQuote_eq, prefixed, if_neg (by simp [opens]; omega), copyQBody_public copied]
  | nationalString noPrefix national =>
    refine ⟨fun _ => rfl, fun _ => ?_⟩
    simp only [isNStringLiteral, Bool.and_eq_true, Bool.or_eq_true, decide_eq_true_eq] at national
    have closed : opensItem (byteAt sql index) = false := by
      obtain isN | isN := national.1 <;> rw [isN] <;> decide
    have escapes : publicBackslashEscapes .oracle sql (index + 1) Byte.quote = false := by
      unfold publicBackslashEscapes
      rw [Nat.add_sub_cancel]
      obtain isN | isN := national.1 <;> rw [isN] <;> simp [Dialect.isMysqlCompatible]
    refine ⟨publicSkip_closed noPrefix closed, ?_⟩
    dsimp only
    rw [publicSkip_quote national.2 (.inl rfl), escapes, copyQuotedOrComment_quote (.inl national.2), national.2]
  | hierarchyKeyword found =>
    obtain ⟨word, spelled, closed, rfl⟩ := hierarchyInternalKeyword_word found
    exact ⟨fun _ => rfl, fun _ => word_agrees spelled closed⟩
  | databaseLink found => exact (databaseLinkAt_chain found).agrees_iff inside.le noDollar
  | verbatim noPrefix notNational copied => exact verbatim_agrees noDollar copied noEscape
  | into here =>
    have closed : isClosedWord (ascii "into") := by decide
    exact ⟨fun _ => rfl, fun _ => @word_agrees sql index (ascii "into") (fits index here) closed⟩
  | returning found =>
    obtain ⟨keywordEnd, word, -, -⟩ := returningIntoClauseAt_some found
    have closed : isClosedWord (ascii "returning") := by decide
    refine ⟨fun _ => rfl, fun _ position starts before => ?_⟩
    dsimp only at starts before
    rw [keywordEnd] at before
    exact @word_agrees sql index (ascii "returning") (returningIntoWordAt_spelled word (by decide)) closed position starts before
  | question first =>
    have closed : opensItem (byteAt sql index) = false := by rw [first]; decide
    have noPrefix := noPrefix_of_toLower (by rw [first]; decide) (by rw [first]; decide)
    exact ⟨fun _ => rfl, fun _ => publicSkip_closed noPrefix closed⟩
  | bind first found =>
    have closed : opensItem (byteAt sql index) = false := by rw [first]; decide
    have noPrefix := noPrefix_of_toLower (by rw [first]; decide) (by rw [first]; decide)
    exact ⟨fun _ => rfl, fun _ => publicSkip_closed noPrefix closed⟩
  | minus found =>
    have closed : isClosedWord (ascii "minus") := by decide
    exact ⟨fun _ => rfl, fun _ => word_agrees (asciiWordEqual_spelled found (by decide)) closed⟩
  | except found =>
    have closed : isClosedWord (ascii "except") := by decide
    exact ⟨fun _ => rfl, fun _ => word_agrees (asciiWordEqual_spelled found (by decide)) closed⟩
  | code plain notQuestion notBind =>
    refine ⟨fun _ => rfl, fun _ position starts before => ?_⟩
    obtain rfl : position = index := by
      dsimp only at starts before
      omega
    have noItem := (lt_copyQuotedOrComment_iff (ne_dollar noDollar position)).not.mp (Nat.not_lt_of_le plain.notCopied)
    exact publicSkip_plain plain.noPrefix (ne_dollar noDollar position) noItem

end agreement

end SqlParser.Oracle
