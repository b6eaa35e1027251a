import SqlParser.Mysql.Quotes

/-! # The mask of literals and comments

`sqlparser_mysql_mask_non_code` copies a text in lower case and blanks what is quoted or
commented. Two filters decide on the text itself that a word cannot be in the mask.
-/

namespace SqlParser.Mysql

open SqlParser.Core

/-! ## Words -/

/-- `sqlparser_mysql_is_ident_char` -/
def isIdentChar (byte : UInt8) : Bool :=
  isAlnum byte || byte = Byte.underscore

/-- `sqlparser_mysql_fold_char` -/
def foldChar (byte : UInt8) : UInt8 :=
  if (65 ≤ byte && byte ≤ 90) || 128 ≤ byte then toLower byte else byte

/-- `sqlparser_mysql_is_word_boundary` -/
def isWordBoundary (text : Text) (pos len : Nat) : Bool :=
  !isIdentChar (if pos = 0 then 0 else byteAt text (pos - 1)) && !isIdentChar (byteAt text (pos + len))

/-- `sqlparser_mysql_ascii_word_equal` -/
def asciiWordEqual (text : Text) (pos : Nat) (word : Text) : Bool :=
  ((text.drop pos).take word.length).map foldChar = word.map foldChar && isWordBoundary text pos word.length

/-- `sqlparser_mysql_word_at` -/
def wordAt (masked : Text) (pos : Nat) (word : Text) : Bool :=
  word ≠ [] && isWordBoundary masked pos word.length && (masked.drop pos).take word.length = word

/-! ## Spans -/

def isQuote (byte : UInt8) : Bool :=
  byte = Byte.quote || byte = Byte.doubleQuote || byte = Byte.backtick

/-- The bytes of a quoted text before its closing quote. A doubled quote does not close it. -/
def quotedLength (quote : UInt8) : Text → Nat
  | [] => 0
  | [byte] => if byte = quote then 0 else 1
  | byte :: next :: rest =>
    if byte = quote then
      if next = quote then quotedLength quote rest + 2 else 0
    else
      quotedLength quote (next :: rest) + 1

def opensLine (text : Text) : Bool :=
  isDashCommentStart text || byteAt text 0 = Byte.hash

def lineLength (text : Text) : Nat :=
  (text.takeWhile (· ≠ Byte.lineFeed)).length

def opensBlock (text : Text) : Bool :=
  byteAt text 0 = Byte.slash && byteAt text 1 = Byte.star

def blockLength (text : Text) : Nat :=
  offsetOf text ((behindDelimiter [Byte.star, Byte.slash] (text.drop 2)).getD [])

/-- `sqlparser_mysql_skip_quoted_or_comment_span`, as the number of bytes that are skipped -/
def skipQuotedOrCommentSpan : Text → Nat
  | [] => 0
  | byte :: rest =>
    if isQuote byte then
      if quotedLength byte rest < rest.length then quotedLength byte rest + 2 else rest.length + 1
    else if opensLine (byte :: rest) then
      if lineLength (byte :: rest) < rest.length + 1 then lineLength (byte :: rest) + 1 else rest.length + 1
    else if opensBlock (byte :: rest) then
      blockLength (byte :: rest)
    else
      0

/-! ## The mask -/

def blanks (size : Nat) : Text :=
  List.replicate size Byte.space

theorem blockLength_pos {byte : UInt8} {rest : Text} (opens : opensBlock (byte :: rest)) :
    2 ≤ blockLength (byte :: rest) ∧ blockLength (byte :: rest) ≤ rest.length + 1 := by
  simp only [opensBlock, Bool.and_eq_true, decide_eq_true_eq] at opens
  have inside := lt_of_byteAt (opens.2.trans_ne (by decide))
  have short : ((behindDelimiter [Byte.star, Byte.slash] ((byte :: rest).drop 2)).getD []).length ≤ rest.length - 1 := by
    cases found : behindDelimiter [Byte.star, Byte.slash] ((byte :: rest).drop 2) with
    | none => exact Nat.zero_le _
    | some behind =>
      have := (behindDelimiter_suffix found).length_le
      simpa using this
  rw [List.length_cons] at inside
  rw [blockLength, offsetOf, List.length_cons]
  omega

/-- The loop of `sqlparser_mysql_mask_non_code`. -/
def maskFrom : Text → Text
  | [] => []
  | byte :: rest =>
    if isQuote byte then
      match _closed : rest.drop (quotedLength byte rest) with
      | [] => byte :: blanks (quotedLength byte rest)
      | close :: behind => byte :: (blanks (quotedLength byte rest) ++ close :: maskFrom behind)
    else if opensLine (byte :: rest) then
      match _ended : (byte :: rest).drop (lineLength (byte :: rest)) with
      | [] => blanks (lineLength (byte :: rest))
      | newline :: behind => blanks (lineLength (byte :: rest)) ++ newline :: maskFrom behind
    else if _opens : opensBlock (byte :: rest) then
      blanks (blockLength (byte :: rest)) ++ maskFrom ((byte :: rest).drop (blockLength (byte :: rest)))
    else
      foldChar byte :: maskFrom rest
termination_by text => text.length
decreasing_by
  · have shorter := congrArg List.length _closed
    simp only [List.length_drop, List.length_cons] at shorter ⊢
    omega
  · have shorter := congrArg List.length _ended
    simp only [List.length_drop, List.length_cons] at shorter ⊢
    omega
  · have := blockLength_pos _opens
    simp only [List.length_drop, List.length_cons]
    omega
  · exact Nat.lt_succ_self _

/-- `sqlparser_mysql_mask_non_code` -/
def maskNonCode (sql : Text) : Text :=
  maskFrom sql

/-! ## The filters -/

/-- The test of one byte in the loops of the filters -/
def wordTurn (sql : Text) (start stop : Nat) (word : Text) (pos : Nat) : Bool :=
  let byte := byteAt sql pos
  (byte ||| 0x20) = byteAt word 0 && foldChar byte = byteAt word 0 &&
    !(decide (start < pos) && isIdentChar (byteAt sql (pos - 1))) && decide (word.length ≤ stop - pos) &&
    asciiWordEqual sql pos word

/-- `sqlparser_mysql_raw_word_may_appear` -/
def rawWordMayAppear (sql : Text) (start stop : Nat) (word : Text) : Bool :=
  (List.range' start (stop - start)).any fun pos => 128 ≤ byteAt sql pos || wordTurn sql start stop word pos

/-- The bytes of a quoted text in a range before its closing quote, if it has one and no backslash is before it. -/
def closedQuote (quote : UInt8) : Text → Option Nat
  | [] => none
  | [byte] => if byte = quote then some 0 else none
  | byte :: next :: rest =>
    if byte = quote then
      if next = quote then (closedQuote quote rest).map (· + 2) else some 0
    else if byte = Byte.backslash then
      none
    else
      (closedQuote quote (next :: rest)).map (· + 1)

/-- The loop of `sqlparser_mysql_unquoted_word_may_appear`. -/
def unquotedWordFrom (sql : Text) (start stop : Nat) (word : Text) (pos : Nat) : Bool :=
  if pos < stop then
    let byte := byteAt sql pos
    if isQuote byte then
      match closedQuote byte ((sql.take stop).drop (pos + 1)) with
      | none => true
      | some size => unquotedWordFrom sql start stop word (pos + 1 + size + 1)
    else if byte = Byte.hash ∨ (pos + 1 < stop ∧ ((byte = Byte.slash ∧ byteAt sql (pos + 1) = Byte.star) ∨
        (byte = Byte.dash ∧ byteAt sql (pos + 1) = Byte.dash))) then
      rawWordMayAppear sql start stop word
    else if 128 ≤ byte ∨ byte = Byte.backslash then
      true
    else if wordTurn sql start stop word pos then
      true
    else
      unquotedWordFrom sql start stop word (pos + 1)
  else
    false
termination_by stop - pos

/-- `sqlparser_mysql_unquoted_word_may_appear` -/
def unquotedWordMayAppear (sql : Text) (start stop : Nat) (word : Text) : Bool :=
  unquotedWordFrom sql start stop word start

/-! ## What the mask is -/

/-- The classes of bytes beside each other, read off their table. -/
theorem mask_classes : ∀ byte : UInt8,
    isIdentChar (foldChar byte) = isIdentChar byte ∧ (isQuote byte → isIdentChar byte = false ∧ foldChar byte = byte) ∧
      (97 ≤ foldChar byte → foldChar byte ≤ 122 → byte ||| 0x20 = foldChar byte) := by
  decide +kernel

theorem quotedLength_le (quote : UInt8) (body : Text) : quotedLength quote body ≤ body.length := by
  induction body using quotedLength.induct quote with
  | case1 => exact le_rfl
  | case2 => rw [quotedLength, if_pos rfl]; exact Nat.zero_le _
  | case3 byte other => rw [quotedLength, if_neg other]; exact le_rfl
  | case4 rest inductionHypothesis =>
    rw [quotedLength, if_pos rfl, if_pos rfl, List.length_cons, List.length_cons]
    omega
  | case5 next rest other => rw [quotedLength, if_pos rfl, if_neg other]; exact Nat.zero_le _
  | case6 byte next rest other inductionHypothesis =>
    rw [quotedLength, if_neg other, List.length_cons]
    omega

/-- Behind the quoted bytes stands the closing quote. -/
theorem quotedLength_closes {quote close : UInt8} {body behind : Text}
    (closed : body.drop (quotedLength quote body) = close :: behind) : close = quote := by
  induction body using quotedLength.induct quote with
  | case1 => cases closed
  | case2 =>
    rw [quotedLength, if_pos rfl] at closed
    exact (List.cons.inj closed).1.symm
  | case3 byte other =>
    rw [quotedLength, if_neg other] at closed
    cases closed
  | case4 rest inductionHypothesis =>
    rw [quotedLength, if_pos rfl, if_pos rfl] at closed
    exact inductionHypothesis closed
  | case5 next rest other =>
    rw [quotedLength, if_pos rfl, if_neg other] at closed
    exact (List.cons.inj closed).1.symm
  | case6 byte next rest other inductionHypothesis =>
    rw [quotedLength, if_neg other] at closed
    exact inductionHypothesis closed

/-- What a span is in the mask, with the bytes behind it. The quotes of a quoted text and the line feed behind a comment
are kept. -/
inductive Blanked : Text → Text → Text → Prop where
  | quoted {quote : UInt8} {inside behind : Text} (opens : isQuote quote)
      (closes : quotedLength quote (inside ++ quote :: behind) = inside.length) :
      Blanked (quote :: (inside ++ [quote])) behind (quote :: (blanks inside.length ++ [quote]))
  | unclosed {quote : UInt8} {inside : Text} (opens : isQuote quote)
      (stays : quotedLength quote inside = inside.length) :
      Blanked (quote :: inside) [] (quote :: blanks inside.length)
  | line {comment behind : Text} (opens : opensLine (comment ++ Byte.lineFeed :: behind))
      (isLine : Byte.lineFeed ∉ comment) :
      Blanked (comment ++ [Byte.lineFeed]) behind (blanks comment.length ++ [Byte.lineFeed])
  | lastLine {comment : Text} (opens : opensLine comment) (isLine : Byte.lineFeed ∉ comment) :
      Blanked comment [] (blanks comment.length)
  | block {comment behind : Text} (opens : opensBlock (comment ++ behind))
      (closes : blockLength (comment ++ behind) = comment.length) :
      Blanked comment behind (blanks comment.length)

theorem maskFrom_code {byte : UInt8} {rest : Text} (isCode : skipQuotedOrCommentSpan (byte :: rest) = 0) :
    maskFrom (byte :: rest) = foldChar byte :: maskFrom rest := by
  rw [skipQuotedOrCommentSpan] at isCode
  split_ifs at isCode with quote _ line _ block
  · have := blockLength_pos block
    omega
  · rw [maskFrom, if_neg quote, if_neg line, dif_neg block]

theorem maskFrom_unclosed {byte : UInt8} {rest : Text} (quote : isQuote byte)
    (closed : rest.drop (quotedLength byte rest) = []) :
    maskFrom (byte :: rest) = byte :: blanks (quotedLength byte rest) := by
  rw [maskFrom, if_pos quote]
  split
  next => rfl
  next close behind other => rw [closed] at other; cases other

theorem maskFrom_quoted {byte close : UInt8} {rest behind : Text} (quote : isQuote byte)
    (closed : rest.drop (quotedLength byte rest) = close :: behind) :
    maskFrom (byte :: rest) = byte :: (blanks (quotedLength byte rest) ++ close :: maskFrom behind) := by
  rw [maskFrom, if_pos quote]
  split
  next other => rw [closed] at other; cases other
  next other => rw [closed] at other; cases other; rfl

theorem maskFrom_lastLine {byte : UInt8} {rest : Text} (quote : ¬ isQuote byte) (line : opensLine (byte :: rest))
    (ended : (byte :: rest).drop (lineLength (byte :: rest)) = []) :
    maskFrom (byte :: rest) = blanks (lineLength (byte :: rest)) := by
  rw [maskFrom, if_neg quote, if_pos line]
  split
  next => rfl
  next newline behind other => rw [ended] at other; cases other

theorem maskFrom_line {byte newline : UInt8} {rest behind : Text} (quote : ¬ isQuote byte) (line : opensLine (byte :: rest))
    (ended : (byte :: rest).drop (lineLength (byte :: rest)) = newline :: behind) :
    maskFrom (byte :: rest) = blanks (lineLength (byte :: rest)) ++ newline :: maskFrom behind := by
  rw [maskFrom, if_neg quote, if_pos line]
  split
  next other => rw [ended] at other; cases other
  next other => rw [ended] at other; cases other; rfl

/-- The line ends at its line feed or with the text. -/
theorem drop_lineLength (text : Text) : text.drop (lineLength text) = text.dropWhile (· ≠ Byte.lineFeed) := by
  have parts := @List.takeWhile_append_dropWhile _ (· ≠ Byte.lineFeed) text
  conv_lhs => rw [lineLength]; enter [2]; rw [← parts]
  exact List.drop_left

/-- A quoted text that is skipped is blanked between its quotes. -/
theorem maskFrom_quotedSpan {byte : UInt8} {rest : Text} (quote : isQuote byte) :
    ∃ span behind blanked, byte :: rest = span ++ behind ∧ span.length = skipQuotedOrCommentSpan (byte :: rest) ∧
      Blanked span behind blanked ∧ maskFrom (byte :: rest) = blanked ++ maskFrom behind := by
  have bound := quotedLength_le byte rest
  have size : (rest.take (quotedLength byte rest)).length = quotedLength byte rest := List.length_take_of_le bound
  have parts := List.take_append_drop (quotedLength byte rest) rest
  rw [skipQuotedOrCommentSpan, if_pos quote]
  cases closed : rest.drop (quotedLength byte rest) with
  | nil =>
    have whole : rest.length ≤ quotedLength byte rest := List.drop_eq_nil_iff.mp closed
    refine ⟨byte :: rest, [], byte :: blanks rest.length, (List.append_nil _).symm, ?_, ?_, ?_⟩
    · rw [if_neg (by omega), List.length_cons]
    · exact .unclosed quote (by omega)
    · rw [maskFrom_unclosed quote closed, maskFrom, List.append_nil, Nat.le_antisymm bound whole]
  | cons close behind =>
    obtain rfl := quotedLength_closes closed
    have shorter := congrArg List.length closed
    rw [List.length_drop, List.length_cons] at shorter
    rw [closed] at parts
    refine ⟨close :: (rest.take (quotedLength close rest) ++ [close]), behind,
      close :: (blanks (quotedLength close rest) ++ [close]), ?_, ?_, ?_, ?_⟩
    · simp [parts]
    · rw [if_pos (by omega), List.length_cons, List.length_append, size]
      rfl
    · have closes : quotedLength close (rest.take (quotedLength close rest) ++ close :: behind) =
          (rest.take (quotedLength close rest)).length := by
        rw [parts, size]
      have quoted := Blanked.quoted quote closes
      rwa [size] at quoted
    · rw [maskFrom_quoted quote closed]
      simp

/-- A line comment is blanked up to its line feed. -/
theorem maskFrom_lineSpan {byte : UInt8} {rest : Text} (quote : ¬ isQuote byte) (line : opensLine (byte :: rest)) :
    ∃ span behind blanked, byte :: rest = span ++ behind ∧ span.length = skipQuotedOrCommentSpan (byte :: rest) ∧
      Blanked span behind blanked ∧ maskFrom (byte :: rest) = blanked ++ maskFrom behind := by
  have parts := @List.takeWhile_append_dropWhile _ (· ≠ Byte.lineFeed) (byte :: rest)
  have noFeed : Byte.lineFeed ∉ (byte :: rest).takeWhile (· ≠ Byte.lineFeed) :=
    fun listed => by simpa using List.mem_takeWhile_imp listed
  have size : ((byte :: rest).takeWhile (· ≠ Byte.lineFeed)).length = lineLength (byte :: rest) := rfl
  rw [skipQuotedOrCommentSpan, if_neg quote, if_pos line]
  cases ended : (byte :: rest).dropWhile (· ≠ Byte.lineFeed) with
  | nil =>
    rw [ended, List.append_nil] at parts
    rw [parts] at size noFeed
    refine ⟨byte :: rest, [], blanks (byte :: rest).length, (List.append_nil _).symm, ?_, .lastLine line noFeed, ?_⟩
    · rw [if_neg (by rw [← size, List.length_cons]; omega), List.length_cons]
    · rw [maskFrom_lastLine quote line ((drop_lineLength _).trans ended), ← size, maskFrom, List.append_nil]
  | cons newline behind =>
    have isFeed : newline = Byte.lineFeed := by
      have present : (byte :: rest).dropWhile (· ≠ Byte.lineFeed) ≠ [] := by
        rw [ended]
        exact List.cons_ne_nil _ _
      have head := List.head_dropWhile_not _ present
      simpa only [ended, List.head_cons, decide_eq_false_iff_not, not_not] using head
    subst isFeed
    rw [ended] at parts
    have whole := congrArg List.length parts
    rw [List.length_append, size, List.length_cons, List.length_cons] at whole
    refine ⟨(byte :: rest).takeWhile (· ≠ Byte.lineFeed) ++ [Byte.lineFeed], behind,
      blanks (lineLength (byte :: rest)) ++ [Byte.lineFeed], ?_, ?_, .line (by rwa [parts]) noFeed, ?_⟩
    · rw [List.append_assoc]
      exact parts.symm
    · rw [if_pos (by omega), List.length_append, size]
      rfl
    · rw [maskFrom_line quote line ((drop_lineLength _).trans ended), List.append_assoc]
      rfl

/-- A block comment is blanked. -/
theorem maskFrom_blockSpan {byte : UInt8} {rest : Text} (quote : ¬ isQuote byte) (line : ¬ opensLine (byte :: rest))
    (block : opensBlock (byte :: rest)) :
    ∃ span behind blanked, byte :: rest = span ++ behind ∧ span.length = skipQuotedOrCommentSpan (byte :: rest) ∧
      Blanked span behind blanked ∧ maskFrom (byte :: rest) = blanked ++ maskFrom behind := by
  have bounds := blockLength_pos block
  have parts := List.take_append_drop (blockLength (byte :: rest)) (byte :: rest)
  have size : ((byte :: rest).take (blockLength (byte :: rest))).length = blockLength (byte :: rest) :=
    List.length_take_of_le bounds.2
  refine ⟨(byte :: rest).take (blockLength (byte :: rest)), (byte :: rest).drop (blockLength (byte :: rest)),
    blanks (blockLength (byte :: rest)), parts.symm, ?_, ?_, ?_⟩
  · rw [skipQuotedOrCommentSpan, if_neg quote, if_neg line, if_pos block, size]
  · have blocked : Blanked ((byte :: rest).take (blockLength (byte :: rest)))
        ((byte :: rest).drop (blockLength (byte :: rest)))
        (blanks ((byte :: rest).take (blockLength (byte :: rest))).length) :=
      .block (by rwa [parts]) (by rw [parts, size])
    rwa [size] at blocked
  · rw [maskFrom, if_neg quote, if_neg line, dif_pos block]

/-- A span that is skipped is blanked, and the mask goes on behind it. -/
theorem maskFrom_span {byte : UInt8} {rest : Text} (isSpan : skipQuotedOrCommentSpan (byte :: rest) ≠ 0) :
    ∃ span behind blanked, byte :: rest = span ++ behind ∧ span.length = skipQuotedOrCommentSpan (byte :: rest) ∧
      Blanked span behind blanked ∧ maskFrom (byte :: rest) = blanked ++ maskFrom behind := by
  by_cases quote : isQuote byte
  · exact maskFrom_quotedSpan quote
  · by_cases line : opensLine (byte :: rest)
    · exact maskFrom_lineSpan quote line
    · by_cases block : opensBlock (byte :: rest)
      · exact maskFrom_blockSpan quote line block
      · rw [skipQuotedOrCommentSpan, if_neg quote, if_neg line, if_neg block] at isSpan
        exact absurd rfl isSpan

/-- The mask of a text, piece by piece. -/
inductive Masks : Text → Text → Prop where
  | done : Masks [] []
  | code {byte : UInt8} {rest masked : Text} (isCode : skipQuotedOrCommentSpan (byte :: rest) = 0)
      (behind : Masks rest masked) : Masks (byte :: rest) (foldChar byte :: masked)
  | span {span behind blanked masked : Text} (present : span ≠ [])
      (skipped : span.length = skipQuotedOrCommentSpan (span ++ behind)) (isBlanked : Blanked span behind blanked)
      (rest : Masks behind masked) : Masks (span ++ behind) (blanked ++ masked)

theorem masks_maskFrom (text : Text) : Masks text (maskFrom text) := by
  induction size : text.length using Nat.strong_induction_on generalizing text with
  | _ size inductionHypothesis =>
  cases text with
  | nil => rw [maskFrom]; exact .done
  | cons byte rest =>
    by_cases isCode : skipQuotedOrCommentSpan (byte :: rest) = 0
    · rw [maskFrom_code isCode]
      exact .code isCode (inductionHypothesis rest.length (by rw [← size]; exact Nat.lt_succ_self _) rest rfl)
    · obtain ⟨span, behind, blanked, parts, skipped, isBlanked, mask⟩ := maskFrom_span isCode
      have present : span ≠ [] := by
        rintro rfl
        exact isCode skipped.symm
      have longer := congrArg List.length parts
      have := List.length_pos_iff.mpr present
      rw [List.length_append] at longer
      rw [mask, parts]
      exact .span present (by rw [← parts, skipped]) isBlanked (inductionHypothesis behind.length (by omega) behind rfl)

/-! ## The letters beside a span -/

/-- The bytes of a mask are those of the text in lower case or blanks, and a blank beside a letter of the mask is none of a
letter in the text. -/
structure Follows (raw masked : Text) : Prop where
  length : masked.length = raw.length
  byte : ∀ index, byteAt masked index = foldChar (byteAt raw index) ∨ byteAt masked index = Byte.space
  head : isIdentChar (byteAt masked 0) = isIdentChar (byteAt raw 0)
  right : ∀ index, isIdentChar (byteAt masked index) → isIdentChar (byteAt masked (index + 1)) = false →
    isIdentChar (byteAt raw (index + 1)) = false
  left : ∀ index, isIdentChar (byteAt masked (index + 1)) → isIdentChar (byteAt masked index) = false →
    isIdentChar (byteAt raw index) = false

theorem isIdentChar_foldChar (byte : UInt8) : isIdentChar (foldChar byte) = isIdentChar byte :=
  (mask_classes byte).1

theorem Follows.nil : Follows [] [] :=
  ⟨rfl, fun _ => .inl rfl, rfl, fun _ letter => (Bool.false_ne_true letter).elim,
    fun _ letter => (Bool.false_ne_true letter).elim⟩

theorem Follows.code {rest masked : Text} (follows : Follows rest masked) (byte : UInt8) :
    Follows (byte :: rest) (foldChar byte :: masked) := by
  refine ⟨by rw [List.length_cons, List.length_cons, follows.length], fun index => ?_, isIdentChar_foldChar byte,
    fun index => ?_, fun index => ?_⟩
  · cases index with
    | zero => exact .inl rfl
    | succ index => exact follows.byte index
  · cases index with
    | zero => exact fun _ ends => follows.head ▸ ends
    | succ index => exact follows.right index
  · cases index with
    | zero => exact fun _ noLetter => (isIdentChar_foldChar byte).symm.trans noLetter
    | succ index => exact follows.left index

/-- A byte that stays as it is in the mask and is no letter. -/
def IsDelimiter (byte : UInt8) : Prop :=
  foldChar byte = byte ∧ isIdentChar byte = false

/-- What is wanted of a span and of what it is in the mask. -/
structure Sealed (span behind blanked : Text) : Prop where
  length : blanked.length = span.length
  kept : ∀ index < span.length, byteAt blanked index = Byte.space ∨
    (byteAt blanked index = byteAt span index ∧ IsDelimiter (byteAt span index))
  first : isIdentChar (byteAt span 0) = false
  last : behind = [] ∨ isIdentChar (byteAt span (span.length - 1)) = false

theorem Sealed.byte {span behind blanked : Text} (isSealed : Sealed span behind blanked) {index : Nat}
    (inside : index < span.length) :
    byteAt blanked index = foldChar (byteAt span index) ∨ byteAt blanked index = Byte.space := by
  obtain blank | ⟨same, folded, -⟩ := isSealed.kept index inside
  · exact .inr blank
  · exact .inl (same.trans folded.symm)

theorem Sealed.closed {span behind blanked : Text} (isSealed : Sealed span behind blanked) {index : Nat}
    (inside : index < span.length) : isIdentChar (byteAt blanked index) = false := by
  obtain blank | ⟨same, -, noLetter⟩ := isSealed.kept index inside
  · rw [blank]
    rfl
  · rw [same, noLetter]

theorem Follows.span {span behind blanked masked : Text} (follows : Follows behind masked) (present : span ≠ [])
    (isSealed : Sealed span behind blanked) : Follows (span ++ behind) (blanked ++ masked) := by
  have positive := List.length_pos_iff.mpr present
  have inSpan {index : Nat} (inside : index < span.length) : byteAt (span ++ behind) index = byteAt span index :=
    byteAt_append_left inside
  have inBlanked {index : Nat} (inside : index < span.length) : byteAt (blanked ++ masked) index = byteAt blanked index :=
    byteAt_append_left (isSealed.length ▸ inside)
  have behindBlanked (index : Nat) : byteAt (blanked ++ masked) (span.length + index) = byteAt masked index :=
    isSealed.length ▸ byteAt_append_right blanked masked index
  refine ⟨by rw [List.length_append, List.length_append, isSealed.length, follows.length], fun index => ?_, ?_,
    fun index letter ends => ?_, fun index letter noLetter => ?_⟩
  · obtain inside | beyond := Nat.lt_or_ge index span.length
    · rw [inSpan inside, inBlanked inside]
      exact isSealed.byte inside
    · obtain ⟨index, rfl⟩ := Nat.exists_eq_add_of_le beyond
      rw [behindBlanked, byteAt_append_right]
      exact follows.byte index
  · rw [inSpan positive, inBlanked positive, isSealed.first, isSealed.closed positive]
  · obtain inside | beyond := Nat.lt_or_ge index span.length
    · rw [inBlanked inside, isSealed.closed inside] at letter
      cases letter
    · obtain ⟨index, rfl⟩ := Nat.exists_eq_add_of_le beyond
      rw [Nat.add_assoc] at ends ⊢
      rw [behindBlanked] at letter ends
      rw [byteAt_append_right]
      exact follows.right index letter ends
  · obtain inside | beyond := Nat.lt_or_ge index span.length
    · obtain within | atEnd := Nat.lt_or_ge (index + 1) span.length
      · rw [inBlanked within, isSealed.closed within] at letter
        cases letter
      · obtain rfl : index = span.length - 1 := by omega
        rw [inSpan inside]
        obtain rfl | last := isSealed.last
        · have := behindBlanked 0
          have nothing : masked = [] := List.eq_nil_of_length_eq_zero follows.length
          rw [show span.length - 1 + 1 = span.length + 0 by omega, this, nothing] at letter
          cases letter
        · exact last
    · obtain ⟨index, rfl⟩ := Nat.exists_eq_add_of_le beyond
      rw [Nat.add_assoc] at letter
      rw [behindBlanked] at letter noLetter
      rw [byteAt_append_right]
      exact follows.left index letter noLetter

theorem byteAt_blanks {size index : Nat} (inside : index < size) : byteAt (blanks size) index = Byte.space := by
  simp [byteAt, blanks, inside]

theorem length_blanks (size : Nat) : (blanks size).length = size :=
  List.length_replicate

/-- Blanks before a delimiter -/
theorem sealed_blanks {front : Text} {delimiter : UInt8} (isDelimiter : IsDelimiter delimiter) :
    ∀ index < (front ++ [delimiter]).length, byteAt (blanks front.length ++ [delimiter]) index = Byte.space ∨
      (byteAt (blanks front.length ++ [delimiter]) index = byteAt (front ++ [delimiter]) index ∧
        IsDelimiter (byteAt (front ++ [delimiter]) index)) := by
  intro index inside
  rw [List.length_append, List.length_singleton] at inside
  obtain before | same := Nat.lt_succ_iff_lt_or_eq.mp inside
  · rw [byteAt_append_left (by rwa [length_blanks])]
    exact .inl (byteAt_blanks before)
  · have blank := byteAt_append_right (blanks front.length) [delimiter] 0
    have kept := byteAt_append_right front [delimiter] 0
    rw [length_blanks] at blank
    rw [same]
    have isLast : byteAt (front ++ [delimiter]) front.length = delimiter := kept
    exact .inr ⟨blank.trans kept.symm, by rwa [isLast]⟩

theorem opensLine_first {text : Text} (opens : opensLine text) : isIdentChar (byteAt text 0) = false := by
  simp only [opensLine, isDashCommentStart, Bool.or_eq_true, Bool.and_eq_true, decide_eq_true_eq] at opens
  obtain ⟨⟨dash, -⟩, -⟩ | hash := opens
  · rw [dash]; rfl
  · rw [hash]; rfl

theorem opensBlock_first {text : Text} (opens : opensBlock text) : isIdentChar (byteAt text 0) = false := by
  simp only [opensBlock, Bool.and_eq_true, decide_eq_true_eq] at opens
  rw [opens.1]
  rfl

/-- A block comment ends with its closing slash or with the text. -/
theorem blockLength_last {comment behind : Text} (opens : opensBlock (comment ++ behind))
    (closes : blockLength (comment ++ behind) = comment.length) :
    behind = [] ∨ byteAt comment (comment.length - 1) = Byte.slash := by
  have bounds : 2 ≤ comment.length := by
    cases whole : comment ++ behind with
    | nil =>
      rw [whole] at opens
      cases opens
    | cons byte rest =>
      rw [whole] at opens closes
      exact closes ▸ (blockLength_pos opens).1
  rw [blockLength, offsetOf, List.length_append] at closes
  cases found : behindDelimiter [Byte.star, Byte.slash] ((comment ++ behind).drop 2) with
  | none =>
    rw [found, Option.getD_none, List.length_nil] at closes
    exact .inl (List.eq_nil_of_length_eq_zero (by omega))
  | some tail =>
    rw [found, Option.getD_some] at closes
    obtain ⟨front, split⟩ := behindDelimiter_split found
    have whole : comment ++ behind = (comment.take 2 ++ front ++ [Byte.star]) ++ [Byte.slash] ++ tail := by
      rw [← List.take_append_drop 2 (comment ++ behind), split, List.take_append_of_le_length bounds]
      simp
    have lengths := congrArg List.length whole
    rw [List.length_append, List.length_append] at lengths
    obtain ⟨isComment, -⟩ := List.append_inj whole (by omega)
    have last := byteAt_append_right (comment.take 2 ++ front ++ [Byte.star]) [Byte.slash] 0
    rw [isComment, List.length_append, List.length_singleton]
    exact .inr last

theorem Blanked.isSealed {span behind blanked : Text} (isBlanked : Blanked span behind blanked) (present : span ≠ []) :
    Sealed span behind blanked := by
  cases isBlanked with
  | @quoted quote inside behind opens closes =>
    obtain ⟨noLetter, folded⟩ := (mask_classes quote).2.1 opens
    have tail := @sealed_blanks inside quote ⟨folded, noLetter⟩
    refine ⟨by simp [length_blanks], fun index inside => ?_, noLetter, .inr ?_⟩
    · cases index with
      | zero => exact .inr ⟨rfl, folded, noLetter⟩
      | succ index => exact tail index (Nat.lt_of_succ_lt_succ inside)
    · have last := byteAt_append_right inside [quote] 0
      rw [List.length_cons, List.length_append, List.length_singleton]
      exact (congrArg isIdentChar last).trans noLetter
  | @unclosed quote inside opens stays =>
    obtain ⟨noLetter, folded⟩ := (mask_classes quote).2.1 opens
    refine ⟨by simp [length_blanks], fun index inside => ?_, noLetter, .inl rfl⟩
    cases index with
    | zero => exact .inr ⟨rfl, folded, noLetter⟩
    | succ index => exact .inl (byteAt_blanks (Nat.lt_of_succ_lt_succ inside))
  | @line comment behind opens isLine =>
    have feed : IsDelimiter Byte.lineFeed := ⟨by decide, by decide⟩
    refine ⟨by simp [length_blanks], sealed_blanks feed, ?_, .inr ?_⟩
    · have first := opensLine_first opens
      rw [List.append_cons, byteAt_append_left (List.length_pos_iff.mpr present)] at first
      exact first
    · have last := byteAt_append_right comment [Byte.lineFeed] 0
      rw [List.length_append, List.length_singleton]
      exact (congrArg isIdentChar last).trans feed.2
  | lastLine opens isLine =>
    exact ⟨length_blanks _, fun index inside => .inl (byteAt_blanks inside), opensLine_first opens, .inl rfl⟩
  | block opens closes =>
    have first := opensBlock_first opens
    rw [byteAt_append_left (List.length_pos_iff.mpr present)] at first
    refine ⟨length_blanks _, fun index inside => .inl (byteAt_blanks inside), first, ?_⟩
    obtain nothing | slash := blockLength_last opens closes
    · exact .inl nothing
    · exact .inr (by rw [slash]; rfl)

theorem Masks.follows {text masked : Text} (masks : Masks text masked) : Follows text masked := by
  induction masks with
  | done => exact .nil
  | code isCode behind inductionHypothesis => exact inductionHypothesis.code _
  | span present skipped isBlanked rest inductionHypothesis =>
    exact inductionHypothesis.span present (isBlanked.isSealed present)

/-! ## Words in the mask and in the text -/

/-- A word that begins with a letter and is in lower case -/
structure IsKeyword (word : Text) : Prop where
  first : 97 ≤ byteAt word 0 ∧ byteAt word 0 ≤ 122
  letters : ∀ byte ∈ word, isIdentChar byte ∧ foldChar byte = byte

section words

variable {sql word : Text} {start stop pos : Nat}

theorem IsKeyword.length_pos (keyword : IsKeyword word) : 0 < word.length :=
  lt_of_byteAt fun none => by
    have := keyword.first.1
    rw [none] at this
    exact absurd this (by decide)

theorem IsKeyword.letter (keyword : IsKeyword word) {index : Nat} (inside : index < word.length) :
    isIdentChar (byteAt word index) ∧ foldChar (byteAt word index) = byteAt word index := by
  rw [byteAt, List.getD_eq_getElem _ _ inside]
  exact keyword.letters _ (List.getElem_mem inside)

/-- The letters of a word that stands in a text -/
theorem wordAt_byte {masked : Text} (stands : wordAt masked pos word) {index : Nat} (inside : index < word.length) :
    byteAt masked (pos + index) = byteAt word index := by
  simp only [wordAt, Bool.and_eq_true, decide_eq_true_eq] at stands
  rw [← stands.2, byteAt, byteAt, List.getD_eq_getElem?_getD, List.getD_eq_getElem?_getD, List.getElem?_take_of_lt inside,
    List.getElem?_drop]

theorem wordAt_length {masked : Text} (stands : wordAt masked pos word) : pos + word.length ≤ masked.length := by
  simp only [wordAt, Bool.and_eq_true, decide_eq_true_eq] at stands
  have size := congrArg List.length stands.2
  rw [List.length_take, List.length_drop] at size
  have := List.length_pos_iff.mpr stands.1.1
  omega

/-- A word of the mask is one of the text. -/
theorem Follows.asciiWordEqual {raw masked : Text} (follows : Follows raw masked) (keyword : IsKeyword word)
    (stands : wordAt masked pos word) : asciiWordEqual raw pos word := by
  have positive := keyword.length_pos
  have fits := follows.length ▸ wordAt_length stands
  have letter {index : Nat} (inside : index < word.length) : foldChar (byteAt raw (pos + index)) = byteAt word index := by
    have here := wordAt_byte stands inside
    obtain folded | blank := follows.byte (pos + index)
    · exact folded.symm.trans here
    · have isLetter := (keyword.letter inside).1
      rw [← here, blank] at isLetter
      cases isLetter
  have bounds : isWordBoundary masked pos word.length = true := by
    simp only [wordAt, Bool.and_eq_true] at stands
    exact stands.1.2
  simp only [isWordBoundary, Bool.and_eq_true, Bool.not_eq_true'] at bounds
  rw [SqlParser.Mysql.asciiWordEqual, Bool.and_eq_true, decide_eq_true_eq, isWordBoundary, Bool.and_eq_true,
    Bool.not_eq_true', Bool.not_eq_true']
  refine ⟨?_, ?_, ?_⟩
  · apply List.ext_getElem
    · rw [List.length_map, List.length_map, List.length_take, List.length_drop]
      omega
    · intro index _ inside
      rw [List.length_map] at inside
      rw [List.getElem_map, List.getElem_map, List.getElem_take, List.getElem_drop]
      have same := letter inside
      have kept := (keyword.letter inside).2
      rw [byteAt, List.getD_eq_getElem _ _ (by omega)] at same
      rw [byteAt, List.getD_eq_getElem _ _ inside] at same kept
      rw [same, kept]
  · obtain rfl | ⟨before, rfl⟩ : pos = 0 ∨ ∃ before, pos = before + 1 := by
      cases pos with
      | zero => exact .inl rfl
      | succ before => exact .inr ⟨before, rfl⟩
    · rfl
    · have first := wordAt_byte stands positive
      rw [if_neg (Nat.succ_ne_zero _), Nat.add_sub_cancel] at bounds ⊢
      exact follows.left before (first ▸ (keyword.letter positive).1) bounds.1
  · have atEnd : word.length - 1 < word.length := by omega
    have isLetter := (keyword.letter atEnd).1
    rw [← wordAt_byte stands atEnd] at isLetter
    have behind := follows.right (pos + (word.length - 1)) isLetter
    rw [show pos + (word.length - 1) + 1 = pos + word.length by omega] at behind
    exact behind bounds.2

theorem maskNonCode_follows (sql : Text) : Follows sql (maskNonCode sql) :=
  (masks_maskFrom sql).follows

/-- The test of one byte accepts a word that stands there. -/
theorem wordTurn_word (keyword : IsKeyword word) (equal : asciiWordEqual sql pos word)
    (fits : pos + word.length ≤ stop) : wordTurn sql start stop word pos := by
  have positive := keyword.length_pos
  obtain ⟨same, bounds⟩ := Bool.and_eq_true_iff.mp equal
  have first : foldChar (byteAt sql pos) = byteAt word 0 := by
    have heads := congrArg List.head? (of_decide_eq_true same)
    rw [byteAt_eq_head]
    cases located : sql.drop pos with
    | nil =>
      cases word with
      | nil => cases positive
      | cons byte rest => simp [located] at heads
    | cons byte tail =>
      cases word with
      | nil => cases positive
      | cons other rest =>
        have kept : foldChar other = other := (keyword.letter positive).2
        have same : foldChar byte = foldChar other := by simpa [located] using heads
        exact same.trans kept
  have lower : (byteAt sql pos ||| 0x20) = byteAt word 0 := by
    rw [(mask_classes _).2.2 (first ▸ keyword.first.1) (first ▸ keyword.first.2), first]
  simp only [isWordBoundary, Bool.and_eq_true, Bool.not_eq_true'] at bounds
  have noLetter : (decide (start < pos) && isIdentChar (byteAt sql (pos - 1))) = false := by
    by_cases later : start < pos
    · rw [if_neg (by omega)] at bounds
      rw [bounds.1, Bool.and_false]
    · rw [decide_eq_false later, Bool.false_and]
  have room : word.length ≤ stop - pos := by omega
  simp only [wordTurn, first, lower, noLetter, equal, room, decide_true, Bool.not_false, Bool.and_true]

/-- The raw filter misses no word. -/
theorem rawWordMayAppear_word (keyword : IsKeyword word) (stands : wordAt (maskNonCode sql) pos word)
    (behindStart : start ≤ pos) (fits : pos + word.length ≤ stop) : rawWordMayAppear sql start stop word := by
  have positive := keyword.length_pos
  refine List.any_eq_true.mpr ⟨pos, List.mem_range'_1.mpr ⟨behindStart, by omega⟩, ?_⟩
  rw [wordTurn_word keyword ((maskNonCode_follows sql).asciiWordEqual keyword stands) fits, Bool.or_true]

/-! ## The filter that skips quoted texts -/

/-- The places at which the loop of the mask stands: outside of quoted texts and comments. -/
inductive ItemStart (sql : Text) : Nat → Prop where
  | beginning : ItemStart sql 0
  | behind {pos : Nat} (here : ItemStart sql pos) (inside : pos < sql.length) :
    ItemStart sql (pos + max 1 (skipQuotedOrCommentSpan (sql.drop pos)))

/-- Where the loop stands, the mask of the rest begins. -/
theorem ItemStart.mask (begins : ItemStart sql pos) : (maskNonCode sql).drop pos = maskFrom (sql.drop pos) := by
  induction begins with
  | beginning => rfl
  | @behind pos here inside inductionHypothesis =>
    rw [← List.drop_drop, inductionHypothesis, ← List.drop_drop, drop_eq_byteAt inside]
    by_cases isCode : skipQuotedOrCommentSpan (byteAt sql pos :: sql.drop (pos + 1)) = 0
    · rw [maskFrom_code isCode, isCode]
      rfl
    · obtain ⟨span, behind, blanked, parts, skipped, isBlanked, mask⟩ := maskFrom_span isCode
      have present : span ≠ [] := by
        rintro rfl
        exact isCode skipped.symm
      rw [mask, max_eq_right (by omega), ← skipped, parts, List.drop_left, ← (isBlanked.isSealed present).length,
        List.drop_left]

/-- No letter of the mask stands in a span. -/
theorem ItemStart.behind_span (begins : ItemStart sql pos) (inside : pos < sql.length) {target : Nat}
    (notBefore : pos ≤ target) (letter : isIdentChar (byteAt (maskNonCode sql) target)) :
    pos + skipQuotedOrCommentSpan (sql.drop pos) ≤ target := by
  by_contra before
  have isCode : skipQuotedOrCommentSpan (byteAt sql pos :: sql.drop (pos + 1)) ≠ 0 := by
    rw [← drop_eq_byteAt inside]
    omega
  obtain ⟨span, behind, blanked, parts, skipped, isBlanked, mask⟩ := maskFrom_span isCode
  have present : span ≠ [] := by
    rintro rfl
    exact isCode skipped.symm
  have isSealed := isBlanked.isSealed present
  rw [← drop_eq_byteAt inside] at skipped mask
  obtain ⟨offset, rfl⟩ := Nat.exists_eq_add_of_le notBefore
  rw [← byteAt_drop, begins.mask, mask, byteAt_append_left (by rw [isSealed.length]; omega),
    isSealed.closed (by omega)] at letter
  cases letter

/-- A quoted text that is closed in a range is closed there in the text, or the range ends behind a half of a doubled
quote. -/
theorem closedQuote_quotedLength {quote : UInt8} {rest : Text} {room size : Nat}
    (closed : closedQuote quote (rest.take room) = some size) :
    size < room ∧ size < rest.length ∧ size ≤ quotedLength quote rest ∧
      (quotedLength quote rest = size ∨ size + 1 = room) := by
  induction rest using quotedLength.induct quote generalizing room size with
  | case1 =>
    rw [List.take_nil] at closed
    cases closed
  | case2 =>
    cases room with
    | zero => cases closed
    | succ room =>
      rw [List.take_succ_cons, List.take_nil, closedQuote, if_pos rfl] at closed
      cases closed
      rw [quotedLength, if_pos rfl]
      exact ⟨Nat.succ_pos _, Nat.succ_pos _, le_rfl, .inl rfl⟩
  | case3 byte other =>
    cases room with
    | zero => cases closed
    | succ room =>
      rw [List.take_succ_cons, List.take_nil, closedQuote, if_neg other] at closed
      cases closed
  | case4 rest inductionHypothesis =>
    rw [quotedLength, if_pos rfl, if_pos rfl, List.length_cons, List.length_cons]
    match room, closed with
    | 1, closed =>
      rw [List.take_succ_cons, List.take_zero, closedQuote, if_pos rfl] at closed
      cases closed
      omega
    | room + 2, closed =>
      rw [List.take_succ_cons, List.take_succ_cons, closedQuote, if_pos rfl, if_pos rfl, Option.map_eq_some_iff] at closed
      obtain ⟨inner, found, same⟩ := closed
      have := inductionHypothesis found
      omega
  | case5 next rest other =>
    rw [quotedLength, if_pos rfl, if_neg other, List.length_cons, List.length_cons]
    match room, closed with
    | 1, closed =>
      rw [List.take_succ_cons, List.take_zero, closedQuote, if_pos rfl] at closed
      cases closed
      omega
    | room + 2, closed =>
      rw [List.take_succ_cons, List.take_succ_cons, closedQuote, if_pos rfl, if_neg other] at closed
      cases closed
      omega
  | case6 byte next rest other inductionHypothesis =>
    rw [quotedLength, if_neg other, List.length_cons]
    match room, closed with
    | 1, closed =>
      rw [List.take_succ_cons, List.take_zero, closedQuote, if_neg other] at closed
      cases closed
    | room + 2, closed =>
      rw [List.take_succ_cons, List.take_succ_cons, closedQuote, if_neg other] at closed
      split at closed
      next => cases closed
      next =>
        rw [Option.map_eq_some_iff] at closed
        obtain ⟨inner, found, same⟩ := closed
        rw [← List.take_succ_cons] at found
        have := inductionHypothesis found
        omega

/-- A span that opens neither with a quote nor a number sign opens with two bytes. -/
theorem skip_of_pair (noQuote : isQuote (byteAt sql pos) = false) (noHash : byteAt sql pos ≠ Byte.hash)
    (noPair : ¬ ((byteAt sql pos = Byte.slash ∧ byteAt sql (pos + 1) = Byte.star) ∨
      (byteAt sql pos = Byte.dash ∧ byteAt sql (pos + 1) = Byte.dash))) :
    skipQuotedOrCommentSpan (sql.drop pos) = 0 := by
  have line : ¬ opensLine (sql.drop pos) := by
    simp only [opensLine, isDashCommentStart, byteAt_drop, Nat.add_zero, Bool.or_eq_true, Bool.and_eq_true,
      decide_eq_true_eq]
    grind
  have block : ¬ opensBlock (sql.drop pos) := by
    simp only [opensBlock, byteAt_drop, Nat.add_zero, Bool.and_eq_true, decide_eq_true_eq]
    exact fun block => noPair (.inl block)
  cases located : sql.drop pos with
  | nil => rfl
  | cons byte rest =>
    have first : byteAt sql pos = byte := by rw [byteAt_eq_head, located]; rfl
    rw [located] at line block
    rw [skipQuotedOrCommentSpan, if_neg (by rw [← first, noQuote]; exact Bool.false_ne_true), if_neg line, if_neg block]

/-- From a place outside of spans the filter misses no word. -/
theorem unquotedWordFrom_word (keyword : IsKeyword word) {target : Nat} (stands : wordAt (maskNonCode sql) target word)
    (begins : ItemStart sql pos) (notBefore : pos ≤ target) (behindStart : start ≤ target)
    (fits : target + word.length ≤ stop) : unquotedWordFrom sql start stop word pos := by
  have positive := keyword.length_pos
  have letter : isIdentChar (byteAt (maskNonCode sql) target) := by
    have first := wordAt_byte stands positive
    rw [Nat.add_zero] at first
    rw [first]
    exact (keyword.letter positive).1
  have textEnds := (maskNonCode_follows sql).length ▸ wordAt_length stands
  have inside : pos < sql.length := by omega
  have raw := rawWordMayAppear_word keyword stands behindStart fits
  have skipped := begins.behind_span inside notBefore letter
  have next := begins.behind inside
  induction left : stop - pos using Nat.strong_induction_on generalizing pos with
  | _ left inductionHypothesis =>
  rw [unquotedWordFrom, if_pos (by omega)]
  by_cases quote : isQuote (byteAt sql pos)
  · rw [if_pos quote]
    split
    next => rfl
    next size closed =>
      have rest : (sql.take stop).drop (pos + 1) = (sql.drop (pos + 1)).take (stop - (pos + 1)) := List.drop_take
      rw [rest] at closed
      obtain ⟨inRange, inText, notAfter, same⟩ := closedQuote_quotedLength closed
      have span : skipQuotedOrCommentSpan (sql.drop pos) =
          if quotedLength (byteAt sql pos) (sql.drop (pos + 1)) < (sql.drop (pos + 1)).length then
            quotedLength (byteAt sql pos) (sql.drop (pos + 1)) + 2
          else
            (sql.drop (pos + 1)).length + 1 := by
        rw [drop_eq_byteAt inside, skipQuotedOrCommentSpan, if_pos quote]
      -- the word stands behind the quoted text, so the range does not end in it
      have whole : skipQuotedOrCommentSpan (sql.drop pos) = size + 2 := by
        rw [span] at skipped ⊢
        split_ifs at skipped ⊢ <;> omega
      rw [whole, max_eq_right (by omega), show pos + (size + 2) = pos + 1 + size + 1 by omega] at next
      rw [whole] at skipped
      exact inductionHypothesis _ (by omega) next (by omega) (by omega) (next.behind_span (by omega) (by omega) letter)
        (next.behind (by omega)) rfl
  · rw [if_neg quote]
    by_cases comment : byteAt sql pos = Byte.hash ∨ (pos + 1 < stop ∧
        ((byteAt sql pos = Byte.slash ∧ byteAt sql (pos + 1) = Byte.star) ∨
          (byteAt sql pos = Byte.dash ∧ byteAt sql (pos + 1) = Byte.dash)))
    · rw [if_pos comment]
      exact raw
    · rw [if_neg comment]
      split_ifs with high found
      · rfl
      · rfl
      · have notHere : pos ≠ target := by
          rintro rfl
          exact found (wordTurn_word keyword ((maskNonCode_follows sql).asciiWordEqual keyword stands) fits)
        push Not at comment
        have isCode : skipQuotedOrCommentSpan (sql.drop pos) = 0 := by
          refine skip_of_pair (Bool.eq_false_iff.mpr quote) comment.1 ?_
          rintro (pair | pair)
          · exact (comment.2 (by omega)).1 pair.1 pair.2
          · exact (comment.2 (by omega)).2 pair.1 pair.2
        rw [isCode] at next
        exact inductionHypothesis _ (by omega) next (by omega) (by omega) (next.behind_span (by omega) (by omega) letter)
          (next.behind (by omega)) rfl

/-- The filter that skips quoted texts misses no word of a range that begins outside of them. -/
theorem unquotedWordMayAppear_word (keyword : IsKeyword word) (stands : wordAt (maskNonCode sql) pos word)
    (begins : ItemStart sql start) (behindStart : start ≤ pos) (fits : pos + word.length ≤ stop) :
    unquotedWordMayAppear sql start stop word :=
  unquotedWordFrom_word keyword stands begins behindStart behindStart fits

end words

end SqlParser.Mysql
