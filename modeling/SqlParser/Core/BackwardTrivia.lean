import SqlParser.Core.SourceTokens

/-! # White space and comments read backwards

To learn whether an alias is written with `AS` the resolver walks back over the white space and the
comments in front of it, and looks at the bytes that it meets.
-/

namespace SqlParser.Core.Source

/-! ## The backward reading -/

/-- The bytes before a position, the last of them first. -/
def before (text rest : Text) : Text :=
  (text.take (text.length - rest.length)).reverse

def isBlank (byte : UInt8) : Bool :=
  byte = 32 || byte = 9 || byte = 12 || byte = 11

/-- The loop of `sqlparser_skip_block_comment_backward` at some depth. -/
def openingBlockComment : Nat → Text → Option Text
  | depth, last :: second :: earlier =>
    if second = Byte.star ∧ last = Byte.slash then openingBlockComment (depth + 1) earlier
    else if second = Byte.slash ∧ last = Byte.star then
      if depth = 1 then some earlier else openingBlockComment (depth - 1) earlier
    else openingBlockComment depth (second :: earlier)
  | _, _ => none

/-- `sqlparser_skip_block_comment_backward` -/
def skipBlockCommentBackward : Text → Option Text
  | last :: second :: earlier =>
    if second = Byte.star ∧ last = Byte.slash then openingBlockComment 1 earlier else none
  | _ => none

section lexing

variable (lexer : Lexer)

theorem tokenEnd_suffix {token : Text} (present : token ≠ []) : tokenEnd lexer token <:+ token.drop 1 := by
  rcases tokenEnd_cases lexer present with ⟨closing, -, closed⟩ | word | ⟨byte, isToken, -⟩
  · exact closed.suffix
  · obtain ⟨byte, word, isToken, -⟩ := word
    conv_rhs => rw [isToken]
    exact ⟨word, rfl⟩
  · conv_rhs => rw [isToken]
    exact List.suffix_refl _

theorem tokenEnd_shorter {token : Text} (present : token ≠ []) : (tokenEnd lexer token).length < token.length := by
  have shorter := (tokenEnd_suffix lexer present).length_le
  have := List.length_pos_iff.mpr present
  rw [List.length_drop] at shorter
  omega

/-- `sqlparser_source_line_comment_start`, where `stop` bytes stand behind the end. -/
def lineCommentStart (stop : Nat) (rest : Text) : Option Text :=
  if rest.length ≤ stop then none
  else if stop + 1 < rest.length ∧ opensBlockComment rest then lineCommentStart stop (skipBlockComment 1 (rest.drop 2))
  else if (stringEnd lexer rest).isNone ∧ opensLineComment lexer rest ∧
    (rest.head? = some Byte.hash ∨ stop + 1 < rest.length) then
    some rest
  else lineCommentStart stop (tokenEnd lexer rest)
termination_by rest.length
decreasing_by
  · have := (skipBlockComment_suffix 1 (rest.drop 2)).length_le
    rw [List.length_drop] at this
    omega
  · exact tokenEnd_shorter lexer (by rintro rfl; simp at *)

/-- The comment that a scan of the line in front of a position finds. -/
def lineComment (text lineEnd : Text) : Option Text :=
  let line := ((before text lineEnd).takeWhile fun byte => !isLineBreak byte).reverse
  lineCommentStart lexer lineEnd.length (line ++ lineEnd)

/-- The position where the comment of a line starts, or the end of the line. -/
def skipLineComment (text earlier : Text) : Text :=
  let lineEnd := text.drop earlier.length
  match lineComment lexer text lineEnd with
  | some comment => earlier.drop (comment.length - lineEnd.length)
  | none => earlier

/-- The bytes before the line break that starts with the last byte. -/
def skipLineBreak (mark : UInt8) (earlier : Text) : Text :=
  if mark = Byte.lineFeed ∧ earlier.head? = some Byte.carriageReturn then earlier.drop 1 else earlier

theorem openingBlockComment_suffix {depth : Nat} {earlier position : Text}
    (found : openingBlockComment depth earlier = some position) :
    position <:+ earlier := by
  fun_induction openingBlockComment depth earlier with
  | case1 depth last second earlier closes inductionHypothesis =>
    exact (inductionHypothesis found).trans ((List.suffix_cons _ _).trans (List.suffix_cons _ _))
  | case2 last second earlier closes opens =>
    rw [← Option.some.inj found]
    exact (List.suffix_cons _ _).trans (List.suffix_cons _ _)
  | case3 depth last second earlier closes opens deeper inductionHypothesis =>
    exact (inductionHypothesis found).trans ((List.suffix_cons _ _).trans (List.suffix_cons _ _))
  | case4 depth last second earlier closes opens inductionHypothesis =>
    exact (inductionHypothesis found).trans (List.suffix_cons _ _)
  | case5 => cases found

theorem skipBlockCommentBackward_some {earlier position : Text} (found : skipBlockCommentBackward earlier = some position) :
    ∃ rest, earlier = Byte.slash :: Byte.star :: rest ∧ openingBlockComment 1 rest = some position := by
  unfold skipBlockCommentBackward at found
  split at found
  · split at found
    next closes =>
      obtain ⟨rfl, rfl⟩ := closes
      exact ⟨_, rfl, found⟩
    · cases found
  · cases found

/-- `sqlparser_skip_trivia_backward`, where a position is the bytes before it. -/
def skipTriviaBackward (text earlier : Text) : Text :=
  match found : skipBlockCommentBackward (earlier.dropWhile isBlank) with
  | some position => skipTriviaBackward text position
  | none =>
    match ahead : earlier.dropWhile isBlank with
    | mark :: more =>
      if isLineBreak mark then skipTriviaBackward text (skipLineComment lexer text (skipLineBreak mark more)) else
        mark :: more
    | [] => []
termination_by earlier.length
decreasing_by
  · obtain ⟨rest, isEarlier, opening⟩ := skipBlockCommentBackward_some found
    have blanks := (List.dropWhile_suffix isBlank : earlier.dropWhile isBlank <:+ earlier).length_le
    have shorter := (openingBlockComment_suffix opening).length_le
    rw [isEarlier, List.length_cons, List.length_cons] at blanks
    omega
  · have blanks := (List.dropWhile_suffix isBlank : earlier.dropWhile isBlank <:+ earlier).length_le
    rw [ahead, List.length_cons] at blanks
    have lineBreak : (skipLineBreak mark more).length ≤ more.length := by
      unfold skipLineBreak
      split <;> simp
    have line : (skipLineComment lexer text (skipLineBreak mark more)).length ≤ (skipLineBreak mark more).length := by
      unfold skipLineComment
      dsimp only
      split <;> simp
    omega

/-- The test of the bytes in front of a position, the last of them first. -/
def endsWithAs : Text → Bool
  | last :: first :: front =>
    isLetter 97 first && isLetter 115 last &&
      front.head?.all fun byte => !isIdentifierPart byte && byte ≠ Byte.colon && byte ≠ Byte.at' && byte ≠ Byte.dot
  | _ => false

/-- `sqlparser_source_preceding_token_is_as` -/
def sourcePrecedingTokenIsAs (text earlier : Text) : Bool :=
  endsWithAs (skipTriviaBackward lexer text earlier)

end lexing

/-- `sqlparser_source_alias_has_explicit_as` -/
def sourceAliasHasExplicitAs (dialect : Dialect) (text : Text) (aliasOffset : Nat) : Bool :=
  aliasOffset ≤ text.length && sourcePrecedingTokenIsAs (lexer dialect) text (text.take aliasOffset).reverse

/-! ## The forward reading -/

section reading

variable (lexer : Lexer)

/-- A single white space byte or comment. -/
inductive TriviaStep : Text → Text → Prop where
  | space {byte : UInt8} {rest : Text} : isSpace byte = true → TriviaStep (byte :: rest) rest
  | line {rest : Text} : opensLineComment lexer rest = true → TriviaStep rest (untilLineBreak (rest.drop 1))
  | block {rest : Text} : opensBlockComment rest = true → TriviaStep rest (skipBlockComment 1 (rest.drop 2))

abbrev Trivia : Text → Text → Prop :=
  Relation.ReflTransGen (TriviaStep lexer)

/-- The positions behind the tokens of a text, its beginning among them. -/
inductive Behind (text : Text) : Text → Prop where
  | beginning : Behind text text
  | token {behind : Text} : Behind text behind → skipTrivia lexer behind ≠ [] →
    Behind text (tokenEnd lexer (skipTrivia lexer behind))

/-- The token that ends here is the word `AS`, it is not part of a longer name and no `.`, `:` or `@` stands in front
of it. -/
def FollowsAs (text behind : Text) : Prop :=
  ∃ earlier word, Behind lexer text earlier ∧ skipTrivia lexer earlier = word ++ behind ∧
    tokenEnd lexer (word ++ behind) = behind ∧
    word.map toLower = ascii "as" ∧
    ∀ byte ∈ (before text (word ++ behind)).head?,
      isIdentifierPart byte = false ∧ byte ≠ Byte.colon ∧ byte ≠ Byte.at' ∧ byte ≠ Byte.dot

/-- The line comment that opens at one position of the trivia ends at another one. -/
def CommentEnds (behind opening rest : Text) : Prop :=
  Trivia lexer behind opening ∧ opensLineComment lexer opening = true ∧ untilLineBreak (opening.drop 1) = rest

/-- The comments behind a token are the same in both directions. -/
structure ReadsBack (text behind : Text) : Prop where
  /-- no block comment ends with the token -/
  token : skipBlockCommentBackward (before text behind) = none
  /-- a block comment read from its last byte opens with its first one -/
  blocks : ∀ rest, Trivia lexer behind rest → opensBlockComment rest = true →
    skipBlockCommentBackward (before rest (skipBlockComment 1 (rest.drop 2))) = some []
  /-- a line read from its first byte has the comment that the text has there -/
  lines : ∀ rest, Trivia lexer behind rest → rest.head?.any isLineBreak = true →
    ∀ opening, lineComment lexer text rest = some opening ↔ CommentEnds lexer behind opening rest

theorem skipTrivia_reads (rest : Text) : Trivia lexer rest (skipTrivia lexer rest) := by
  fun_induction skipTrivia lexer rest with
  | case1 => exact .refl
  | case2 byte more space inductionHypothesis => exact inductionHypothesis.head (.space space)
  | case3 byte more space opens inductionHypothesis => exact inductionHypothesis.head (.line opens)
  | case4 byte more space line opens inductionHypothesis => exact inductionHypothesis.head (.block opens)
  | case5 byte more space line opens => exact .refl

theorem skipTrivia_head (rest : Text) : ∀ byte ∈ (skipTrivia lexer rest).head?, isSpace byte = false := by
  fun_induction skipTrivia lexer rest with
  | case1 =>
    intro byte isHead
    cases isHead
  | case2 byte more space inductionHypothesis => exact inductionHypothesis
  | case3 byte more space opens inductionHypothesis => exact inductionHypothesis
  | case4 byte more space line opens inductionHypothesis => exact inductionHypothesis
  | case5 byte more space line opens =>
    intro other isHead
    rw [← Option.some.inj isHead]
    exact Bool.eq_false_of_not_eq_true space

end reading

/-! ## Positions -/

theorem before_append (front rest : Text) : before (front ++ rest) rest = front.reverse := by
  rw [before, List.length_append, Nat.add_sub_cancel, List.take_left]

theorem before_self (text : Text) : before text text = [] := by
  rw [before, Nat.sub_self, List.take_zero, List.reverse_nil]

/-- Between two positions stand the bytes that were read. -/
theorem before_split {text rest after : Text} (outer : rest <:+ text) (inner : after <:+ rest) :
    before text after = before rest after ++ before text rest := by
  obtain ⟨read, rfl⟩ := inner
  obtain ⟨front, rfl⟩ := outer
  rw [before_append, before_append, ← List.append_assoc, before_append, List.reverse_append]

theorem before_cons {text rest : Text} {byte : UInt8} (suffix : byte :: rest <:+ text) :
    before text rest = byte :: before text (byte :: rest) := by
  rw [before_split suffix (List.suffix_cons byte rest)]
  exact congrArg (· ++ _) (before_append [byte] rest)

theorem before_length {text rest : Text} (suffix : rest <:+ text) :
    (before text rest).length + rest.length = text.length := by
  obtain ⟨front, rfl⟩ := suffix
  rw [before_append, List.length_reverse, List.length_append]

theorem drop_before {text rest : Text} (suffix : rest <:+ text) : text.drop (before text rest).length = rest := by
  obtain ⟨front, rfl⟩ := suffix
  rw [before_append, List.length_reverse, List.drop_left]

theorem before_drop {text rest after : Text} (outer : rest <:+ text) (inner : after <:+ rest) :
    (before text after).drop (rest.length - after.length) = before text rest := by
  have length := before_length inner
  rw [before_split outer inner, ← Nat.eq_sub_of_add_eq length, List.drop_left]

/-! ## Steps back -/

section steps

variable {lexer : Lexer}

theorem TriviaStep.suffix {rest after : Text} (step : TriviaStep lexer rest after) : after <:+ rest.drop 1 := by
  cases step with
  | space => exact List.suffix_refl _
  | line => exact untilLineBreak_suffix _
  | block => exact (skipBlockComment_suffix 1 _).trans (List.drop_suffix_drop_left _ (by decide))

theorem TriviaStep.shorter {rest after : Text} (step : TriviaStep lexer rest after) : after.length < rest.length := by
  have shorter := step.suffix.length_le
  have present : rest ≠ [] := by
    cases step with
    | space => nofun
    | line opens =>
      rintro rfl
      cases opens
    | block opens =>
      rintro rfl
      cases opens
  have := List.length_pos_iff.mpr present
  rw [List.length_drop] at shorter
  omega

theorem Trivia.suffix {rest after : Text} (trivia : Trivia lexer rest after) : after <:+ rest := by
  induction trivia with
  | refl => exact List.suffix_refl _
  | tail trivia step inductionHypothesis => exact (step.suffix.trans (List.drop_suffix 1 _)).trans inductionHypothesis

theorem skipTriviaBackward_eq (text earlier : Text) :
    skipTriviaBackward lexer text earlier =
      match skipBlockCommentBackward (earlier.dropWhile isBlank) with
      | some position => skipTriviaBackward lexer text position
      | none =>
        match earlier.dropWhile isBlank with
        | mark :: more =>
          if isLineBreak mark then skipTriviaBackward lexer text (skipLineComment lexer text (skipLineBreak mark more))
          else mark :: more
        | [] => [] := by
  rw [skipTriviaBackward]
  split
  next position found => rw [found]
  next found =>
    rw [found]
    dsimp only
    split
    next mark more ahead => rw [ahead]
    next ahead => rw [ahead]

theorem skipTriviaBackward_blank {byte : UInt8} (blank : isBlank byte = true) (text earlier : Text) :
    skipTriviaBackward lexer text (byte :: earlier) = skipTriviaBackward lexer text earlier := by
  rw [skipTriviaBackward_eq, List.dropWhile_cons_of_pos blank, ← skipTriviaBackward_eq]

theorem skipTriviaBackward_block {earlier position : Text} (found : skipBlockCommentBackward earlier = some position)
    (text : Text) :
    skipTriviaBackward lexer text earlier = skipTriviaBackward lexer text position := by
  have atOnce : earlier.dropWhile isBlank = earlier := by
    obtain ⟨rest, rfl, -⟩ := skipBlockCommentBackward_some found
    rfl
  rw [skipTriviaBackward_eq, atOnce, found]

theorem isLineBreak_cases {mark : UInt8} (lineBreak : isLineBreak mark = true) :
    mark = Byte.lineFeed ∨ mark = Byte.carriageReturn := by
  rwa [isLineBreak, Bool.or_eq_true, decide_eq_true_eq, decide_eq_true_eq] at lineBreak

theorem skipTriviaBackward_line {mark : UInt8} (lineBreak : isLineBreak mark = true) (text earlier : Text) :
    skipTriviaBackward lexer text (mark :: earlier) =
      skipTriviaBackward lexer text (skipLineComment lexer text (skipLineBreak mark earlier)) := by
  have notBlank : ¬isBlank mark = true := by rcases isLineBreak_cases lineBreak with rfl | rfl <;> nofun
  have notSlash : skipBlockCommentBackward (mark :: earlier) = none := by
    refine Option.eq_none_iff_forall_ne_some.mpr fun position found => ?_
    obtain ⟨rest, isEarlier, -⟩ := skipBlockCommentBackward_some found
    rw [(List.cons.inj isEarlier).1] at lineBreak
    cases lineBreak
  rw [skipTriviaBackward_eq, List.dropWhile_cons_of_neg notBlank, notSlash]
  dsimp only
  rw [if_pos lineBreak]

/-- White space is a blank or a line break. -/
theorem isSpace_eq (byte : UInt8) : isSpace byte = (isBlank byte || isLineBreak byte) := by
  grind [isSpace, isBlank, isLineBreak]

theorem skipTriviaBackward_stays {earlier : Text} (token : skipBlockCommentBackward earlier = none)
    (last : ∀ byte ∈ earlier.head?, isSpace byte = false) (text : Text) :
    skipTriviaBackward lexer text earlier = earlier := by
  cases earlier with
  | nil => rw [skipTriviaBackward_eq]; rfl
  | cons byte earlier =>
    have plain := last byte rfl
    rw [isSpace_eq, Bool.or_eq_false_iff] at plain
    rw [skipTriviaBackward_eq, List.dropWhile_cons_of_neg (ne_true_of_eq_false plain.1), token]
    dsimp only
    rw [if_neg (ne_true_of_eq_false plain.2)]

theorem openingBlockComment_append {depth : Nat} {earlier position : Text}
    (found : openingBlockComment depth earlier = some position)
    (front : Text) : openingBlockComment depth (earlier ++ front) = some (position ++ front) := by
  fun_induction openingBlockComment depth earlier with
  | case1 depth last second earlier closes inductionHypothesis =>
    rw [List.cons_append, List.cons_append, openingBlockComment, if_pos closes]
    exact inductionHypothesis found
  | case2 last second earlier closes opens =>
    rw [List.cons_append, List.cons_append, openingBlockComment, if_neg closes, if_pos opens, if_pos rfl,
      Option.some.inj found]
  | case3 depth last second earlier closes opens deeper inductionHypothesis =>
    rw [List.cons_append, List.cons_append, openingBlockComment, if_neg closes, if_pos opens, if_neg deeper]
    exact inductionHypothesis found
  | case4 depth last second earlier closes opens inductionHypothesis =>
    rw [List.cons_append, List.cons_append, openingBlockComment, if_neg closes, if_neg opens]
    exact inductionHypothesis found
  | case5 => cases found

theorem skipBlockCommentBackward_append {earlier position : Text} (found : skipBlockCommentBackward earlier = some position)
    (front : Text) : skipBlockCommentBackward (earlier ++ front) = some (position ++ front) := by
  obtain ⟨rest, rfl, opening⟩ := skipBlockCommentBackward_some found
  exact openingBlockComment_append opening front

/-! ## The white space and the comments behind a token -/

theorem opensLineComment_first {opening : Text} (opens : opensLineComment lexer opening = true) :
    ∃ first more, opening = first :: more ∧ (first = Byte.hash ∨ first = Byte.dash) := by
  cases opening with
  | nil => cases opens
  | cons first more =>
    rw [opensLineComment, Bool.or_eq_true, Bool.and_eq_true, Bool.and_eq_true, Bool.and_eq_true, decide_eq_true_eq,
      decide_eq_true_eq] at opens
    exact ⟨first, more, rfl, opens.imp And.left fun dashes => dashes.1.1⟩

/-- A line comment has a byte, and its bytes stay in the line. -/
theorem lineComment_bytes {opening : Text} (opens : opensLineComment lexer opening = true) :
    before opening (untilLineBreak (opening.drop 1)) ≠ [] ∧
      ∀ byte ∈ before opening (untilLineBreak (opening.drop 1)), isLineBreak byte = false := by
  obtain ⟨first, more, rfl, isFirst⟩ := opensLineComment_first opens
  have split : first :: more = (first :: more.takeWhile fun byte => !isLineBreak byte) ++ untilLineBreak more := by
    rw [List.cons_append, untilLineBreak, List.takeWhile_append_dropWhile]
  have isComment : before (first :: more) (untilLineBreak more) =
    (first :: more.takeWhile fun byte => !isLineBreak byte).reverse := by
    conv_lhs => rw [split]
    exact before_append _ _
  change before (first :: more) (untilLineBreak more) ≠ [] ∧ ∀ byte ∈ before (first :: more) (untilLineBreak more), _
  rw [isComment]
  refine ⟨by simp, fun byte listed => ?_⟩
  rcases List.mem_cons.mp (List.mem_reverse.mp listed) with rfl | inside
  · rcases isFirst with rfl | rfl <;> rfl
  · simpa using List.mem_takeWhile_imp inside

theorem blockComment_last {rest after : Text} (found : skipBlockCommentBackward (before rest after) = some []) :
    ∃ bytes, before rest after = Byte.slash :: bytes := by
  obtain ⟨bytes, isComment, -⟩ := skipBlockCommentBackward_some found
  exact ⟨_, isComment⟩

/-- Behind a line comment the line ends. -/
theorem CommentEnds.lineBreak {behind opening rest : Text} (ends : CommentEnds lexer behind opening rest) {byte : UInt8}
    (isHead : rest.head? = some byte) : isLineBreak byte = true := by
  have stopped := List.head?_dropWhile_not (fun byte => !isLineBreak byte) (opening.drop 1)
  rw [← untilLineBreak, ends.2.2, isHead] at stopped
  simpa using stopped

section gap

variable {text behind : Text} (inText : behind <:+ text) (last : ∀ byte ∈ (before text behind).head?, isSpace byte = false)
  (reads : ReadsBack lexer text behind)

include inText last reads

/-- A carriage return in front of a position of the trivia is white space. -/
theorem carriageReturn_trivia {rest : Text} (trivia : Trivia lexer behind rest)
    (isReturn : (before text rest).head? = some Byte.carriageReturn) : Trivia lexer behind (Byte.carriageReturn :: rest) := by
  rcases Relation.ReflTransGen.cases_tail trivia with rfl | ⟨earlier, upTo, step⟩
  · cases last _ isReturn
  have outer := (Trivia.suffix upTo).trans inText
  have split := before_split outer (step.suffix.trans (List.drop_suffix 1 _))
  cases step with
  | @space byte rest isSpace =>
    rw [before_cons outer] at isReturn
    rwa [← Option.some.inj isReturn]
  | line opens =>
    obtain ⟨present, inLine⟩ := lineComment_bytes opens
    rw [split, List.head?_append_of_ne_nil _ present] at isReturn
    cases inLine _ (List.mem_of_mem_head? isReturn)
  | block opens =>
    obtain ⟨bytes, isComment⟩ := blockComment_last (reads.blocks earlier upTo opens)
    rw [split, isComment] at isReturn
    cases isReturn

omit last in
/-- At the end of a line the reading goes on in front of the line's comment, or of the line break. -/
theorem skipLineComment_reads {lineEnd : Text} (trivia : Trivia lexer behind lineEnd)
    (atBreak : lineEnd.head?.any isLineBreak = true)
    (earlier : ∀ rest, Trivia lexer behind rest → lineEnd.length ≤ rest.length →
      (∀ opening, ¬CommentEnds lexer behind opening rest) → skipTriviaBackward lexer text (before text rest) = before
        text behind) :
    skipTriviaBackward lexer text (skipLineComment lexer text (before text lineEnd)) = before text behind := by
  have agrees := reads.lines lineEnd trivia atBreak
  unfold skipLineComment
  rw [drop_before (trivia.suffix.trans inText)]
  dsimp only
  cases found : lineComment lexer text lineEnd with
  | none =>
    refine earlier lineEnd trivia le_rfl fun opening ends => ?_
    rw [(agrees opening).mpr ends] at found
    cases found
  | some comment =>
    obtain ⟨upTo, opens, ends⟩ := (agrees comment).mp found
    have inner : lineEnd <:+ comment := ends ▸ (untilLineBreak_suffix _).trans (List.drop_suffix 1 _)
    dsimp only
    rw [before_drop (upTo.suffix.trans inText) inner]
    refine earlier comment upTo inner.length_le fun opening otherEnds => ?_
    obtain ⟨first, more, rfl, isFirst⟩ := opensLineComment_first opens
    rcases isFirst with rfl | rfl <;> cases otherEnds.lineBreak rfl

/-- The backward reading crosses the trivia of a token, up to the end of the token. -/
theorem skipTriviaBackward_reads {rest : Text} (trivia : Trivia lexer behind rest)
    (outside : ∀ opening, ¬CommentEnds lexer behind opening rest) :
    skipTriviaBackward lexer text (before text rest) = before text behind := by
  -- a later position stands closer to the end of the text
  induction size : text.length - rest.length using Nat.strong_induction_on generalizing rest with
  | _ size inductionHypothesis =>
    rcases Relation.ReflTransGen.cases_tail trivia with rfl | ⟨earlier, upTo, step⟩
    · exact skipTriviaBackward_stays reads.token last text
    have outer := (Trivia.suffix upTo).trans inText
    have shorter := step.shorter
    have within := outer.length_le
    have split := before_split outer (step.suffix.trans (List.drop_suffix 1 _))
    have onward : ∀ other, Trivia lexer behind other → earlier.length ≤ other.length →
        (∀ opening, ¬CommentEnds lexer behind opening other) →
        skipTriviaBackward lexer text (before text other) = before text behind := by
      intro other otherTrivia longer otherOutside
      have := (otherTrivia.suffix.trans inText).length_le
      exact inductionHypothesis _ (by omega) otherTrivia otherOutside rfl
    cases step with
    | @space byte rest space =>
      rw [before_cons outer]
      rw [isSpace_eq, Bool.or_eq_true] at space
      rcases space with blank | lineBreak
      · rw [skipTriviaBackward_blank blank]
        refine onward _ upTo le_rfl fun opening ends => ?_
        rcases isLineBreak_cases (ends.lineBreak rfl) with rfl | rfl <;> cases blank
      · rw [skipTriviaBackward_line lineBreak, skipLineBreak]
        split
        next both =>
          have crlf := carriageReturn_trivia inText last reads upTo both.2
          rw [before_cons (crlf.suffix.trans inText), List.drop_one, List.tail_cons]
          refine skipLineComment_reads inText reads crlf rfl fun other otherTrivia longer => ?_
          exact onward other otherTrivia ((Nat.le_succ _).trans longer)
        next => exact skipLineComment_reads inText reads upTo lineBreak onward
    | line opens => exact absurd ⟨upTo, opens, rfl⟩ (outside earlier)
    | block opens =>
      rw [split, skipTriviaBackward_block (skipBlockCommentBackward_append (reads.blocks earlier upTo opens) _),
        List.nil_append]
      refine onward earlier upTo le_rfl fun opening ends => ?_
      rw [opensBlockComment, Bool.and_eq_true, decide_eq_true_eq] at opens
      cases ends.lineBreak opens.1

end gap

/-! ## The token in front -/

theorem skipBlockComment_closed {depth : Nat} (inside : depth ≠ 0) (rest : Text) :
    Closed Byte.slash rest (skipBlockComment depth rest) := by
  fun_induction skipBlockComment depth rest with
  | case1 => exact absurd rfl inside
  | case2 depth => exact .inl rfl
  | case3 depth byte => exact .inl rfl
  | case4 depth first second rest opens inductionHypothesis =>
    exact (inductionHypothesis (by simp)).mono ((List.suffix_cons _ _).trans (List.suffix_cons _ _))
  | case5 depth first second rest opens closes inductionHypothesis =>
    cases depth with
    | zero => exact .inr ⟨[first], by rw [skipBlockComment, closes.2]; rfl⟩
    | succ depth => exact (inductionHypothesis (by simp)).mono ((List.suffix_cons _ _).trans (List.suffix_cons _ _))
  | case6 depth first second rest opens closes inductionHypothesis =>
    exact (inductionHypothesis (by simp)).mono (List.suffix_cons _ _)

/-- In front of a position that something closed stands the closing byte. -/
theorem Closed.last {closing : UInt8} {text after : Text} (closed : Closed closing text after) (present : after ≠ []) :
    (before text after).head? = some closing := by
  rcases closed with rfl | ⟨front, rfl⟩
  · exact absurd rfl present
  · rw [← List.singleton_append, ← List.append_assoc, before_append, List.reverse_append]
    rfl

theorem Behind.suffix {text behind : Text} (read : Behind lexer text behind) : behind <:+ text := by
  induction read with
  | beginning => exact List.suffix_refl _
  | token read code inductionHypothesis =>
    exact ((tokenEnd_suffix lexer code).trans (List.drop_suffix 1 _)).trans
      ((skipTrivia_suffix lexer _).trans inductionHypothesis)

theorem isClosing_cases {closing : UInt8} (closes : isClosing closing = true) :
    isSpace closing = false ∧ isAlpha closing = false := by
  grind [isClosing, isSpace, isAlpha]

theorem isIdentifierPart_space {byte : UInt8} (part : isIdentifierPart byte = true) : isSpace byte = false := by
  grind [isIdentifierPart, isIdentifierStart, isSpace, isAlpha, isDigit]

theorem isAlpha_identifierStart {byte : UInt8} (letter : isAlpha byte = true) : isIdentifierStart byte = true := by
  rw [isIdentifierStart, letter]
  rfl

theorem isIdentifierStart_part {byte : UInt8} (starts : isIdentifierStart byte = true) : isIdentifierPart byte = true := by
  rw [isIdentifierPart, starts]
  rfl

/-- The last byte of a token and what it says about the token. -/
theorem tokenEnd_last {text token : Text} (suffix : token <:+ text) (present : token ≠ [])
    (more : tokenEnd lexer token ≠ []) :
    (∃ closing, isClosing closing = true ∧ (before text (tokenEnd lexer token)).head? = some closing) ∨
      (∃ word, word ≠ [] ∧ token = word ++ tokenEnd lexer token ∧ (∀ byte ∈ word, isIdentifierPart byte = true) ∧
        (∀ byte ∈ token.head?, isIdentifierPart byte = true) ∧
        (∀ byte ∈ (tokenEnd lexer token).head?, isIdentifierPart byte = false) ∧
        before text (tokenEnd lexer token) = word.reverse ++ before text token) ∨
      ∃ byte, (before text (tokenEnd lexer token)).head? = some byte ∧ token.head? = some byte ∧ isAlpha byte = false := by
  rcases tokenEnd_cases lexer present with ⟨closing, closes, closed⟩ | ⟨byte, word, isToken, starts, parts, stops⟩ |
    ⟨byte, isToken, notStart⟩
  · exact .inl ⟨closing, closes, (closed.mono ((List.drop_suffix 1 _).trans suffix)).last more⟩
  · refine .inr (.inl ⟨byte :: word, by simp, isToken, ?_, ?_, stops, ?_⟩)
    · intro other listed
      rcases List.mem_cons.mp listed with rfl | listed
      · exact isIdentifierStart_part starts
      · exact parts other listed
    · intro other isHead
      rw [isToken] at isHead
      rw [← Option.some.inj isHead]
      exact isIdentifierStart_part starts
    · rw [before_split suffix ((tokenEnd_suffix lexer present).trans (List.drop_suffix 1 _))]
      have isWord := before_append (byte :: word) (tokenEnd lexer token)
      rw [← isToken] at isWord
      rw [isWord]
  · refine .inr (.inr ⟨byte, ?_, by rw [isToken]; rfl, ?_⟩)
    · rw [isToken] at suffix
      rw [before_cons suffix]
      rfl
    · rcases notStart with notStart | rfl
      · exact Bool.eq_false_iff.mpr fun letter => by rw [isAlpha_identifierStart letter] at notStart; cases notStart
      · rfl

/-- No token ends with white space. -/
theorem Behind.last {text behind : Text} (read : Behind lexer text behind) (more : behind ≠ []) :
    ∀ byte ∈ (before text behind).head?, isSpace byte = false := by
  cases read with
  | beginning =>
    rw [before_self]
    nofun
  | @token earlier read code =>
    intro byte isLast
    rcases tokenEnd_last ((skipTrivia_suffix lexer _).trans read.suffix) code more with
      ⟨closing, closes, closed⟩ | ⟨word, present, -, parts, -, -, isBefore⟩ | ⟨single, isSingle, isHead, -⟩
    · rw [Option.some.inj (isLast.symm.trans closed)]
      exact (isClosing_cases closes).1
    · rw [isBefore, List.head?_append_of_ne_nil _ (by simpa using present)] at isLast
      exact isIdentifierPart_space (parts byte (List.mem_reverse.mp (List.mem_of_mem_head? isLast)))
    · rw [Option.some.inj (isLast.symm.trans isSingle)]
      exact skipTrivia_head lexer _ single isHead

/-- No letter stands in front of a token that starts with a byte of a name. -/
theorem Behind.boundary {text earlier : Text} (read : Behind lexer text earlier) {first : UInt8} {more : Text}
    (isToken : skipTrivia lexer earlier = first :: more) (part : isIdentifierPart first = true) :
    ∀ byte ∈ (before text (first :: more)).head?, isAlpha byte = false := by
  intro byte isLast
  have trivia := skipTrivia_reads lexer earlier
  rw [isToken] at trivia
  rcases Relation.ReflTransGen.cases_tail trivia with isEarlier | ⟨middle, upTo, step⟩
  · cases read with
    | beginning =>
      rw [isEarlier, before_self] at isLast
      cases isLast
    | @token previous read code =>
      rw [isEarlier] at isLast
      have present : tokenEnd lexer (skipTrivia lexer previous) ≠ [] := by
        rw [← isEarlier]
        nofun
      rcases tokenEnd_last ((skipTrivia_suffix lexer _).trans read.suffix) code present with
        ⟨closing, closes, closed⟩ | ⟨word, -, -, -, -, stops, -⟩ | ⟨single, isSingle, -, notLetter⟩
      · rw [Option.some.inj (isLast.symm.trans closed)]
        exact (isClosing_cases closes).2
      · rw [stops first (by rw [← isEarlier]; rfl)] at part
        cases part
      · rwa [Option.some.inj (isLast.symm.trans isSingle)]
  · have outer := (Trivia.suffix upTo).trans read.suffix
    generalize isRest : first :: more = rest at step isLast
    cases step with
    | @space other rest space =>
      rw [before_cons outer] at isLast
      rw [← Option.some.inj isLast]
      grind [isSpace, isAlpha]
    | line opens =>
      have ends : CommentEnds lexer earlier middle (untilLineBreak (middle.drop 1)) := ⟨upTo, opens, rfl⟩
      have isHead : (untilLineBreak (middle.drop 1)).head? = some first := by
        rw [← isRest]
        rfl
      rcases isLineBreak_cases (ends.lineBreak isHead) with rfl | rfl <;> cases part
    | block opens =>
      have closed := (skipBlockComment_closed (by decide : 1 ≠ 0) (middle.drop 2)).mono ((List.drop_suffix 2 _).trans outer)
      rw [closed.last (by rw [← isRest]; nofun)] at isLast
      rw [← Option.some.inj isLast]
      rfl

theorem isLetter_alpha {letter byte : UInt8} (isLower : 97 ≤ letter ∧ letter ≤ 122) (same : isLetter letter byte = true) :
    isAlpha byte = true := by
  rw [isLetter, decide_eq_true_eq] at same
  subst same
  grind [isAlpha, toLower]

theorem endsWithAs_iff (bytes : Text) :
    endsWithAs bytes = true ↔ ∃ last first front, bytes = last :: first :: front ∧ isLetter 97 first = true ∧
      isLetter 115 last = true ∧ ∀ byte ∈ front.head?,
        isIdentifierPart byte = false ∧ byte ≠ Byte.colon ∧ byte ≠ Byte.at' ∧ byte ≠ Byte.dot := by
  constructor
  · intro ends
    unfold endsWithAs at ends
    split at ends
    next last first front =>
      refine ⟨last, first, front, rfl, ?_⟩
      rw [Bool.and_eq_true, Bool.and_eq_true] at ends
      refine ⟨ends.1.1, ends.1.2, fun byte isHead => ?_⟩
      have tested := ends.2
      rw [Option.mem_def.mp isHead] at tested
      simpa [and_assoc] using tested
    · cases ends
  · rintro ⟨last, first, front, rfl, isFirst, isLast, tested⟩
    rw [endsWithAs, isFirst, isLast]
    cases front with
    | nil => rfl
    | cons byte front => simpa [and_assoc] using tested byte rfl

/-- The bytes in front of the end of a token show whether it is the word `AS`. -/
theorem endsWithAs_before {text behind : Text} (read : Behind lexer text behind) (more : behind ≠ []) :
    endsWithAs (before text behind) = true ↔ FollowsAs lexer text behind := by
  rw [endsWithAs_iff]
  constructor
  · rintro ⟨last, first, front, isBefore, isFirst, isLast, tested⟩
    have firstAlpha := isLetter_alpha (by decide) isFirst
    have lastAlpha := isLetter_alpha (by decide) isLast
    cases read with
    | beginning =>
      rw [before_self] at isBefore
      cases isBefore
    | @token earlier read code =>
      rcases tokenEnd_last ((skipTrivia_suffix lexer _).trans read.suffix) code more with
        ⟨closing, closes, closed⟩ | ⟨word, present, isToken, parts, starts, -, isWord⟩ | ⟨single, isSingle, -, notLetter⟩
      · rw [isBefore, List.head?_cons] at closed
        rw [Option.some.inj closed, (isClosing_cases closes).2] at lastAlpha
        cases lastAlpha
      · rw [isWord] at isBefore
        have reversed : ∀ byte ∈ word.reverse, isIdentifierPart byte = true := fun byte listed =>
          parts byte (List.mem_reverse.mp listed)
        match isReverse : word.reverse with
        | [] => exact absurd (List.reverse_eq_nil_iff.mp isReverse) present
        | [only] =>
          -- a word of one byte has no letter in front of it
          rw [isReverse] at isBefore
          have inFront : before text (skipTrivia lexer earlier) = first :: front := (List.cons.inj isBefore).2
          cases isRest : skipTrivia lexer earlier with
          | nil => exact absurd isRest code
          | cons head tail =>
            have part := starts head (by rw [isRest]; rfl)
            have boundary := read.boundary isRest part first (by rw [← isRest, inFront]; rfl)
            rw [boundary] at firstAlpha
            cases firstAlpha
        | [lastByte, firstByte] =>
          rw [isReverse] at isBefore
          obtain ⟨rfl, rfl, isFront⟩ : lastByte = last ∧ firstByte = first ∧
            before text (skipTrivia lexer earlier) = front := by
            simpa using isBefore
          have isTwo : word = [firstByte, lastByte] := by
            rw [← List.reverse_reverse word, isReverse]
            rfl
          refine ⟨earlier, word, read, isToken, by rw [← isToken], ?_, ?_⟩
          · rw [isTwo, List.map_cons, List.map_singleton, of_decide_eq_true isFirst, of_decide_eq_true isLast]
            rfl
          · rw [← isToken, isFront]
            exact tested
        | lastByte :: firstByte :: other :: others =>
          -- a longer word goes on in front of the two letters
          rw [isReverse] at isBefore reversed
          obtain ⟨-, -, rfl⟩ : lastByte = last ∧ firstByte = first ∧
              other :: (others ++ before text (skipTrivia lexer earlier)) = front := by
            simpa using isBefore
          have part := reversed other (by simp)
          rw [(tested other rfl).1] at part
          cases part
      · rw [isBefore, List.head?_cons] at isSingle
        rw [Option.some.inj isSingle, notLetter] at lastAlpha
        cases lastAlpha
  · rintro ⟨earlier, word, read', isToken, -, isWord, tested⟩
    have suffix : word ++ behind <:+ text := isToken ▸ (skipTrivia_suffix lexer _).trans read'.suffix
    obtain ⟨first, tail, rfl, isFirst, isTail⟩ := List.map_eq_cons_iff.mp
      (isWord.trans (show ascii "as" = [97, 115] from rfl))
    obtain ⟨last, none, rfl, isLast, isNone⟩ := List.map_eq_cons_iff.mp isTail
    obtain rfl := List.map_eq_nil_iff.mp isNone
    refine ⟨last, first, before text ([first, last] ++ behind), ?_, decide_eq_true isFirst, decide_eq_true isLast, tested⟩
    rw [before_split suffix (List.suffix_append [first, last] behind), before_append]
    rfl

end steps

theorem skipTrivia_stays {lexer : Lexer} {byte : UInt8} {more : Text}
    (plain : (isSpace byte || opensLineComment lexer (byte :: more) || opensBlockComment (byte :: more)) = false) :
    skipTrivia lexer (byte :: more) = byte :: more := by
  rw [Bool.or_eq_false_iff, Bool.or_eq_false_iff] at plain
  rw [skipTrivia, if_neg (ne_true_of_eq_false plain.1.1), if_neg (ne_true_of_eq_false plain.1.2),
    if_neg (ne_true_of_eq_false plain.2)]

theorem skipTrivia_space {lexer : Lexer} {byte : UInt8} (space : isSpace byte = true) (more : Text) :
    skipTrivia lexer (byte :: more) = skipTrivia lexer more := by
  rw [skipTrivia, if_pos space]

/-- Where the comments behind a token are the same in both directions, the backward reading of the next token ends
there and finds `AS` as the forward reading does. -/
theorem readsBack_agrees (dialect : Dialect) {text behind : Text} (read : Behind (lexer dialect) text behind)
    (code : skipTrivia (lexer dialect) behind ≠ []) (reads : ReadsBack (lexer dialect) text behind) :
    skipTriviaBackward (lexer dialect) text (before text (skipTrivia (lexer dialect) behind)) = before text behind ∧
      (sourceAliasHasExplicitAs dialect text (text.length - (skipTrivia (lexer dialect) behind).length) = true ↔
        FollowsAs (lexer dialect) text behind) := by
  have more : behind ≠ [] := by
    rintro rfl
    exact code (by rw [skipTrivia])
  have back : skipTriviaBackward (lexer dialect) text (before text (skipTrivia (lexer dialect) behind)) = before text
    behind := by
    refine skipTriviaBackward_reads read.suffix (read.last more) reads (skipTrivia_reads _ _) fun opening ends => ?_
    cases isToken : skipTrivia (lexer dialect) behind with
    | nil => exact code isToken
    | cons first rest =>
      have plain := skipTrivia_head (lexer dialect) behind first (by rw [isToken]; rfl)
      rw [isSpace_eq, ends.lineBreak (by rw [isToken]; rfl), Bool.or_true] at plain
      cases plain
  refine ⟨back, ?_⟩
  rw [sourceAliasHasExplicitAs, Bool.and_eq_true, decide_eq_true_eq, sourcePrecedingTokenIsAs]
  rw [← before, back, endsWithAs_before read more]
  exact and_iff_right (Nat.sub_le _ _)

end SqlParser.Core.Source
