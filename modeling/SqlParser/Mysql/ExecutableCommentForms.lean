import SqlParser.Mysql.ExecutableCommentPasses

/-! # The statements that are executable comments

What the first pass takes for an executable comment is told here by the bytes alone: blanks and ordinary comments, then
the comment with its version and its body, then blanks and ordinary comments up to the end of the statement.
-/

namespace SqlParser.Mysql

open SqlParser.Core

variable {text inside lead trail front behind tail : Text} {byte : UInt8} {room : Nat}

/-! ## Closing marks -/

/-- The mark behind a text is the first one. -/
def ClosesFirst (inside : Text) : Prop :=
  ∀ front behind, inside ++ closer = front ++ closer ++ behind → behind = []

/-- No delimiter stands before the one that is found. -/
theorem behindDelimiter_first {delimiter found : Text} (closes : behindDelimiter delimiter text = some found)
    (stands : text = front ++ delimiter ++ behind) : behind.length ≤ found.length := by
  induction text generalizing front with
  | nil => cases closes
  | cons byte text inductionHypothesis =>
    rw [behindDelimiter] at closes
    split_ifs at closes with here
    · cases closes
      have length := congrArg List.length stands
      rw [List.length_append, List.length_append] at length
      rw [List.length_drop]
      omega
    · cases front with
      | nil =>
        refine absurd ?_ here
        rw [List.isPrefixOf_iff_prefix, stands, List.nil_append]
        exact List.prefix_append _ _
      | cons first front =>
        rw [List.cons_append, List.cons_append, List.cons.injEq] at stands
        exact inductionHypothesis closes stands.2

theorem closesFirst_of_found (closes : behindDelimiter closer text = some tail) :
    ∃ inside, text = inside ++ closer ++ tail ∧ ClosesFirst inside := by
  obtain ⟨inside, split⟩ := behindDelimiter_split closes
  refine ⟨inside, split, fun front behind earlier => ?_⟩
  have first := @behindDelimiter_first _ front (behind ++ tail) _ _ closes
    (by rw [split, earlier, List.append_assoc _ behind])
  rw [List.length_append] at first
  exact List.eq_nil_of_length_eq_zero (by omega)

theorem ClosesFirst.found (first : ClosesFirst inside) (tail : Text) :
    behindDelimiter closer (inside ++ closer ++ tail) = some tail := by
  obtain ⟨found, isFound⟩ := Option.ne_none_iff_exists'.mp
    (behindDelimiter_present inside closer tail (List.cons_ne_nil _ _))
  obtain ⟨front, split⟩ := behindDelimiter_split isFound
  have before := behindDelimiter_first isFound rfl
  -- The mark that is found is not behind the one that closes the text, so it is that one.
  have length := congrArg List.length split
  simp only [List.length_append] at length
  obtain ⟨more, isMore⟩ : ∃ more, inside ++ closer = front ++ closer ++ more := by
    have prefixes := List.prefix_append (front ++ closer) found
    rw [← split] at prefixes
    obtain ⟨more, same⟩ := List.prefix_of_prefix_length_le prefixes (List.prefix_append (inside ++ closer) tail)
      (by simp only [List.length_append]; omega)
    exact ⟨more, same.symm⟩
  obtain rfl := first front more isMore
  rw [List.append_nil] at isMore
  rw [isMore] at split
  rw [isFound, List.append_cancel_left split]

/-! ## Ordinary comments -/

/-- A comment that no `!` makes executable, with the line feed or the mark that ends it. -/
inductive OrdinaryComment : Text → Prop where
  | line {comment : Text} (opens : opensLine (comment ++ [Byte.lineFeed])) (oneLine : Byte.lineFeed ∉ comment) :
    OrdinaryComment (comment ++ [Byte.lineFeed])
  | block {inside : Text} (ordinary : byteAt inside 0 ≠ Byte.bang) (first : ClosesFirst inside) :
    OrdinaryComment (Byte.slash :: Byte.star :: (inside ++ closer))

/-- A comment that ends with the text. -/
inductive OpenComment : Text → Prop where
  | line {comment : Text} (opens : opensLine comment) (oneLine : Byte.lineFeed ∉ comment) : OpenComment comment
  | block {inside : Text} (ordinary : byteAt inside 0 ≠ Byte.bang) (unclosed : ¬ closer <:+: inside) :
    OpenComment (Byte.slash :: Byte.star :: inside)

/-- Blanks and ordinary comments. -/
inductive OrdinaryTrivia : Text → Prop where
  | nil : OrdinaryTrivia []
  | space {byte : UInt8} {rest : Text} (blank : isSpace byte) (trivia : OrdinaryTrivia rest) : OrdinaryTrivia (byte :: rest)
  | comment {comment rest : Text} (ordinary : OrdinaryComment comment) (trivia : OrdinaryTrivia rest) :
    OrdinaryTrivia (comment ++ rest)

/-- Blanks and ordinary comments before a text, of which the last may be open where nothing is behind. -/
inductive OrdinaryTail : Text → Text → Prop where
  | closed {trail behind : Text} (trivia : OrdinaryTrivia trail) : OrdinaryTail trail behind
  | last {trivia comment : Text} (isTrivia : OrdinaryTrivia trivia) (isOpen : OpenComment comment) :
    OrdinaryTail (trivia ++ comment) []

theorem OrdinaryTail.space (blank : isSpace byte) (rest : OrdinaryTail trail behind) : OrdinaryTail (byte :: trail) behind := by
  cases rest with
  | closed trivia => exact .closed (.space blank trivia)
  | last trivia isOpen => exact .last (.space blank trivia) isOpen

theorem OrdinaryTail.comment {comment : Text} (ordinary : OrdinaryComment comment) (rest : OrdinaryTail trail behind) :
    OrdinaryTail (comment ++ trail) behind := by
  cases rest with
  | closed trivia => exact .closed (.comment ordinary trivia)
  | last trivia isOpen =>
    rw [← List.append_assoc]
    exact .last (.comment ordinary trivia) isOpen

theorem OrdinaryTail.trivia (tail : OrdinaryTail trail behind) (present : behind ≠ []) : OrdinaryTrivia trail := by
  cases tail with
  | closed trivia => exact trivia
  | last trivia isOpen => exact absurd rfl present

/-! ## How they are read -/

theorem blockLength_closed (first : ClosesFirst inside) (behind : Text) :
    blockLength (Byte.slash :: Byte.star :: (inside ++ closer ++ behind)) = inside.length + 4 := by
  have found := first.found behind
  rw [closer] at found
  rw [blockLength, List.drop_succ_cons, List.drop_succ_cons, List.drop_zero, closer, found, Option.getD_some, offsetOf]
  simp only [List.length_cons, List.length_append, List.length_nil]
  omega

theorem skip_block (rest : Text) :
    skipQuotedOrCommentSpan (Byte.slash :: Byte.star :: rest) = blockLength (Byte.slash :: Byte.star :: rest) := by
  rw [skipQuotedOrCommentSpan, if_neg (by decide), if_neg (opensLine_slash _), if_pos (by simp [opensBlock, byteAt])]

theorem skip_line (opens : opensLine (byte :: text)) : skipQuotedOrCommentSpan (byte :: text) =
    if lineLength (byte :: text) < text.length + 1 then lineLength (byte :: text) + 1 else text.length + 1 := by
  rw [skipQuotedOrCommentSpan, if_neg (by rw [opensLine_quote opens]; exact Bool.false_ne_true), if_pos opens]

theorem lineLength_feed {comment : Text} (oneLine : Byte.lineFeed ∉ comment) (behind : Text) :
    lineLength (comment ++ Byte.lineFeed :: behind) = comment.length := by
  rw [lineLength, List.takeWhile_append_of_pos fun byte listed => by simpa using ne_of_mem_of_not_mem listed oneLine]
  simp

theorem OrdinaryComment.closed {comment : Text} (ordinary : OrdinaryComment comment) : ClosedComment comment := by
  cases ordinary with
  | @line comment opens oneLine =>
    refine @closedComment_line [0] _ (by simp) (opensLine_closed (by rwa [List.append_nil]) (by simp)) (by simp) ?_
    have opens' : opensLine (comment ++ [Byte.lineFeed] ++ [0]) :=
      @opensLine_closed _ [] _ (by rwa [List.append_nil]) (by simp)
    have length := lineLength_feed oneLine [0]
    rw [List.append_assoc] at opens' ⊢
    rw [List.cons_append, List.nil_append] at opens' ⊢
    cases comment with
    | nil => simp [opensLine, isDashCommentStart, byteAt, show Byte.lineFeed ≠ Byte.dash by decide,
        show Byte.lineFeed ≠ Byte.hash by decide] at opens
    | cons byte comment =>
      rw [List.cons_append] at opens' length ⊢
      rw [skip_line opens', length, if_pos (by simp)]
      simp
  | @block inside notBang first =>
    refine @closedComment_block [0] _ (List.cons_ne_nil _ _) (by simp [opensBlock, byteAt]) (by simp) ?_
    rw [List.cons_append, List.cons_append, skip_block, blockLength_closed first]
    simp [closer]

theorem opensTrivia_block (ordinary : byteAt inside 0 ≠ Byte.bang) (enough : 1 < room) :
    opensTrivia true room (Byte.slash :: Byte.star :: inside) := by
  have third : byteAt (Byte.slash :: Byte.star :: inside) 2 = byteAt inside 0 := rfl
  have first : byteAt (Byte.slash :: Byte.star :: inside) 0 = Byte.slash := rfl
  have second : byteAt (Byte.slash :: Byte.star :: inside) 1 = Byte.star := rfl
  simp [opensTrivia, third, first, second, ordinary, enough]

theorem byteAt_closed (ordinary : byteAt inside 0 ≠ Byte.bang) (behind : Text) :
    byteAt (inside ++ closer ++ behind) 0 ≠ Byte.bang := by
  cases inside with
  | nil => exact show Byte.star ≠ Byte.bang by decide
  | cons byte inside => exact ordinary

theorem OrdinaryComment.opens {comment : Text} (ordinary : OrdinaryComment comment) (behind : Text)
    (fits : comment.length ≤ room) : opensTrivia true room (comment ++ behind) := by
  cases ordinary with
  | line opens oneLine =>
    rw [opensTrivia, opensLine_closed (by rwa [List.append_nil]) (by simp), Bool.true_or]
  | block notBang first =>
    simp only [List.length_cons, List.length_append] at fits
    exact opensTrivia_block (byteAt_closed notBang behind) (by omega)

theorem OpenComment.opens {comment : Text} (isOpen : OpenComment comment) : opensTrivia true comment.length comment := by
  cases isOpen with
  | line opens oneLine => rw [opensTrivia, opens, Bool.true_or]
  | block notBang unclosed => exact opensTrivia_block notBang (by simp)

theorem OpenComment.present {comment : Text} (isOpen : OpenComment comment) : comment ≠ [] := by
  cases isOpen with
  | line opens oneLine =>
    rintro rfl
    exact absurd opens (by decide)
  | block notBang unclosed => exact List.cons_ne_nil _ _

theorem OpenComment.span {comment : Text} (isOpen : OpenComment comment) :
    skipQuotedOrCommentSpan comment = comment.length := by
  have present := isOpen.present
  cases isOpen with
  | line opens oneLine =>
    cases comment with
    | nil => exact absurd rfl present
    | cons byte comment =>
      have whole : lineLength (byte :: comment) = (byte :: comment).length := by
        rw [lineLength, List.takeWhile_eq_self_iff.mpr fun byte listed => by
          simpa using ne_of_mem_of_not_mem listed oneLine]
      rw [skip_line opens, whole, if_neg (by simp), List.length_cons]
  | @block inside notBang unclosed =>
    have missing : behindDelimiter closer inside = none := by
      by_contra found
      obtain ⟨tail, isTail⟩ := Option.ne_none_iff_exists'.mp found
      obtain ⟨front, split⟩ := behindDelimiter_split isTail
      exact unclosed ⟨front, tail, split.symm⟩
    rw [closer] at missing
    rw [skip_block, blockLength, List.drop_succ_cons, List.drop_succ_cons, List.drop_zero, missing, Option.getD_none, offsetOf,
      List.length_nil, Nat.sub_zero]

/-- A comment that begins a text is an ordinary one, or one that the end of the text leaves open. -/
theorem ordinary_of_opens (opens : opensTrivia true room text) :
    ∃ comment behind, text = comment ++ behind ∧ skipQuotedOrCommentSpan text = comment.length ∧
      (OrdinaryComment comment ∨ (behind = [] ∧ OpenComment comment)) := by
  by_cases line : opensLine text
  · by_cases ended : Byte.lineFeed ∈ text
    · obtain ⟨comment, behind, rfl, oneLine⟩ := List.eq_append_cons_of_mem ended
      have parts : comment ++ Byte.lineFeed :: behind = comment ++ [Byte.lineFeed] ++ behind := by simp
      rw [parts] at line ⊢
      have opensFirst := @opensLine_closed _ _ [] line (by simp)
      rw [List.append_nil] at opensFirst
      have ordinary := OrdinaryComment.line opensFirst oneLine
      exact ⟨_, behind, rfl, ordinary.closed.span behind, .inl ordinary⟩
    · have isOpen := OpenComment.line line ended
      exact ⟨text, [], (List.append_nil _).symm, isOpen.span, .inr ⟨rfl, isOpen⟩⟩
  · have block : byteAt text 0 = Byte.slash ∧ 1 < room ∧ byteAt text 1 = Byte.star ∧ byteAt text 2 ≠ Byte.bang := by
      simpa [opensTrivia, line, and_assoc] using opens
    obtain ⟨slash, -, star, notBang⟩ := block
    rcases text with _ | ⟨first, _ | ⟨second, rest⟩⟩
    · exact absurd slash (by decide)
    · exact absurd (show (0 : UInt8) = Byte.star from star) (by decide)
    · replace slash : first = Byte.slash := slash
      replace star : second = Byte.star := star
      subst slash star
      have notBang : byteAt rest 0 ≠ Byte.bang := notBang
      cases closes : behindDelimiter closer rest with
      | none =>
        have isOpen : OpenComment (Byte.slash :: Byte.star :: rest) := by
          refine .block notBang ?_
          rintro ⟨front, behind, stands⟩
          rw [← stands] at closes
          exact behindDelimiter_present front closer behind (List.cons_ne_nil _ _) closes
        exact ⟨_, [], (List.append_nil _).symm, isOpen.span, .inr ⟨rfl, isOpen⟩⟩
      | some tail =>
        obtain ⟨inside, rfl, closesFirst⟩ := closesFirst_of_found closes
        have ordinary : byteAt inside 0 ≠ Byte.bang := by
          cases inside with
          | nil => decide
          | cons byte inside => exact notBang
        exact ⟨_, tail, rfl, (OrdinaryComment.block ordinary closesFirst).closed.span tail, .inl (.block ordinary closesFirst)⟩

/-! ## Trivia -/

theorem OrdinaryTrivia.skipped (trivia : OrdinaryTrivia lead) (room : Nat) (behind : Text) :
    triviaLength true 0 (lead.length + room) (lead ++ behind) = lead.length + triviaLength true 0 room behind := by
  induction trivia with
  | nil => simp
  | @space byte rest blank trivia inductionHypothesis =>
    rw [List.length_cons, Nat.add_right_comm, List.cons_append, triviaLength, if_pos blank, inductionHypothesis]
    omega
  | @comment comment rest ordinary trivia inductionHypothesis =>
    rw [List.length_append, List.append_assoc, Nat.add_assoc,
      triviaLength_span ordinary.closed.present (ordinary.opens _ (by omega)) (ordinary.closed.span _), inductionHypothesis]
    omega

/-- A tail is passed to the end of the statement. -/
theorem OrdinaryTail.skipped (tail : OrdinaryTail trail behind) :
    triviaLength true 0 trail.length (trail ++ behind) = trail.length := by
  have ends (behind : Text) : triviaLength true 0 0 behind = 0 := Nat.le_zero.mp (triviaLength_le true 0 0 behind).1
  cases tail with
  | closed trivia => exact (trivia.skipped 0 behind).trans (by rw [ends, Nat.add_zero])
  | @last trivia comment isTrivia isOpen =>
    have span := isOpen.span
    rw [← List.append_nil comment] at span
    have passed := @triviaLength_span [] 0 true comment isOpen.present (by simpa using isOpen.opens) (by simpa using span)
    rw [List.append_nil, Nat.add_zero, ends] at passed
    rw [List.append_nil, List.length_append, isTrivia.skipped, passed, Nat.add_zero]

/-- What is passed of a statement are blanks and ordinary comments. -/
theorem ordinaryTail_of_length (ends : statementLength 0 text = room) :
    OrdinaryTail (text.take (triviaLength true 0 room text)) (text.drop (triviaLength true 0 room text)) := by
  induction room using Nat.strong_induction_on generalizing text with
  | _ room inductionHypothesis =>
    cases text with
    | nil => cases room <;> exact .closed .nil
    | cons byte rest =>
      cases room with
      | zero => exact .closed .nil
      | succ room =>
        rw [statementLength] at ends
        split_ifs at ends with separates
        rw [Nat.add_right_cancel_iff] at ends
        rw [triviaLength]
        split_ifs with space opens
        · rw [skip_space space] at ends
          rw [List.take_succ_cons, List.drop_succ_cons]
          exact (inductionHypothesis room (Nat.lt_succ_self _) ends).space space
        · rw [Bool.and_eq_true, decide_eq_true_eq] at opens
          obtain ⟨comment, behind, split, span, isComment⟩ := ordinary_of_opens opens.1
          have length := congrArg List.length split
          rw [List.length_append, List.length_cons] at length
          have cut : rest.drop (comment.length - 1) = behind := by
            have dropped := congrArg (List.drop comment.length) split
            rwa [List.drop_left, ← Nat.sub_add_cancel (span ▸ opens.2 : 0 < comment.length), List.drop_succ_cons] at dropped
          rw [span, statementLength_passed (by omega), cut] at ends
          rw [span, triviaLength_passed (by omega) (by omega), cut, split,
            show comment.length - 1 + triviaLength true 0 (room - (comment.length - 1)) behind + 1 =
              comment.length + triviaLength true 0 (room - (comment.length - 1)) behind by omega]
          rw [List.take_length_add_append, List.drop_length_add_append]
          have later := @inductionHypothesis (room - (comment.length - 1)) (by omega) behind (by omega)
          obtain ordinary | ⟨rfl, isOpen⟩ := isComment
          · exact later.comment ordinary
          · rw [List.take_nil, List.drop_nil, List.append_nil]
            exact .last .nil isOpen
        · exact .closed .nil

theorem OrdinaryTrivia.trivia (trivia : OrdinaryTrivia lead) : Trivia lead := by
  induction trivia with
  | nil => exact .nil
  | space blank _ inductionHypothesis => exact .space blank inductionHypothesis
  | comment ordinary _ inductionHypothesis => exact .comment ordinary.closed inductionHypothesis

/-! ## The comment of a statement -/

/-- A statement that is an executable comment between blanks and ordinary comments. The comment is closed by its own mark
alone, and its body has no semicolon outside of the strings and comments that end in it. -/
structure Consists (statement behind : Text) (place : StatementComment) (lead surface trail : Text) : Prop where
  text : statement = lead ++ surface ++ trail
  start : place.start = lead.length
  size : place.size = surface.length
  leading : OrdinaryTrivia lead
  trailing : OrdinaryTail trail behind
  cut : ∃ version leading body trailing, Cut surface place.body version leading body trailing
  first : ∀ front more, surface.drop 2 = front ++ closer ++ more → more = []
  code : hasSemicolon 0 place.body.length ((surface ++ trail ++ behind).drop place.body.offset) = false

/-- A comment with its marks is read to the first closing mark. -/
theorem skip_executable {surface : Text} (isSurface : surface = introducer ++ inside ++ closer) (tail : Text) :
    skipQuotedOrCommentSpan (surface ++ tail) = surface.length ↔
      ∀ front more, surface.drop 2 = front ++ closer ++ more → more = [] := by
  have isBlock : surface ++ tail = Byte.slash :: Byte.star :: (Byte.bang :: inside ++ closer ++ tail) := by
    rw [isSurface]
    rfl
  have isInside : surface.drop 2 = Byte.bang :: inside ++ closer := by
    rw [isSurface]
    rfl
  have length : surface.length = inside.length + 5 := by
    rw [isSurface]
    simp [introducer, closer]
  rw [isBlock, isInside]
  constructor
  · intro span front more stands
    obtain ⟨found, closes⟩ := Option.ne_none_iff_exists'.mp
      (behindDelimiter_present (Byte.bang :: inside) closer tail (List.cons_ne_nil _ _))
    have before := @behindDelimiter_first _ front (more ++ tail) _ _ closes (by rw [stands, List.append_assoc _ more])
    rw [closer] at closes
    rw [skip_block, blockLength, List.drop_succ_cons, List.drop_succ_cons, List.drop_zero, closer, closes, Option.getD_some,
      offsetOf, length] at span
    simp only [List.length_cons, List.length_append, List.length_nil] at span before
    exact List.eq_nil_of_length_eq_zero (by omega)
  · intro first
    rw [skip_block, blockLength_closed first, length, List.length_cons]

theorem statementLength_span {comment : Text} (present : comment ≠ []) (code : byteAt (comment ++ tail) 0 ≠ Byte.semicolon)
    (span : skipQuotedOrCommentSpan (comment ++ tail) = comment.length) :
    statementLength 0 (comment ++ tail) = comment.length + statementLength 0 tail := by
  cases comment with
  | nil => exact absurd rfl present
  | cons byte comment =>
    rw [List.cons_append] at span code ⊢
    rw [statementLength, if_neg (show byte ≠ Byte.semicolon from code), span, List.length_cons, Nat.add_sub_cancel,
      statementLength_passed (by rw [List.length_append]; omega), List.drop_left]
    omega

theorem triviaLength_executable {surface : Text} (isSurface : surface = introducer ++ inside ++ closer) (tail : Text) :
    triviaLength true 0 room (surface ++ tail) = 0 := by
  cases room with
  | zero => exact Nat.le_zero.mp (triviaLength_le true 0 0 _).1
  | succ room =>
    have opens : opensTrivia true (room + 1) (surface ++ tail) = false := by
      rw [isSurface, opensTrivia, Bool.or_eq_false_iff]
      exact ⟨eq_false_of_ne_true (opensLine_slash _), by simp [introducer, byteAt]⟩
    rw [isSurface] at opens ⊢
    rw [introducer, List.append_assoc, List.append_assoc, List.cons_append] at opens ⊢
    rw [triviaLength, if_neg (by decide), opens, Bool.false_and, if_neg Bool.false_ne_true]

/-- The statements that are taken for comments are the ones that consist of one. -/
theorem statementComment_eq_some_iff {statement behind : Text}
    (ends : statementLength 0 (statement ++ behind) = statement.length) {place : StatementComment} :
    statementComment statement.length (statement ++ behind) = some place ↔
      ∃ lead surface trail, Consists statement behind place lead surface trail := by
  constructor
  · intro found
    unfold statementComment skipOrdinaryTrivia at found
    dsimp only at found
    split_ifs at found with isComment
    obtain ⟨present, fits, isTrail⟩ := isComment
    have isLead := ordinaryTail_of_length ends
    generalize triviaLength true 0 statement.length (statement ++ behind) = start at *
    generalize isSpan : skipQuotedOrCommentSpan ((statement ++ behind).drop start) = span at *
    obtain ⟨body, isBody, rfl⟩ := Option.map_eq_some_iff.mp found
    -- The statement is cut where its trivia end and where its comment ends.
    have leadLength : (statement.take start).length = start := List.length_take_of_le (by omega)
    obtain ⟨surface, trail, isRest, surfaceLength⟩ : ∃ surface trail, statement.drop start = surface ++ trail ∧
        surface.length = span :=
      ⟨(statement.drop start).take span, (statement.drop start).drop span, (List.take_append_drop _ _).symm,
        List.length_take_of_le (by rw [List.length_drop]; omega)⟩
    have isText : statement = statement.take start ++ surface ++ trail := by
      rw [List.append_assoc, ← isRest, List.take_append_drop]
    have rest : (statement ++ behind).drop start = surface ++ (trail ++ behind) := by
      rw [List.drop_append_of_le_length (by omega), isRest, List.append_assoc]
    have behindComment : (statement ++ behind).drop (start + span) = trail ++ behind := by
      rw [← List.drop_drop, rest, ← surfaceLength, List.drop_left]
    rw [rest, ← surfaceLength] at isBody isSpan
    rw [behindComment] at isTrail
    obtain ⟨⟨version, blanks, inside, more, cut⟩, code⟩ := executableCommentBody_eq_some_iff.mp isBody
    have leading : OrdinaryTrivia (statement.take start) := by
      rw [List.take_append_of_le_length (by omega)] at isLead
      refine isLead.trivia ?_
      rw [rest, cut.surface]
      exact List.cons_ne_nil _ _
    have trailLength : statement.length - (start + span) = trail.length := by
      have length := congrArg List.length isText
      rw [List.length_append, List.length_append] at length
      omega
    have trailing : OrdinaryTail trail behind := by
      have front : statementLength 0 (statement ++ behind) =
          start + (span + statementLength 0 (trail ++ behind)) := by
        rw [isText, List.append_assoc, List.append_assoc, leading.trivia.statementLength, leadLength, ← surfaceLength,
          statementLength_span (by rintro rfl; simp at surfaceLength; omega) ?_ isSpan]
        rw [cut.surface]
        exact show Byte.slash ≠ Byte.semicolon by decide
      have own := @ordinaryTail_of_length (trail ++ behind) trail.length (by omega)
      rw [← trailLength, isTrail, trailLength, List.take_left, List.drop_left] at own
      exact own
    refine ⟨statement.take start, surface, trail, isText, leadLength.symm, surfaceLength.symm, leading, trailing,
      ⟨version, blanks, inside, more, cut⟩, (skip_executable cut.surface _).mp isSpan, ?_⟩
    rwa [List.append_assoc]
  · rintro ⟨lead, surface, trail, isText, isStart, isSize, leading, trailing, ⟨version, blanks, inside, more, cut⟩, first, code⟩
    obtain ⟨start, size, body⟩ := place
    dsimp only at isStart isSize code cut
    subst isText isStart isSize
    have isSurface := cut.surface
    have span := (skip_executable isSurface (trail ++ behind)).mpr first
    rw [List.append_assoc] at code
    have found := executableCommentBody_eq_some_iff.mpr ⟨⟨version, blanks, inside, more, cut⟩, code⟩
    have isRest : lead ++ surface ++ trail ++ behind = lead ++ (surface ++ (trail ++ behind)) := by
      simp only [List.append_assoc]
    have length : (lead ++ surface ++ trail).length = lead.length + (surface.length + trail.length) := by
      simp only [List.length_append, Nat.add_assoc]
    have skipped : skipOrdinaryTrivia (lead ++ surface ++ trail).length (lead ++ surface ++ trail ++ behind) = lead.length := by
      rw [skipOrdinaryTrivia, length, isRest, leading.skipped, triviaLength_executable isSurface, Nat.add_zero]
    have behindComment : (lead ++ (surface ++ (trail ++ behind))).drop (lead.length + surface.length) = trail ++ behind := by
      rw [← List.drop_drop, List.drop_left, List.drop_left]
    have passed := trailing.skipped
    have present : 0 < surface.length := by
      rw [isSurface]
      simp [introducer]
    rw [statementComment, skipped]
    rw [isRest, List.drop_left, span, behindComment, found, length,
      show lead.length + (surface.length + trail.length) - (lead.length + surface.length) = trail.length by omega]
    exact if_pos ⟨present, by omega, passed⟩

/-! ## The statements of a text -/

/-- A statement is read to its end with what is behind it. -/
theorem statementsFrom_ends (turns : Nat) (text : Text) : ∀ part ∈ statementsFrom turns text,
    statementLength 0 (part.statement ++ part.behind) = part.statement.length := by
  induction turns generalizing text with
  | zero => exact fun part listed => absurd listed List.not_mem_nil
  | succ turns inductionHypothesis =>
    intro part listed
    rw [statementsFrom] at listed
    split_ifs at listed with empty
    · cases listed
    · obtain rfl | later := List.mem_cons.mp listed
      · dsimp only
        rw [List.take_append_drop, List.length_take_of_le (statementLength_le 0 text)]
      · exact inductionHypothesis _ part later

theorem Part.recorded_iff {part : Part}
    (ends : statementLength 0 (part.statement ++ part.behind) = part.statement.length) (index : Nat)
    (comment : ExecutableComment) :
    part.recorded index = some comment ↔ ∃ place lead surface trail,
      Consists part.statement part.behind place lead surface trail ∧
        comment = ⟨index, surface, place.body.offset, place.body.length⟩ := by
  have record {place : StatementComment} {lead surface trail : Text}
      (consists : Consists part.statement part.behind place lead surface trail) :
      place.record part.statement index = ⟨index, surface, place.body.offset, place.body.length⟩ := by
    have cut : slice part.statement lead.length (lead.length + surface.length) = surface := by
      rw [slice, List.drop_take, consists.text, List.append_assoc, List.drop_left, Nat.add_sub_cancel_left, List.take_left]
    rw [StatementComment.record, consists.start, consists.size, cut]
  rw [Part.recorded, Option.map_eq_some_iff]
  constructor
  · rintro ⟨place, found, rfl⟩
    obtain ⟨lead, surface, trail, consists⟩ := (statementComment_eq_some_iff ends).mp found
    exact ⟨place, lead, surface, trail, consists, record consists⟩
  · rintro ⟨place, lead, surface, trail, consists, rfl⟩
    exact ⟨place, (statementComment_eq_some_iff ends).mpr ⟨lead, surface, trail, consists⟩, record consists⟩

-- A semicolon between the marks separates nothing, but keeps the comment from being recorded.
example : (statements (ascii "/*! a;b */")).map (fun part => part.recorded 0) = [none] := by decide +kernel

end SqlParser.Mysql
