import SqlParser.Mysql.ExecutableComments

/-! # Statements that are read alike in two texts

The passes put another text behind a statement than the one it was read with. Where a statement ends at a semicolon,
what is behind the semicolon has no part in how it is read.
-/

namespace SqlParser.Mysql

open SqlParser.Core

variable {statement front behind other : Text} {byte quote : UInt8} {room passed : Nat} {ordinary : Bool}

/-! ## Bounds -/

theorem statementLength_le (passed : Nat) (text : Text) : statementLength passed text ≤ text.length := by
  induction text generalizing passed with
  | nil => simp [statementLength]
  | cons byte rest inductionHypothesis =>
    cases passed with
    | zero =>
      rw [statementLength, List.length_cons]
      split
      · exact Nat.zero_le _
      · have := inductionHypothesis (skipQuotedOrCommentSpan (byte :: rest) - 1)
        omega
    | succ passed =>
      rw [statementLength, List.length_cons]
      have := inductionHypothesis passed
      omega

/-- A statement ends at a semicolon or with the text. -/
theorem drop_statementLength (passed : Nat) (text : Text) :
    text.drop (statementLength passed text) = [] ∨
      ∃ more, text.drop (statementLength passed text) = Byte.semicolon :: more := by
  induction text generalizing passed with
  | nil => exact .inl rfl
  | cons byte rest inductionHypothesis =>
    cases passed with
    | zero =>
      rw [statementLength]
      split_ifs with separates
      · exact .inr ⟨rest, by rw [separates]; rfl⟩
      · exact inductionHypothesis _
    | succ passed => exact inductionHypothesis passed

/-- A span that is to be passed is inside the statement, or reaches the end of the text. -/
theorem passed_le_statementLength (passed : Nat) (text : Text) (inside : statementLength passed text < text.length) :
    passed ≤ statementLength passed text := by
  induction text generalizing passed with
  | nil => cases inside
  | cons byte rest inductionHypothesis =>
    cases passed with
    | zero => exact Nat.zero_le _
    | succ passed =>
      rw [statementLength, List.length_cons] at inside
      rw [statementLength]
      have := inductionHypothesis passed (by omega)
      omega

theorem triviaLength_le (ordinary : Bool) (passed room : Nat) (text : Text) :
    triviaLength ordinary passed room text ≤ room ∧ triviaLength ordinary passed room text ≤ text.length := by
  induction text generalizing passed room with
  | nil => cases passed <;> cases room <;> simp [triviaLength]
  | cons byte rest inductionHypothesis =>
    cases room with
    | zero => cases passed <;> simp [triviaLength]
    | succ room =>
      have later (passed : Nat) := inductionHypothesis passed room
      cases passed with
      | zero =>
        rw [triviaLength, List.length_cons]
        split_ifs
        · have := later 0
          omega
        · have := later (skipQuotedOrCommentSpan (byte :: rest) - 1)
          omega
        · omega
      | succ passed =>
        rw [triviaLength, List.length_cons]
        have := later passed
        omega

/-- Where the trivia end before the room is used up, a byte that is no space stands. -/
theorem triviaLength_stops {text : Text} (inside : triviaLength ordinary passed room text < room)
    (present : triviaLength ordinary passed room text < text.length) :
    isSpace (byteAt text (triviaLength ordinary passed room text)) = false := by
  induction text generalizing passed room with
  | nil => cases present
  | cons byte rest inductionHypothesis =>
    cases room with
    | zero => cases inside
    | succ room =>
      rw [List.length_cons] at present
      cases passed with
      | zero =>
        rw [triviaLength] at inside present ⊢
        split_ifs at inside present ⊢ with space opens
        · exact inductionHypothesis (by omega) (by omega)
        · exact inductionHypothesis (by omega) (by omega)
        · exact eq_false_of_ne_true space
      | succ passed =>
        rw [triviaLength] at inside present ⊢
        exact inductionHypothesis (by omega) (by omega)

/-! ## Spans before a semicolon -/

theorem quotedLength_local (isQuote : quote ≠ Byte.semicolon)
    (inside : quotedLength quote (front ++ Byte.semicolon :: behind) < front.length) :
    quotedLength quote (front ++ Byte.semicolon :: other) = quotedLength quote (front ++ Byte.semicolon :: behind) := by
  induction size : front.length using Nat.strong_induction_on generalizing front with
  | _ size inductionHypothesis =>
    subst size
    match front with
    | [] => cases inside
    | [byte] =>
      simp only [List.cons_append, List.nil_append, quotedLength, List.length_singleton] at inside ⊢
      split_ifs at inside ⊢ with closes doubled
      · exact absurd doubled.symm isQuote
      · rfl
      · omega
    | byte :: next :: front =>
      simp only [List.cons_append, quotedLength, List.length_cons] at inside ⊢
      split_ifs at inside ⊢ with closes doubled
      · rw [inductionHypothesis front.length (by simp only [List.length_cons]; omega) (by omega) rfl]
      · rfl
      · have later := @inductionHypothesis (front.length + 1) (by simp only [List.length_cons]; omega) (next :: front)
          (by simp only [List.cons_append, List.length_cons]; omega) rfl
        simp only [List.cons_append] at later
        rw [later]

theorem lineLength_append (line : Byte.lineFeed ∈ front) : lineLength (front ++ behind) = lineLength front := by
  induction front with
  | nil => cases line
  | cons byte front inductionHypothesis =>
    unfold lineLength at inductionHypothesis ⊢
    rw [List.cons_append, List.takeWhile_cons, List.takeWhile_cons]
    split_ifs with within
    · have later : Byte.lineFeed ∈ front := by
        cases line with
        | head => simp at within
        | tail _ line => exact line
      rw [List.length_cons, List.length_cons, inductionHypothesis later]
    · rfl

theorem lineLength_le (text : Text) : lineLength text ≤ text.length :=
  (List.takeWhile_sublist _).length_le

/-- A line that ends inside the front has its line feed there. -/
theorem lineFeed_of_lineLength (inside : lineLength (front ++ behind) < front.length) : Byte.lineFeed ∈ front := by
  by_contra missing
  rw [lineLength, List.takeWhile_append_of_pos fun byte listed => by
    simpa using ne_of_mem_of_not_mem listed missing, List.length_append] at inside
  omega

/-- A delimiter of two bytes that is found in the front is found there whatever stands behind. -/
theorem behindDelimiter_local {first second : UInt8} {found : Text}
    (closes : behindDelimiter [first, second] (front ++ behind) = some found) (before : behind.length ≤ found.length) :
    ∃ rest, found = rest ++ behind ∧ behindDelimiter [first, second] (front ++ other) = some (rest ++ other) := by
  induction front with
  | nil =>
    have := behindDelimiter_shorter (List.cons_ne_nil _ _) closes
    rw [List.nil_append] at this
    omega
  | cons byte front inductionHypothesis =>
    rw [List.cons_append, behindDelimiter] at closes
    rw [List.cons_append, behindDelimiter]
    cases front with
    | nil =>
      obtain ⟨passed, parts⟩ := @behindDelimiter_split [first, second] (byte :: behind) _
        (by rw [behindDelimiter]; exact closes)
      have lengths := congrArg List.length parts
      simp only [List.length_append, List.length_cons, List.length_nil] at lengths
      omega
    | cons next front =>
      split_ifs at closes with here
      · cases closes
        refine ⟨front, rfl, ?_⟩
        rw [if_pos (by simpa [List.isPrefixOf] using here)]
        rfl
      · rw [if_neg (by simpa [List.isPrefixOf] using here)]
        exact inductionHypothesis closes

/-- The bytes that tell how a comment opens are before the semicolon, or are not those of a comment. -/
theorem opensLine_local (present : front ≠ []) :
    opensLine (front ++ Byte.semicolon :: other) = opensLine (front ++ Byte.semicolon :: behind) := by
  match front, present with
  | [byte], _ => simp [opensLine, isDashCommentStart, byteAt, show Byte.semicolon ≠ Byte.dash by decide]
  | [byte, next], _ => simp [opensLine, isDashCommentStart, byteAt]
  | byte :: next :: third :: front, _ => simp [opensLine, isDashCommentStart, byteAt]

theorem opensBlock_local (present : front ≠ []) :
    opensBlock (front ++ Byte.semicolon :: other) = opensBlock (front ++ Byte.semicolon :: behind) := by
  match front, present with
  | [byte], _ => simp [opensBlock, byteAt]
  | byte :: next :: front, _ => simp [opensBlock, byteAt]

theorem opensTrivia_local (present : front ≠ []) :
    opensTrivia ordinary room (front ++ Byte.semicolon :: other) =
      opensTrivia ordinary room (front ++ Byte.semicolon :: behind) := by
  unfold opensTrivia
  rw [@opensLine_local _ behind other present]
  match front, present with
  | [byte], _ => simp [byteAt, show Byte.semicolon ≠ Byte.star by decide]
  | [byte, next], _ => simp [byteAt]
  | byte :: next :: third :: front, _ => simp [byteAt]

/-- A block comment that ends inside the front ends there whatever stands behind. -/
theorem blockLength_local (opens : opensBlock (byte :: front ++ behind)) (present : behind ≠ [])
    (inside : blockLength (byte :: front ++ behind) ≤ front.length + 1) (two : front ≠ []) :
    blockLength (byte :: front ++ other) = blockLength (byte :: front ++ behind) := by
  cases front with
  | nil => exact absurd rfl two
  | cons next front =>
    have some_behind := List.length_pos_iff.mpr present
    simp only [blockLength, List.cons_append, List.drop_succ_cons, List.drop_zero] at inside ⊢
    cases closes : behindDelimiter [Byte.star, Byte.slash] (front ++ behind) with
    | none =>
      rw [closes, Option.getD_none, offsetOf] at inside
      simp only [List.length_cons, List.length_append, List.length_nil] at inside
      omega
    | some found =>
      rw [closes] at inside
      simp only [Option.getD_some, offsetOf, List.length_cons, List.length_append] at inside
      obtain ⟨rest, isFound, again⟩ := @behindDelimiter_local front behind other _ _ _ closes (by
        have := (behindDelimiter_suffix closes).length_le
        rw [List.length_append] at this
        omega)
      rw [again, isFound]
      simp [offsetOf]
      omega

theorem skip_local (inside : skipQuotedOrCommentSpan (byte :: front ++ Byte.semicolon :: behind) ≤ front.length + 1) :
    skipQuotedOrCommentSpan (byte :: front ++ Byte.semicolon :: other) =
      skipQuotedOrCommentSpan (byte :: front ++ Byte.semicolon :: behind) := by
  have line := @opensLine_local (byte :: front) behind other (List.cons_ne_nil _ _)
  have block := @opensBlock_local (byte :: front) behind other (List.cons_ne_nil _ _)
  simp only [List.cons_append, skipQuotedOrCommentSpan, List.length_append, List.length_cons] at inside line block ⊢
  rw [line, block]
  by_cases isQuoted : isQuote byte
  · rw [if_pos isQuoted] at inside
    rw [if_pos isQuoted, if_pos isQuoted]
    split_ifs at inside with closed
    · have same := @quotedLength_local front behind other byte (by rintro rfl; exact absurd isQuoted (by decide)) (by omega)
      rw [same, if_pos closed, if_pos (by omega)]
    · omega
  · rw [if_neg isQuoted] at inside
    rw [if_neg isQuoted, if_neg isQuoted]
    by_cases isLine : opensLine (byte :: (front ++ Byte.semicolon :: behind))
    · rw [if_pos isLine] at inside
      rw [if_pos isLine, if_pos isLine]
      split_ifs at inside with ended
      · have line := @lineFeed_of_lineLength (byte :: front) (Byte.semicolon :: behind)
          (by rw [List.cons_append, List.length_cons]; omega)
        have same (behind : Text) := @lineLength_append (byte :: front) behind line
        simp only [List.cons_append] at same
        rw [same] at ended ⊢
        rw [same, if_pos ended, if_pos (by have := lineLength_le (byte :: front); simp at this; omega)]
      · omega
    · rw [if_neg isLine] at inside
      rw [if_neg isLine, if_neg isLine]
      by_cases isBlock : opensBlock (byte :: (front ++ Byte.semicolon :: behind))
      · rw [if_pos isBlock] at inside
        rw [if_pos isBlock, if_pos isBlock]
        refine blockLength_local isBlock (List.cons_ne_nil _ _) inside ?_
        rintro rfl
        simp [opensBlock, byteAt, show Byte.semicolon ≠ Byte.star by decide] at isBlock
      · rw [if_neg isBlock, if_neg isBlock]

/-! ## Statements before a semicolon -/

theorem space_classes : ∀ byte : UInt8, isSpace byte →
    isQuote byte = false ∧ byte ≠ Byte.dash ∧ byte ≠ Byte.hash ∧ byte ≠ Byte.slash ∧ byte ≠ Byte.semicolon := by
  decide +kernel

theorem skip_space (space : isSpace byte) : skipQuotedOrCommentSpan (byte :: behind) = 0 := by
  obtain ⟨quote, dash, hash, slash, -⟩ := space_classes byte space
  simp [skipQuotedOrCommentSpan, opensLine, isDashCommentStart, opensBlock, byteAt, quote, dash, hash, slash]

/-- A statement that ends at a semicolon ends there whatever stands behind the semicolon. -/
theorem statementLength_local (ends : statementLength passed (statement ++ Byte.semicolon :: behind) = statement.length) :
    statementLength passed (statement ++ Byte.semicolon :: other) = statement.length := by
  induction statement generalizing passed with
  | nil =>
    cases passed with
    | zero => rfl
    | succ passed => cases ends
  | cons byte statement inductionHypothesis =>
    cases passed with
    | zero =>
      rw [List.cons_append, statementLength] at ends
      rw [List.cons_append, statementLength]
      split_ifs at ends ⊢ with separates
      rw [List.length_cons, Nat.add_right_cancel_iff] at ends
      have inside := passed_le_statementLength _ _ (by rw [ends, List.length_append, List.length_cons]; omega)
      rw [ends] at inside
      have span : skipQuotedOrCommentSpan (byte :: (statement ++ Byte.semicolon :: other)) =
          skipQuotedOrCommentSpan (byte :: (statement ++ Byte.semicolon :: behind)) :=
        skip_local (by rw [List.cons_append]; omega)
      rw [span, inductionHypothesis ends, List.length_cons]
    | succ passed =>
      rw [List.cons_append, statementLength, List.length_cons, Nat.add_right_cancel_iff] at ends
      rw [List.cons_append, statementLength, inductionHypothesis ends, List.length_cons]

/-- Where a statement ends at a semicolon, its trivia are read alike whatever stands behind the semicolon. -/
theorem triviaLength_local
    (ends : statementLength passed (statement ++ Byte.semicolon :: behind) = statement.length) :
    triviaLength ordinary passed statement.length (statement ++ Byte.semicolon :: other) =
      triviaLength ordinary passed statement.length (statement ++ Byte.semicolon :: behind) := by
  induction statement generalizing passed with
  | nil => cases passed <;> rfl
  | cons byte statement inductionHypothesis =>
    rw [List.length_cons]
    cases passed with
    | zero =>
      rw [List.cons_append, statementLength] at ends
      rw [List.cons_append, List.cons_append, triviaLength, triviaLength]
      split_ifs at ends with separates
      rw [List.length_cons, Nat.add_right_cancel_iff] at ends
      have inside := passed_le_statementLength _ _ (by rw [ends, List.length_append, List.length_cons]; omega)
      rw [ends] at inside
      have span : skipQuotedOrCommentSpan (byte :: (statement ++ Byte.semicolon :: other)) =
          skipQuotedOrCommentSpan (byte :: (statement ++ Byte.semicolon :: behind)) :=
        skip_local (by rw [List.cons_append]; omega)
      have opens := @opensTrivia_local (byte :: statement) behind other (statement.length + 1) ordinary
        (List.cons_ne_nil _ _)
      simp only [List.cons_append] at opens
      rw [span, opens]
      split_ifs with space opened
      · rw [skip_space space] at ends
        rw [inductionHypothesis ends]
      · rw [inductionHypothesis ends]
      · rfl
    | succ passed =>
      rw [List.cons_append, statementLength, List.length_cons, Nat.add_right_cancel_iff] at ends
      rw [List.cons_append, List.cons_append, triviaLength, triviaLength, inductionHypothesis ends]

/-! ## What is to be passed -/

theorem statementLength_passed {text : Text} (inText : passed ≤ text.length) :
    statementLength passed text = passed + statementLength 0 (text.drop passed) := by
  induction text generalizing passed with
  | nil =>
    obtain rfl := Nat.le_zero.mp inText
    rfl
  | cons byte rest inductionHypothesis =>
    cases passed with
    | zero => rw [Nat.zero_add, List.drop_zero]
    | succ passed =>
      rw [List.length_cons] at inText
      rw [statementLength, inductionHypothesis (by omega), List.drop_succ_cons]
      omega

theorem triviaLength_passed {text : Text} (inRoom : passed ≤ room) (inText : passed ≤ text.length) :
    triviaLength ordinary passed room text = passed + triviaLength ordinary 0 (room - passed) (text.drop passed) := by
  induction text generalizing passed room with
  | nil =>
    obtain rfl := Nat.le_zero.mp inText
    rw [Nat.zero_add, Nat.sub_zero, List.drop_zero]
  | cons byte rest inductionHypothesis =>
    cases passed with
    | zero => rw [Nat.zero_add, Nat.sub_zero, List.drop_zero]
    | succ passed =>
      rw [List.length_cons] at inText
      cases room with
      | zero => omega
      | succ room =>
        rw [triviaLength, inductionHypothesis (by omega) (by omega), List.drop_succ_cons, Nat.add_sub_add_right]
        omega

/-- A comment that is to be passed is inside the trivia, or reaches their end. -/
theorem passed_le_triviaLength {text : Text} (inside : triviaLength ordinary passed room text < room)
    (present : triviaLength ordinary passed room text < text.length) :
    passed ≤ triviaLength ordinary passed room text := by
  induction text generalizing passed room with
  | nil => cases present
  | cons byte rest inductionHypothesis =>
    cases room with
    | zero => cases inside
    | succ room =>
      cases passed with
      | zero => exact Nat.zero_le _
      | succ passed =>
        rw [triviaLength, List.length_cons] at present
        rw [triviaLength] at inside ⊢
        have := @inductionHypothesis room passed (by omega) (by omega)
        omega

/-! ## Trivia -/

/-- A comment that is read alike whatever stands behind it. -/
structure ClosedComment (comment : Text) : Prop where
  present : comment ≠ []
  span : ∀ behind, skipQuotedOrCommentSpan (comment ++ behind) = comment.length
  opens : ∀ behind room, comment.length ≤ room → opensTrivia false room (comment ++ behind)

/-- Blanks and closed comments. -/
inductive Trivia : Text → Prop where
  | nil : Trivia []
  | space {byte : UInt8} {rest : Text} (blank : isSpace byte) (trivia : Trivia rest) : Trivia (byte :: rest)
  | comment {comment rest : Text} (closed : ClosedComment comment) (trivia : Trivia rest) : Trivia (comment ++ rest)

theorem opensLine_quote (line : opensLine (byte :: behind)) : isQuote byte = false := by
  simp [opensLine, isDashCommentStart, byteAt] at line
  obtain ⟨⟨rfl, -⟩, -⟩ | rfl := line <;> decide

/-- A line comment that has its line feed opens alike whatever stands behind it. -/
theorem opensLine_closed (line : opensLine (front ++ behind)) (feed : Byte.lineFeed ∈ front) :
    opensLine (front ++ other) := by
  match front, feed with
  | [byte], feed =>
    obtain rfl := List.mem_singleton.mp feed
    simp [opensLine, isDashCommentStart, byteAt, show Byte.lineFeed ≠ Byte.dash by decide,
      show Byte.lineFeed ≠ Byte.hash by decide] at line
  | [byte, next], feed =>
    simp [opensLine, isDashCommentStart, byteAt] at line ⊢
    refine line.imp_left fun dashes => ?_
    obtain ⟨⟨rfl, rfl⟩, -⟩ := dashes
    exact absurd feed (by decide)
  | byte :: next :: third :: front, _ => simpa [opensLine, isDashCommentStart, byteAt] using line

theorem closedComment_line {comment : Text} (nonempty : comment ≠ []) (line : opensLine (comment ++ behind))
    (present : behind ≠ []) (ends : skipQuotedOrCommentSpan (comment ++ behind) = comment.length) :
    ClosedComment comment := by
  have longer := List.length_pos_iff.mpr present
  cases comment with
  | nil => exact absurd rfl nonempty
  | cons byte rest =>
    have quote := opensLine_quote line
    rw [List.cons_append] at line
    rw [List.cons_append, skipQuotedOrCommentSpan, if_neg (by rw [quote]; exact Bool.false_ne_true), if_pos line,
      List.length_append, List.length_cons] at ends
    split_ifs at ends with ended
    · have feed := @lineFeed_of_lineLength (byte :: rest) behind (by rw [List.cons_append, List.length_cons]; omega)
      have same (behind : Text) := @lineLength_append (byte :: rest) behind feed
      simp only [List.cons_append] at same
      rw [same] at ends
      refine ⟨nonempty, fun other => ?_, fun other room _ => ?_⟩
      · have opens := @opensLine_closed _ _ other line feed
        rw [List.cons_append] at opens ⊢
        rw [skipQuotedOrCommentSpan, if_neg (by rw [quote]; exact Bool.false_ne_true), if_pos opens, same,
          List.length_append, if_pos (by omega), List.length_cons, ends]
      · rw [opensTrivia, opensLine_closed line feed, Bool.true_or]
    · omega

theorem opensLine_slash (rest : Text) : ¬ opensLine (Byte.slash :: rest) := by
  simp [opensLine, isDashCommentStart, byteAt, show Byte.slash ≠ Byte.dash by decide,
    show Byte.slash ≠ Byte.hash by decide]

theorem closedComment_block {comment : Text} (nonempty : comment ≠ []) (block : opensBlock (comment ++ behind))
    (present : behind ≠ []) (ends : skipQuotedOrCommentSpan (comment ++ behind) = comment.length) :
    ClosedComment comment := by
  have opening : byteAt (comment ++ behind) 0 = Byte.slash ∧ byteAt (comment ++ behind) 1 = Byte.star := by
    simpa [opensBlock] using block
  cases comment with
  | nil => exact absurd rfl nonempty
  | cons byte rest =>
    obtain rfl : byte = Byte.slash := by simpa [byteAt] using opening.1
    rw [List.cons_append] at block
    have bounds := blockLength_pos block
    rw [List.cons_append, skipQuotedOrCommentSpan, if_neg (by decide), if_neg (opensLine_slash _), if_pos block] at ends
    cases rest with
    | nil =>
      rw [List.length_singleton] at ends
      omega
    | cons next rest =>
      obtain rfl : next = Byte.star := by simpa [byteAt] using opening.2
      refine ⟨nonempty, fun other => ?_, fun other room inside => ?_⟩
      · rw [List.cons_append, skipQuotedOrCommentSpan, if_neg (by decide), if_neg (opensLine_slash _),
          if_pos (by simp [opensBlock, byteAt]), ← ends]
        exact blockLength_local block present ends.le (List.cons_ne_nil _ _)
      · simp only [List.length_cons] at inside
        simp [opensTrivia, byteAt]
        exact .inr (by omega)

theorem opensTrivia_closed {comment : Text} (nonempty : comment ≠ [])
    (opens : opensTrivia ordinary room (comment ++ behind)) (present : behind ≠ [])
    (ends : skipQuotedOrCommentSpan (comment ++ behind) = comment.length) : ClosedComment comment := by
  rw [opensTrivia, Bool.or_eq_true] at opens
  cases opens with
  | inl line => exact closedComment_line nonempty line present ends
  | inr block =>
    refine closedComment_block nonempty ?_ present ends
    simp only [Bool.and_eq_true, decide_eq_true_eq] at block
    rw [opensBlock, Bool.and_eq_true, decide_eq_true_eq, decide_eq_true_eq]
    exact ⟨block.1.1.1, block.1.2⟩

/-- Trivia that end before the room is used up are blanks and closed comments. -/
theorem trivia_of_length (room : Nat) (lead : Text) (inside : lead.length < room) (present : behind ≠ [])
    (ends : triviaLength ordinary 0 room (lead ++ behind) = lead.length) : Trivia lead := by
  have longer := List.length_pos_iff.mpr present
  induction size : lead.length using Nat.strong_induction_on generalizing lead room with
  | _ size inductionHypothesis =>
    subst size
    cases lead with
    | nil => exact .nil
    | cons byte lead =>
      cases room with
      | zero => cases inside
      | succ room =>
        rw [List.length_cons] at inside ends
        rw [List.cons_append, triviaLength] at ends
        split_ifs at ends with space opens
        · exact .space space (inductionHypothesis lead.length (by simp) room lead (by omega) (by omega) rfl)
        · rw [Bool.and_eq_true, decide_eq_true_eq] at opens
          have rest := Nat.add_right_cancel ends
          have size := passed_le_triviaLength (by rw [rest]; omega) (by rw [rest, List.length_append]; omega)
          rw [rest] at size
          generalize isSpan : skipQuotedOrCommentSpan (byte :: (lead ++ behind)) = span at *
          have parts := List.take_append_drop (span - 1) lead
          rw [triviaLength_passed (by omega) (by rw [List.length_append]; omega),
            List.drop_append_of_le_length size] at rest
          have trivia := inductionHypothesis (lead.drop (span - 1)).length
            (by rw [List.length_drop, List.length_cons]; omega) (room - (span - 1)) (lead.drop (span - 1))
            (by rw [List.length_drop]; omega) (by rw [List.length_drop]; omega) rfl
          have closed : ClosedComment (byte :: lead.take (span - 1)) := by
            refine @opensTrivia_closed (lead.drop (span - 1) ++ behind) (room + 1) ordinary _ (List.cons_ne_nil _ _) ?_ ?_ ?_
            · rw [List.cons_append, ← List.append_assoc, parts]
              exact opens.1
            · simp [present]
            · rw [List.cons_append, ← List.append_assoc, parts, isSpan, List.length_cons, List.length_take]
              omega
          rw [← parts]
          exact .comment closed trivia

/-- A comment that opens is passed, and the trivia go on behind it. -/
theorem triviaLength_span {comment : Text} (present : comment ≠ [])
    (opens : opensTrivia ordinary (comment.length + room) (comment ++ behind))
    (span : skipQuotedOrCommentSpan (comment ++ behind) = comment.length) :
    triviaLength ordinary 0 (comment.length + room) (comment ++ behind) =
      comment.length + triviaLength ordinary 0 room behind := by
  cases comment with
  | nil => exact absurd rfl present
  | cons byte comment =>
    have notSpace : ¬ isSpace byte := by
      intro space
      rw [List.cons_append, skip_space space] at span
      cases span
    rw [List.length_cons] at span opens ⊢
    rw [List.cons_append] at span opens ⊢
    rw [Nat.add_right_comm] at opens ⊢
    rw [triviaLength, if_neg notSpace, opens, span, if_pos (by simp), Nat.add_sub_cancel,
      triviaLength_passed (by omega) (by rw [List.length_append]; omega), List.drop_left, Nat.add_sub_cancel_left]
    omega

/-- Trivia are passed by both loops over leading bytes. -/
theorem Trivia.skipped {lead : Text} (trivia : Trivia lead) (room : Nat) (behind : Text) :
    triviaLength false 0 (lead.length + room) (lead ++ behind) = lead.length + triviaLength false 0 room behind := by
  induction trivia with
  | nil => simp
  | @space byte rest blank trivia inductionHypothesis =>
    rw [List.length_cons, Nat.add_right_comm, List.cons_append, triviaLength, if_pos blank, inductionHypothesis]
    omega
  | @comment comment rest closed trivia inductionHypothesis =>
    rw [List.length_append, List.append_assoc, Nat.add_assoc,
      triviaLength_span closed.present (closed.opens _ _ (by omega)) (closed.span _), inductionHypothesis]
    omega

/-- Trivia are no end of a statement. -/
theorem Trivia.statementLength {lead : Text} (trivia : Trivia lead) (behind : Text) :
    statementLength 0 (lead ++ behind) = lead.length + statementLength 0 behind := by
  induction trivia with
  | nil => simp
  | @space byte rest blank trivia inductionHypothesis =>
    rw [List.cons_append, Mysql.statementLength, if_neg (space_classes byte blank).2.2.2.2, skip_space blank,
      inductionHypothesis, List.length_cons]
    omega
  | @comment comment rest closed trivia inductionHypothesis =>
    have span := closed.span (rest ++ behind)
    have opens := closed.opens (rest ++ behind) comment.length le_rfl
    cases comment with
    | nil => exact absurd rfl closed.present
    | cons byte inside =>
      have notSemicolon : byte ≠ Byte.semicolon := by
        rintro rfl
        simp [opensTrivia, opensLine, isDashCommentStart, byteAt, show Byte.semicolon ≠ Byte.dash by decide,
          show Byte.semicolon ≠ Byte.hash by decide, show Byte.semicolon ≠ Byte.slash by decide] at opens
      rw [List.append_assoc, List.cons_append] at *
      rw [Mysql.statementLength, if_neg notSemicolon, span, List.length_cons, Nat.add_sub_cancel,
        statementLength_passed (by rw [List.length_append]; omega), List.drop_left, inductionHypothesis,
        List.length_append, List.length_cons]
      omega

end SqlParser.Mysql
