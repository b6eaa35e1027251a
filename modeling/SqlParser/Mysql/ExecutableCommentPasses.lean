import SqlParser.Mysql.ExecutableCommentStatements

/-! # The statements of the two passes

Both passes go over the statements of a text. What each does is told statement by statement, without the offsets that
the loops carry.
-/

namespace SqlParser.Mysql

open SqlParser.Core

/-! ## Statements of a text -/

/-- A statement, with the text behind it. -/
structure Part where
  statement : Text
  behind : Text
  deriving DecidableEq, Repr

/-- The statements that the loops go over, at most `turns` of them. -/
def statementsFrom : Nat → Text → List Part
  | 0, _ => []
  | turns + 1, text =>
    if text = [] then []
    else
      let size := statementLength 0 text
      ⟨text.take size, text.drop size⟩ :: statementsFrom turns (text.drop (size + 1))

def statements (sql : Text) : List Part :=
  statementsFrom sql.length sql

def Part.comment (part : Part) : Option StatementComment :=
  statementComment part.statement.length (part.statement ++ part.behind)

def Part.leading (part : Part) : Nat :=
  skipLeadingTrivia part.statement.length (part.statement ++ part.behind)

/-- Whether the first pass counts a statement. -/
def Part.counts (part : Part) : Bool :=
  part.comment.isSome || part.leading < part.statement.length

/-- The record of the comment of a statement. -/
def StatementComment.record (place : StatementComment) (statement : Text) (index : Nat) : ExecutableComment :=
  ⟨index, slice statement place.start (place.start + place.size), place.body.offset, place.body.length⟩

/-- What the first pass records of a statement. -/
def Part.recorded (part : Part) (index : Nat) : Option ExecutableComment :=
  part.comment.map (·.record part.statement index)

/-! ## Comments -/

namespace ExecutableComment

/-- The body that the parser is given. -/
def body (comment : ExecutableComment) : Text :=
  (comment.surfaceSql.drop comment.bodyOffset).take comment.bodyLength

/-- A text in the place of the body. -/
def wrap (comment : ExecutableComment) (body : Text) : Text :=
  comment.surfaceSql.take comment.bodyOffset ++ body ++ comment.surfaceSql.drop (comment.bodyOffset + comment.bodyLength)

/-- The surface is `/*!`, no version or one of five or six digits, and the body between blanks. -/
structure Proper (comment : ExecutableComment) : Prop where
  valid : comment.valid
  opening : ∃ version blanks, comment.surfaceSql.take comment.bodyOffset = introducer ++ version ++ blanks ∧
    (∀ byte ∈ version, isDigit byte) ∧ (version.length = 0 ∨ version.length = 5 ∨ version.length = 6) ∧
    ∀ byte ∈ blanks, isSpace byte
  closing : ∃ blanks, comment.surfaceSql.drop (comment.bodyOffset + comment.bodyLength) =
    blanks ++ [Byte.star, Byte.slash] ∧ ∀ byte ∈ blanks, isSpace byte
  present : comment.body ≠ []
  head : isSpace (byteAt comment.body 0) = false
  trimmed : trimRight comment.body = comment.body

theorem wrap_body (comment : ExecutableComment) : comment.wrap comment.body = comment.surfaceSql := by
  rw [wrap, body, List.append_assoc, ← List.drop_drop, List.take_append_drop, List.take_append_drop]

end ExecutableComment

/-- A text and the one that the parser is given differ in the comments alone. -/
inductive Woven : Text → List ExecutableComment → Text → Prop where
  | last (text : Text) : Woven text [] text
  | comment {sql text : Text} {comment : ExecutableComment} {comments : List ExecutableComment} (gap : Text)
      (rest : Woven sql comments text) :
      Woven (gap ++ comment.surfaceSql ++ sql) (comment :: comments) (gap ++ comment.body ++ text)

theorem Woven.behind {sql text : Text} {comments : List ExecutableComment} (woven : Woven sql comments text) (front : Text) :
    Woven (front ++ sql) comments (front ++ text) := by
  cases woven with
  | last => exact .last _
  | comment gap rest =>
    rw [← List.append_assoc, ← List.append_assoc, ← List.append_assoc, ← List.append_assoc]
    exact .comment (front ++ gap) rest

/-! ## The body of a comment -/

/-- The marks of an executable comment stand around what is between them. -/
theorem marked {size : Nat} {text : Text} (inside : size ≤ text.length)
    (marks : ¬ (size < 5 ∨ byteAt text 0 ≠ Byte.slash ∨ byteAt text 1 ≠ Byte.star ∨ byteAt text 2 ≠ Byte.bang ∨
      byteAt text (size - 2) ≠ Byte.star ∨ byteAt text (size - 1) ≠ Byte.slash)) :
    text.take size = introducer ++ slice text 3 (size - 2) ++ [Byte.star, Byte.slash] := by
  simp only [not_or, not_lt, not_not] at marks
  obtain ⟨large, first, second, third, star, slash⟩ := marks
  obtain ⟨room, rfl⟩ := Nat.exists_eq_add_of_le large
  match text with
  | [] | [_] | [_, _] =>
    simp only [List.length_cons, List.length_nil] at inside
    omega
  | a :: b :: c :: rest =>
    simp only [byteAt, List.getD_cons_zero, List.getD_cons_succ] at first second third
    rw [show 5 + room - 2 = room + 3 by omega] at star ⊢
    rw [show 5 + room - 1 = room + 4 by omega] at slash
    simp only [byteAt, List.getD_cons_succ] at star slash
    simp only [List.length_cons] at inside
    rw [List.getD_eq_getElem _ _ (by omega)] at star slash
    rw [show 5 + room = room + 1 + 1 + 3 by omega, first, second, third]
    simp only [List.take_succ_cons, slice, List.drop_succ_cons, List.drop_zero, introducer, List.cons_append,
      List.nil_append]
    rw [List.take_add_one, List.take_add_one, List.getElem?_eq_getElem (by omega), List.getElem?_eq_getElem (by omega), star,
      slash]
    simp

theorem drop_takeWhile (accepts : UInt8 → Bool) (text : Text) :
    text.drop (text.takeWhile accepts).length = text.dropWhile accepts := by
  conv_lhs => enter [2]; rw [← @List.takeWhile_append_dropWhile _ accepts text]
  exact List.drop_left

theorem takeWhile_all (accepts : UInt8 → Bool) (text : Text) : ∀ byte ∈ text.takeWhile accepts, accepts byte :=
  fun _ listed => List.mem_takeWhile_imp listed

/-- A comment whose surface is cut around the body. -/
theorem ExecutableComment.cut {comment : ExecutableComment} {opening body closing : Text}
    (surface : comment.surfaceSql = opening ++ body ++ closing) (offset : comment.bodyOffset = opening.length)
    (length : comment.bodyLength = body.length) :
    comment.valid ∧ comment.surfaceSql.take comment.bodyOffset = opening ∧
      comment.surfaceSql.drop (comment.bodyOffset + comment.bodyLength) = closing ∧ comment.body = body := by
  rw [ExecutableComment.body, ExecutableComment.valid, surface, offset, length]
  refine ⟨?_, ?_, ?_, ?_⟩
  · simp
  · rw [List.append_assoc, List.take_left]
  · rw [← List.length_append, List.drop_left]
  · rw [List.append_assoc, List.drop_left, List.take_left]

/-- `*/` -/
def closer : Text :=
  [Byte.star, Byte.slash]

/-- A comment whose marks are around all the digits of a version and a body between blanks. -/
structure Cut (surface : Text) (place : CommentBody) (version leading body trailing : Text) : Prop where
  surface : surface = introducer ++ (version ++ leading ++ body ++ trailing) ++ closer
  offset : place.offset = introducer.length + version.length + leading.length
  length : place.length = body.length
  digits : ∀ byte ∈ version, isDigit byte
  allDigits : ∀ byte ∈ (leading ++ body).head?, ¬ isDigit byte
  size : version.length = 0 ∨ version.length = 5 ∨ version.length = 6
  leading : ∀ byte ∈ leading, isSpace byte
  trailing : ∀ byte ∈ trailing, isSpace byte
  present : body ≠ []
  head : ∀ byte ∈ body.head?, ¬ isSpace byte
  last : ∀ byte ∈ body.getLast?, ¬ isSpace byte

/-- A front that is accepted is all that is taken where the next byte is not. -/
theorem takeWhile_append_stop {accepts : UInt8 → Bool} {front rest : Text} (all : ∀ byte ∈ front, accepts byte)
    (stops : ∀ byte ∈ rest.head?, ¬ accepts byte) :
    (front ++ rest).takeWhile accepts = front ∧ (front ++ rest).dropWhile accepts = rest := by
  rw [List.takeWhile_append_of_pos all, List.dropWhile_append_of_pos all]
  cases rest with
  | nil => simp
  | cons byte rest =>
    have stopped := stops byte rfl
    rw [List.takeWhile_cons_of_neg stopped, List.dropWhile_cons_of_neg stopped, List.append_nil]
    exact ⟨rfl, rfl⟩

theorem trimRight_append {body trailing : Text} (blank : ∀ byte ∈ trailing, isSpace byte)
    (last : ∀ byte ∈ body.getLast?, ¬ isSpace byte) : trimRight (body ++ trailing) = body := by
  rw [trimRight, List.rdropWhile, List.reverse_append, (takeWhile_append_stop (by simpa using blank) ?_).2,
    List.reverse_reverse]
  rwa [List.head?_reverse]

theorem head_dropWhile {accepts : UInt8 → Bool} {text : Text} : ∀ byte ∈ (text.dropWhile accepts).head?, ¬ accepts byte := by
  intro byte isHead
  have stops := List.head?_dropWhile_not accepts text
  rw [Option.mem_def.mp isHead] at stops
  simpa using stops

theorem head_append_trimRight {text : Text} (front : Text) (present : trimRight text ≠ []) :
    (front ++ trimRight text).head? = (front ++ text).head? := by
  have whole : front ++ text = front ++ trimRight text ++ text.rtakeWhile isSpace := by
    rw [List.append_assoc, trimRight, List.rdropWhile_append_rtakeWhile]
  rw [whole, List.head?_append_of_ne_nil (front ++ trimRight text) (by simp [present])]

theorem last_trimRight {text : Text} : ∀ byte ∈ (trimRight text).getLast?, ¬ isSpace byte := by
  rw [trimRight, List.rdropWhile, List.getLast?_reverse]
  exact head_dropWhile

/-- The body of a comment with its marks is looked for between them. -/
theorem executableCommentBody_marked (inside behind : Text) :
    executableCommentBody (inside.length + 5) (introducer ++ inside ++ closer ++ behind) =
      let digits := (inside.takeWhile isDigit).length
      let blanks := ((inside.dropWhile isDigit).takeWhile isSpace).length
      let body := trimRight ((inside.dropWhile isDigit).dropWhile isSpace)
      if digits ≠ 0 ∧ digits ≠ 5 ∧ digits ≠ 6 then none
      else if body = [] ∨ hasSemicolon 0 body.length ((introducer ++ inside ++ closer ++ behind).drop (3 + digits + blanks)) then none
      else some ⟨3 + digits + blanks, body.length⟩ := by
  have cut : slice (introducer ++ inside ++ closer ++ behind) 3 (inside.length + 5 - 2) = inside := by
    simp [slice, introducer]
  have rest : slice (introducer ++ inside ++ closer ++ behind) (3 + (inside.takeWhile isDigit).length) (inside.length + 5 - 2) =
      inside.dropWhile isDigit := by
    rw [slice, ← List.drop_drop, ← slice, cut, drop_takeWhile]
  have marks : ¬ (inside.length + 5 < 5 ∨ byteAt (introducer ++ inside ++ closer ++ behind) 0 ≠ Byte.slash ∨
      byteAt (introducer ++ inside ++ closer ++ behind) 1 ≠ Byte.star ∨
      byteAt (introducer ++ inside ++ closer ++ behind) 2 ≠ Byte.bang ∨
      byteAt (introducer ++ inside ++ closer ++ behind) (inside.length + 5 - 2) ≠ Byte.star ∨
      byteAt (introducer ++ inside ++ closer ++ behind) (inside.length + 5 - 1) ≠ Byte.slash) := by
    have star := byteAt_append_right (introducer ++ inside) (closer ++ behind) 0
    have slash := byteAt_append_right (introducer ++ inside) (closer ++ behind) 1
    rw [← List.append_assoc, List.length_append] at star slash
    simp only [not_or, not_not]
    refine ⟨by omega, rfl, rfl, rfl, ?_, ?_⟩
    · rw [show inside.length + 5 - 2 = introducer.length + inside.length + 0 by simp [introducer]; omega, star]
      rfl
    · rw [show inside.length + 5 - 1 = introducer.length + inside.length + 1 by simp [introducer]; omega, slash]
      rfl
  rw [executableCommentBody, if_neg marks]
  dsimp only
  rw [cut, rest, drop_takeWhile]

theorem executableCommentBody_eq_some_iff {surface behind : Text} {place : CommentBody} :
    executableCommentBody surface.length (surface ++ behind) = some place ↔
      (∃ version leading body trailing, Cut surface place version leading body trailing) ∧
        hasSemicolon 0 place.length ((surface ++ behind).drop place.offset) = false := by
  constructor
  · intro found
    have marks : ¬ (surface.length < 5 ∨ byteAt (surface ++ behind) 0 ≠ Byte.slash ∨
        byteAt (surface ++ behind) 1 ≠ Byte.star ∨ byteAt (surface ++ behind) 2 ≠ Byte.bang ∨
        byteAt (surface ++ behind) (surface.length - 2) ≠ Byte.star ∨
        byteAt (surface ++ behind) (surface.length - 1) ≠ Byte.slash) := by
      intro unmarked
      rw [executableCommentBody, if_pos unmarked] at found
      cases found
    have isMarked := marked (by rw [List.length_append]; omega) marks
    rw [List.take_left] at isMarked
    generalize slice (surface ++ behind) 3 (surface.length - 2) = inside at isMarked
    subst isMarked
    have size : (introducer ++ inside ++ [Byte.star, Byte.slash]).length = inside.length + 5 := by
      simp [introducer]
    rw [size] at found
    have same := executableCommentBody_marked inside behind
    rw [closer] at same
    rw [same] at found
    dsimp only at found
    split_ifs at found with version empty
    simp only [not_or, Bool.not_eq_true] at empty
    cases found
    refine ⟨⟨inside.takeWhile isDigit, (inside.dropWhile isDigit).takeWhile isSpace, _,
      ((inside.dropWhile isDigit).dropWhile isSpace).rtakeWhile isSpace, ⟨?_, rfl, rfl, takeWhile_all _ _, ?_, by omega,
        takeWhile_all _ _, fun byte listed => List.mem_rtakeWhile_imp listed, empty.1, ?_, ?_⟩⟩, empty.2⟩
    · rw [List.append_assoc _ (trimRight _), trimRight, List.rdropWhile_append_rtakeWhile, List.append_assoc _ _ (List.dropWhile _ _),
        List.takeWhile_append_dropWhile, List.takeWhile_append_dropWhile]
      rfl
    · rw [head_append_trimRight _ empty.1, List.takeWhile_append_dropWhile]
      exact head_dropWhile
    · rw [← List.nil_append (trimRight _), head_append_trimRight _ empty.1]
      exact head_dropWhile
    · exact last_trimRight
  · rintro ⟨⟨version, leading, body, trailing, cut⟩, code⟩
    obtain ⟨offset, length⟩ := place
    obtain ⟨rfl, isOffset, isLength, digits, allDigits, size, isLeading, isTrailing, present, head, last⟩ := cut
    have some_body := List.length_pos_iff.mpr present
    dsimp only at isOffset isLength code
    have isVersion : (version ++ leading ++ body ++ trailing).takeWhile isDigit = version ∧
        (version ++ leading ++ body ++ trailing).dropWhile isDigit = leading ++ (body ++ trailing) := by
      rw [List.append_assoc, List.append_assoc]
      refine takeWhile_append_stop digits ?_
      rwa [← List.append_assoc, List.head?_append_of_ne_nil _ (by simp [present])]
    have isBody : (leading ++ (body ++ trailing)).takeWhile isSpace = leading ∧
        (leading ++ (body ++ trailing)).dropWhile isSpace = body ++ trailing := by
      refine takeWhile_append_stop isLeading ?_
      rwa [List.head?_append_of_ne_nil _ present]
    have trimmed := trimRight_append isTrailing last
    have same := executableCommentBody_marked (version ++ leading ++ body ++ trailing) behind
    rw [isVersion.1, isVersion.2, isBody.1, isBody.2, trimmed] at same
    dsimp only at same
    have length : (introducer ++ (version ++ leading ++ body ++ trailing) ++ closer).length =
        (version ++ leading ++ body ++ trailing).length + 5 := by
      simp [introducer, closer]
      omega
    rw [length, same, if_neg (by omega), isOffset, isLength]
    refine if_neg ?_
    rw [isOffset, isLength] at code
    rintro (empty | bare)
    · exact present empty
    · rw [show 3 = introducer.length from rfl, code] at bare
      cases bare

theorem Cut.proper {surface version leading body trailing : Text} {place : CommentBody}
    (cut : Cut surface place version leading body trailing) (index : Nat) :
    (⟨index, surface, place.offset, place.length⟩ : ExecutableComment).Proper := by
  have isSurface : surface = (introducer ++ version ++ leading) ++ body ++ (trailing ++ [Byte.star, Byte.slash]) := by
    rw [cut.surface]
    simp [closer]
  have isOffset : place.offset = (introducer ++ version ++ leading).length := by
    rw [cut.offset, List.length_append, List.length_append]
  obtain ⟨valid, opening, closing, isBody⟩ := @ExecutableComment.cut
    ⟨index, surface, place.offset, place.length⟩ _ _ _ isSurface isOffset cut.length
  refine ⟨valid, ⟨version, leading, opening, cut.digits, cut.size, cut.leading⟩, ⟨trailing, closing, cut.trailing⟩, ?_, ?_, ?_⟩
  · rw [isBody]
    exact cut.present
  · rw [isBody]
    obtain ⟨byte, rest, rfl⟩ := List.exists_cons_of_ne_nil cut.present
    exact eq_false_of_ne_true (cut.head byte rfl)
  · rw [isBody]
    have trimmed := @trimRight_append body [] (by simp) cut.last
    rwa [List.append_nil] at trimmed

/-- What a body that is found looks like in its comment. -/
theorem executableCommentBody_some {size : Nat} {text : Text} {place : CommentBody} (inside : size ≤ text.length)
    (found : executableCommentBody size text = some place) (index : Nat) :
    (⟨index, text.take size, place.offset, place.length⟩ : ExecutableComment).Proper := by
  have cut := @executableCommentBody_eq_some_iff (text.take size) (text.drop size) place
  rw [List.take_append_drop, List.length_take_of_le inside] at cut
  obtain ⟨⟨version, leading, body, trailing, cut⟩, -⟩ := cut.mp found
  exact cut.proper index

/-- A statement with the comment that it is. -/
structure Part.Holds (part : Part) (lead trail : Text) (comment : ExecutableComment) : Prop where
  text : part.statement = lead ++ comment.surfaceSql ++ trail
  lead : Trivia lead
  proper : comment.Proper

/-- What the first pass hands to the parser for a statement. -/
def Part.parsed (part : Part) : Text :=
  match part.comment with
  | none => part.statement
  | some place =>
    part.statement.take place.start ++ (place.record part.statement 0).body ++ part.statement.drop (place.start + place.size)

theorem Part.recorded_none {part : Part} (code : part.comment = none) (index : Nat) : part.recorded index = none := by
  rw [recorded, code]
  rfl

theorem Part.recorded_some {part : Part} {place : StatementComment} (found : part.comment = some place) (index : Nat) :
    part.recorded index = some (place.record part.statement index) := by
  rw [recorded, found]
  rfl

theorem Part.comment_some {part : Part} {place : StatementComment} (found : part.comment = some place) (index : Nat) :
    part.Holds (part.statement.take place.start) (part.statement.drop (place.start + place.size)) (place.record part.statement index) ∧
      (place.record part.statement index).body = slice part.statement (place.start + place.body.offset)
        (place.start + place.body.offset + place.body.length) ∧
      place.start + place.size ≤ part.statement.length ∧ place.body.offset + place.body.length ≤ place.size := by
  obtain ⟨statement, behind⟩ := part
  rw [Part.comment, statementComment] at found
  dsimp only at found
  split_ifs at found with isComment
  obtain ⟨body, isBody, isPlace⟩ := Option.map_eq_some_iff.mp found
  obtain ⟨present, fits, -⟩ := isComment
  obtain ⟨start, size, place⟩ := place
  cases isPlace
  generalize isStart : skipOrdinaryTrivia statement.length (statement ++ behind) = start at *
  generalize isSize : skipQuotedOrCommentSpan ((statement ++ behind).drop start) = size at *
  dsimp only at fits ⊢
  have surface : ((statement ++ behind).drop start).take size = slice statement start (start + size) := by
    rw [List.drop_append_of_le_length (by omega), List.take_append_of_le_length (by rw [List.length_drop]; omega), slice,
      List.drop_take, Nat.add_sub_cancel_left]
  have proper := executableCommentBody_some
    (by rw [List.length_drop, List.length_append]; omega) isBody index
  rw [surface] at proper
  have cut : (slice statement start (start + size)).length = size := by
    rw [slice_length fits, Nat.add_sub_cancel_left]
  have bounds : body.offset + body.length ≤ size := by
    have valid := proper.valid
    simp only [ExecutableComment.valid, cut, Bool.and_eq_true, decide_eq_true_eq] at valid
    omega
  have isText : ((slice statement start (start + size)).drop body.offset).take body.length =
      slice statement (start + body.offset) (start + body.offset + body.length) := by
    rw [slice, slice, List.drop_drop, List.take_drop, List.take_take, Nat.min_eq_left (by omega)]
  refine ⟨⟨?_, ?_, proper⟩, isText, fits, bounds⟩
  · dsimp only [StatementComment.record]
    rw [slice, List.drop_take, Nat.add_sub_cancel_left, List.append_assoc, ← List.drop_drop, List.take_append_drop,
      List.take_append_drop]
  · have isLead : statement.take start ++ (statement ++ behind).drop start = statement ++ behind := by
      rw [← List.take_append_of_le_length (by omega), List.take_append_drop]
    have size : (statement.take start).length = start := List.length_take_of_le (by omega)
    refine @trivia_of_length ((statement ++ behind).drop start) true statement.length _ (by omega) ?_ ?_
    · rw [ne_eq, List.drop_eq_nil_iff, List.length_append]
      omega
    · rw [isLead, size]
      exact isStart

/-! ## The first pass -/

/-- The text for the parser, over at most `turns` statements. -/
def parsedFrom : Nat → Text → Text
  | 0, text => text
  | turns + 1, text =>
    if text = [] then []
    else
      let size := statementLength 0 text
      Part.parsed ⟨text.take size, text.drop size⟩ ++ (text.drop size).take 1 ++ parsedFrom turns (text.drop (size + 1))

/-- The comments of a list of statements, the first of which is counted as `index`. -/
def recordedFrom : Nat → List Part → List ExecutableComment
  | _, [] => []
  | index, part :: parts => (part.recorded index).toList ++ recordedFrom (index + if part.counts then 1 else 0) parts

variable {sql text : Text} {seg size start stop middle : Nat}

theorem slice_append (first : start ≤ middle) (second : middle ≤ stop) (inside : stop ≤ sql.length) :
    slice sql start middle ++ slice sql middle stop = slice sql start stop := by
  rw [slice, slice, slice, List.drop_take, List.drop_take, List.drop_take,
    show stop - start = (middle - start) + (stop - middle) by omega, List.take_add, List.drop_drop,
    show start + (middle - start) = middle by omega]

theorem slice_drop (first : start ≤ stop) : slice sql start stop ++ sql.drop stop = sql.drop start := by
  have parts := List.take_append_drop (stop - start) (sql.drop start)
  rwa [List.drop_drop, show start + (stop - start) = stop by omega, ← List.drop_take] at parts

/-- A slice of a statement as one of the text. -/
theorem slice_statement (inside : stop ≤ size) :
    slice sql (seg + start) (seg + stop) = slice ((sql.drop seg).take size) start stop := by
  rw [slice, slice, List.take_take, Nat.min_eq_left inside, List.take_drop, List.drop_drop]

theorem rewriteStatement_ok (state : CommentRewrite) (before : state.copyStart ≤ state.segmentStart)
    (inside : state.segmentStart + size ≤ sql.length) {part : Part}
    (isPart : part = ⟨(sql.drop state.segmentStart).take size, (sql.drop state.segmentStart).drop size⟩) :
    ∃ next, rewriteStatement sql size state = .ok next ∧ next.segmentStart = state.segmentStart ∧
      next.copyStart ≤ state.segmentStart + size ∧
      next.statementIndex = state.statementIndex + (if part.counts then 1 else 0) ∧
      next.comments = state.comments ++ (part.recorded state.statementIndex).toList ∧
      next.rewritten = (state.rewritten || (part.recorded state.statementIndex).isSome) ∧
      next.out ++ slice sql next.copyStart (state.segmentStart + size) =
        state.out ++ slice sql state.copyStart state.segmentStart ++ part.parsed := by
  have cut : part.statement.length = size := by
    rw [isPart, List.length_take, List.length_drop]
    omega
  have whole : part.statement ++ part.behind = sql.drop state.segmentStart := by
    rw [isPart, List.take_append_drop]
  have isText : part.statement = (sql.drop state.segmentStart).take size := by rw [isPart]
  have isComment : statementComment size (sql.drop state.segmentStart) = part.comment := by
    rw [Part.comment, cut, whole]
  have isLeading : skipLeadingTrivia size (sql.drop state.segmentStart) = part.leading := by
    rw [Part.leading, cut, whole]
  unfold rewriteStatement
  dsimp only
  rw [isComment, isLeading]
  cases found : part.comment with
  | none =>
    have unchanged : part.parsed = slice sql state.segmentStart (state.segmentStart + size) := by
      rw [Part.parsed, found, isText]
      have same := @slice_statement sql state.segmentStart size 0 size le_rfl
      rw [Nat.add_zero] at same
      rw [same, slice, List.drop_zero, List.take_take, Nat.min_self]
    have joined : state.out ++ slice sql state.copyStart (state.segmentStart + size) =
        state.out ++ slice sql state.copyStart state.segmentStart ++ part.parsed := by
      rw [unchanged, List.append_assoc, slice_append before (by omega) inside]
    have counts : part.counts = decide (part.leading < size) := by
      rw [Part.counts, found, cut]
      rfl
    rw [Part.recorded_none found, counts]
    dsimp only
    by_cases present : part.leading < size
    · rw [if_pos present]
      refine ⟨_, rfl, rfl, ?_, ?_, ?_, ?_, joined⟩
      · dsimp only
        omega
      · simp [present]
      · simp
      · simp
    · rw [if_neg present]
      refine ⟨_, rfl, rfl, ?_, ?_, ?_, ?_, joined⟩
      · omega
      · simp [present]
      · simp
      · simp
  | some place =>
    obtain ⟨holds, isBody, fits, bodyFits⟩ := Part.comment_some found state.statementIndex
    have counts : part.counts = true := by
      rw [Part.counts, found]
      rfl
    rw [cut] at fits
    have surface : slice sql (state.segmentStart + place.start) (state.segmentStart + place.start + place.size) =
        slice part.statement place.start (place.start + place.size) := by
      rw [Nat.add_assoc, slice_statement fits, isText]
    have body : slice sql (state.segmentStart + place.start + place.body.offset)
        (state.segmentStart + place.start + place.body.offset + place.body.length) = (place.record part.statement 0).body := by
      have same := @slice_statement sql state.segmentStart size (place.start + place.body.offset)
        (place.start + place.body.offset + place.body.length) (by omega)
      rw [(Part.comment_some found 0).2.1, isText, ← same]
      simp only [Nat.add_assoc]
    have valid : (place.record part.statement state.statementIndex).valid := holds.proper.valid
    rw [Part.recorded_some found, counts]
    dsimp only
    rw [surface, body, addExecutableComment, ← StatementComment.record, if_pos valid]
    refine ⟨_, rfl, rfl, ?_, rfl, rfl, ?_, ?_⟩
    · dsimp only
      omega
    · simp
    · dsimp only
      have lead := @slice_append sql state.copyStart (state.segmentStart + place.start) state.segmentStart before (by omega)
        (by omega)
      have isLead := @slice_statement sql state.segmentStart size 0 place.start (by omega)
      have isTrail := @slice_statement sql state.segmentStart size (place.start + place.size) size le_rfl
      rw [Nat.add_zero, ← isText] at isLead
      rw [← isText, ← Nat.add_assoc] at isTrail
      rw [← lead, isLead, isTrail, Part.parsed, found]
      simp [slice, ← cut]

theorem statementsFrom_nil (turns : Nat) : statementsFrom turns [] = [] := by
  cases turns <;> rfl

theorem parsedFrom_nil (turns : Nat) : parsedFrom turns [] = [] := by
  cases turns <;> rfl

/-- The loop goes on from any state as the lists of statements say. -/
theorem rewriteStatements_ok (turns : Nat) (state : CommentRewrite) (before : state.copyStart ≤ state.segmentStart)
    (inside : state.segmentStart ≤ sql.length) (text : Text) (isText : text = sql.drop state.segmentStart)
    (enough : text.length ≤ turns) :
    ∃ final, rewriteStatements sql turns state = .ok final ∧
      final.comments = state.comments ++ recordedFrom state.statementIndex (statementsFrom turns text) ∧
      final.rewritten = (state.rewritten || !(recordedFrom state.statementIndex (statementsFrom turns text)).isEmpty) ∧
      final.out ++ sql.drop final.copyStart =
        state.out ++ slice sql state.copyStart state.segmentStart ++ parsedFrom turns text := by
  induction turns generalizing state text with
  | zero =>
    obtain rfl := List.length_eq_zero_iff.mp (Nat.le_zero.mp enough)
    refine ⟨state, rfl, by simp [statementsFrom, recordedFrom], by simp [statementsFrom, recordedFrom], ?_⟩
    rw [parsedFrom, List.append_nil, ← slice_drop before, ← isText, List.append_nil]
  | succ turns inductionHypothesis =>
    have length := congrArg List.length isText
    rw [List.length_drop] at length
    by_cases more : state.segmentStart < sql.length
    · have present : text ≠ [] := by
        rintro rfl
        simp at length
        omega
      have size := statementLength_le 0 text
      obtain ⟨next, isNext, start, copied, index, comments, rewritten, out⟩ :=
        rewriteStatement_ok state before (by omega : state.segmentStart + statementLength 0 text ≤ sql.length) rfl
      rw [rewriteStatements, if_pos more, ← isText]
      rw [← isText] at index comments rewritten out
      dsimp only
      rw [isNext]
      have behind : sql.drop (state.segmentStart + statementLength 0 text) = text.drop (statementLength 0 text) := by
        rw [isText, List.drop_drop]
      rw [statementsFrom, if_neg present, parsedFrom, if_neg present]
      dsimp only
      rw [recordedFrom]
      by_cases ended : sql.length ≤ state.segmentStart + statementLength 0 text
      · have isLast : text.drop (statementLength 0 text) = [] := by
          rw [← behind]
          exact List.drop_eq_nil_of_le ended
        have isEnd : text.drop (statementLength 0 text + 1) = [] := by
          rw [← List.drop_drop, isLast]
          rfl
        refine ⟨next, ?_, ?_, ?_, ?_⟩
        · exact if_pos ended
        · rw [isEnd, statementsFrom_nil, recordedFrom, List.append_nil, comments]
        · rw [isEnd, statementsFrom_nil, recordedFrom, List.append_nil, rewritten]
          cases Part.recorded _ _ <;> simp
        · rw [isEnd, parsedFrom_nil, isLast, ← slice_drop copied, behind, isLast]
          simpa [isLast] using out
      · have isBehind : text.drop (statementLength 0 text + 1) =
            sql.drop (state.segmentStart + statementLength 0 text + 1) := by
          rw [isText, List.drop_drop, Nat.add_assoc]
        obtain ⟨final, isFinal, finalComments, finalRewritten, finalOut⟩ := inductionHypothesis
          { next with segmentStart := state.segmentStart + statementLength 0 text + 1 }
          (by dsimp only; omega) (by dsimp only; omega) _ isBehind (by rw [List.length_drop]; omega)
        refine ⟨final, ?_, ?_, ?_, ?_⟩
        · exact (if_neg ended).trans isFinal
        · rw [finalComments, comments, index, List.append_assoc]
        · rw [finalRewritten, rewritten, index]
          generalize Part.recorded _ state.statementIndex = recorded
          cases recorded <;> simp
        · have joined := @slice_append sql next.copyStart (state.segmentStart + statementLength 0 text + 1)
            (state.segmentStart + statementLength 0 text) copied (by omega) (by omega)
          have semicolon : slice sql (state.segmentStart + statementLength 0 text)
              (state.segmentStart + statementLength 0 text + 1) = (text.drop (statementLength 0 text)).take 1 := by
            rw [slice, List.drop_take, behind, Nat.add_sub_cancel_left]
          rw [finalOut]
          dsimp only
          rw [← joined, ← List.append_assoc, out, semicolon]
          simp only [List.append_assoc]
    · have isEmpty : text = [] := by
        rw [← List.length_eq_zero_iff]
        omega
      subst isEmpty
      refine ⟨state, ?_, ?_, ?_, ?_⟩
      · rw [rewriteStatements, if_neg more]
      · rw [statementsFrom_nil, recordedFrom, List.append_nil]
      · simp [statementsFrom_nil, recordedFrom]
      · rw [parsedFrom_nil, List.append_nil, ← slice_drop before, ← isText, List.append_nil]

/-- The text for the parser differs from the source in the comments alone. -/
theorem parsedFrom_woven (turns index : Nat) (text : Text) (enough : text.length ≤ turns) :
    Woven text (recordedFrom index (statementsFrom turns text)) (parsedFrom turns text) := by
  induction turns generalizing index text with
  | zero =>
    obtain rfl := List.length_eq_zero_iff.mp (Nat.le_zero.mp enough)
    exact .last []
  | succ turns inductionHypothesis =>
    by_cases present : text = []
    · subst present
      exact .last []
    · rw [statementsFrom, if_neg present, parsedFrom, if_neg present]
      dsimp only
      rw [recordedFrom]
      generalize isPart : (⟨text.take (statementLength 0 text), text.drop (statementLength 0 text)⟩ : Part) = part
      have whole : text = part.statement ++ ((text.drop (statementLength 0 text)).take 1 ++
          text.drop (statementLength 0 text + 1)) := by
        rw [← isPart, ← List.drop_drop, List.take_append_drop, List.take_append_drop]
      have later := inductionHypothesis (index + if part.counts then 1 else 0) (text.drop (statementLength 0 text + 1))
        (by rw [List.length_drop]; have := List.length_pos_iff.mpr present; omega)
      have behind := later.behind ((text.drop (statementLength 0 text)).take 1)
      conv => enter [1]; rw [whole]
      cases found : part.comment with
      | none =>
        rw [Part.recorded_none found, Part.parsed, found, List.append_assoc]
        exact behind.behind part.statement
      | some place =>
        obtain ⟨holds, -⟩ := Part.comment_some found index
        have woven := @Woven.comment _ _ (place.record part.statement index) _ (part.statement.take place.start)
          (behind.behind (part.statement.drop (place.start + place.size)))
        rw [Part.recorded_some found, Part.parsed, found]
        dsimp only
        conv => enter [1, 1]; rw [holds.text]
        simp only [List.append_assoc] at woven ⊢
        exact woven

theorem recordedFrom_eq (index : Nat) (parts : List Part) :
    recordedFrom index parts =
      ((parts.filter Part.counts).zipIdx index).filterMap fun numbered => numbered.1.recorded numbered.2 := by
  induction parts generalizing index with
  | nil => rfl
  | cons part parts inductionHypothesis =>
    rw [recordedFrom, inductionHypothesis]
    cases counts : part.counts with
    | true =>
      rw [List.filter_cons_of_pos counts, List.zipIdx_cons, List.filterMap_cons]
      cases part.recorded index <;> rfl
    | false =>
      have code : part.comment = none := by
        rw [Part.counts, Bool.or_eq_false_iff] at counts
        exact Option.not_isSome_iff_eq_none.mp (by rw [counts.1]; exact Bool.false_ne_true)
      rw [List.filter_cons_of_neg (by rw [counts]; exact Bool.false_ne_true), Part.recorded_none code]
      rfl

theorem recordedFrom_proper (index : Nat) (parts : List Part) : ∀ comment ∈ recordedFrom index parts, comment.Proper := by
  induction parts generalizing index with
  | nil => exact fun comment listed => absurd listed List.not_mem_nil
  | cons part parts inductionHypothesis =>
    intro comment listed
    rw [recordedFrom, List.mem_append, Option.mem_toList] at listed
    cases listed with
    | inl own =>
      obtain ⟨place, found, rfl⟩ := Option.map_eq_some_iff.mp own
      exact (Part.comment_some found index).1.proper
    | inr later => exact inductionHypothesis _ comment later

/-- A delimiter that stands in a text is found. -/
theorem behindDelimiter_present (front delimiter tail : Text) (present : delimiter ≠ []) :
    behindDelimiter delimiter (front ++ delimiter ++ tail) ≠ none := by
  induction front with
  | nil =>
    cases delimiter with
    | nil => exact absurd rfl present
    | cons byte delimiter =>
      rw [List.nil_append, List.cons_append, behindDelimiter, if_pos]
      · exact Option.some_ne_none _
      · rw [List.isPrefixOf_iff_prefix]
        exact List.prefix_append _ _
  | cons byte front inductionHypothesis =>
    rw [List.cons_append, List.cons_append, behindDelimiter]
    split_ifs
    · exact Option.some_ne_none _
    · exact inductionHypothesis

/-- A text with a comment has the bytes that open one. -/
theorem Woven.introducer {text : Text} {comment : ExecutableComment} {comments : List ExecutableComment}
    (woven : Woven sql (comment :: comments) text) (proper : comment.Proper) :
    behindDelimiter introducer sql ≠ none := by
  obtain ⟨version, blanks, opening, -⟩ := proper.opening
  cases woven with
  | @comment rest _ _ _ gap =>
    have surface := List.take_append_drop comment.bodyOffset comment.surfaceSql
    rw [opening] at surface
    rw [← surface]
    simp only [List.append_assoc]
    rw [← List.append_assoc]
    exact behindDelimiter_present gap _ _ (by decide)

theorem rewriteExecutableComments_eq (sql : Text) :
    rewriteExecutableComments sql = .ok (if recordedFrom 0 (statements sql) = [] then none
      else some (parsedFrom sql.length sql, recordedFrom 0 (statements sql))) := by
  have woven := parsedFrom_woven sql.length 0 sql le_rfl
  have proper := recordedFrom_proper 0 (statements sql)
  obtain ⟨final, ran, comments, rewritten, out⟩ :=
    @rewriteStatements_ok sql sql.length ⟨0, 0, 0, false, [], []⟩ le_rfl (Nat.zero_le _) sql rfl le_rfl
  rw [← statements] at comments rewritten woven
  dsimp only at comments rewritten out
  rw [rewriteExecutableComments, ran]
  cases isRecorded : recordedFrom 0 (statements sql) with
  | nil =>
    rw [isRecorded] at rewritten
    rw [if_pos rfl, Except.map, show final.rewritten = false from rewritten, if_neg Bool.false_ne_true]
    split_ifs <;> rfl
  | cons comment others =>
    rw [isRecorded] at rewritten comments woven proper
    rw [if_neg (woven.introducer (proper comment List.mem_cons_self)), if_neg (List.cons_ne_nil _ _), Except.map, rewritten,
      out, comments]
    rfl

end SqlParser.Mysql
