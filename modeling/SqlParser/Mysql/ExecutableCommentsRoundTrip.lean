import SqlParser.Mysql.ExecutableCommentPasses

/-! # Comments that are put back

The second pass wraps the statements that the first pass recorded. It gives the source back where the body of each
comment is read as the statement that the comment was.
-/

namespace SqlParser.Mysql

open SqlParser.Core

variable {sql text piece out : Text} {index next size : Nat} {part : Part} {pending left : List ExecutableComment}

/-! ## The second pass -/

/-- What the second pass wraps. -/
def Part.body (part : Part) : Text :=
  trimRight (part.statement.drop part.leading)

/-- What the second pass does with a statement: the text that it becomes, the comments that are left, and the index of
the next statement. -/
inductive RestoreTurn (index : Nat) (part : Part) : List ExecutableComment → Text → List ExecutableComment → Nat → Prop where
  | blank {pending : List ExecutableComment} (blank : part.body = []) :
      RestoreTurn index part pending part.statement pending index
  | passed {pending : List ExecutableComment} (present : part.body ≠ [])
      (other : ∀ comment ∈ pending.head?, comment.statementIndex ≠ index) :
      RestoreTurn index part pending part.statement pending (index + 1)
  | wrapped {comment : ExecutableComment} {pending : List ExecutableComment} (present : part.body ≠ [])
      (own : comment.statementIndex = index) (valid : comment.valid) :
      RestoreTurn index part (comment :: pending) (part.statement.take part.leading ++ comment.wrap part.body ++
        part.statement.drop (part.leading + part.body.length)) pending (index + 1)

/-- The second pass over a text. -/
inductive Restores : Nat → List ExecutableComment → Text → Text → List ExecutableComment → Prop where
  | done {index : Nat} {pending : List ExecutableComment} : Restores index pending [] [] pending
  | last {index next : Nat} {statement piece : Text} {pending left : List ExecutableComment} (present : statement ≠ [])
      (ends : statementLength 0 statement = statement.length) (turn : RestoreTurn index ⟨statement, []⟩ pending piece left next) :
      Restores index pending statement piece left
  | more {index next : Nat} {statement behind piece out : Text} {pending middle left : List ExecutableComment}
      (ends : statementLength 0 (statement ++ Byte.semicolon :: behind) = statement.length)
      (turn : RestoreTurn index ⟨statement, Byte.semicolon :: behind⟩ pending piece middle next)
      (rest : Restores next middle behind out left) :
      Restores index pending (statement ++ Byte.semicolon :: behind) (piece ++ Byte.semicolon :: out) left

theorem Part.leading_le (part : Part) : part.leading ≤ part.statement.length :=
  (triviaLength_le _ _ _ _).1

theorem Part.body_le (part : Part) : part.leading + part.body.length ≤ part.statement.length := by
  have short := (@List.rdropWhile_prefix _ isSpace (part.statement.drop part.leading)).length_le
  have := part.leading_le
  rw [List.length_drop] at short
  rw [body, trimRight]
  omega

theorem restoreStatement_ok (state : CommentRestore) (before : state.copyStart ≤ state.segmentStart)
    (inside : state.segmentStart + size ≤ sql.length)
    (isPart : part = ⟨(sql.drop state.segmentStart).take size, (sql.drop state.segmentStart).drop size⟩)
    (turn : RestoreTurn state.statementIndex part state.pending piece left next) :
    ∃ following, restoreStatement sql size state = .ok following ∧ following.segmentStart = state.segmentStart ∧
      following.copyStart ≤ state.segmentStart + size ∧ following.statementIndex = next ∧ following.pending = left ∧
      following.out ++ slice sql following.copyStart (state.segmentStart + size) =
        state.out ++ slice sql state.copyStart state.segmentStart ++ piece := by
  obtain ⟨seg, copyStart, index, out, pending⟩ := state
  dsimp only at before inside isPart turn ⊢
  have cut : part.statement.length = size := by
    rw [isPart, List.length_take, List.length_drop]
    omega
  have whole : part.statement ++ part.behind = sql.drop seg := by
    rw [isPart, List.take_append_drop]
  have isText : part.statement = (sql.drop seg).take size := by rw [isPart]
  have isLeading : skipLeadingTrivia size (sql.drop seg) = part.leading := by
    rw [Part.leading, cut, whole]
  have isBody : trimRight (slice (sql.drop seg) part.leading size) = part.body := by
    rw [slice, ← isText, Part.body]
  have same (start stop : Nat) (inside : stop ≤ size) :
      slice sql (seg + start) (seg + stop) = slice part.statement start stop := by
    rw [slice_statement inside, isText]
  have unchanged : out ++ slice sql copyStart (seg + size) = out ++ slice sql copyStart seg ++ part.statement := by
    have statement := same 0 size le_rfl
    rw [Nat.add_zero, show slice part.statement 0 size = part.statement by
      rw [slice, List.drop_zero, List.take_of_length_le cut.le]] at statement
    rw [← statement, List.append_assoc, slice_append before (by omega) inside]
  unfold restoreStatement
  dsimp only
  rw [isLeading, isBody]
  cases turn with
  | blank blank =>
    rw [if_pos blank]
    exact ⟨_, rfl, rfl, before.trans (Nat.le_add_right _ _), rfl, rfl, unchanged⟩
  | passed present other =>
    rw [if_neg present]
    cases left with
    | nil => exact ⟨_, rfl, rfl, before.trans (Nat.le_add_right _ _), rfl, rfl, unchanged⟩
    | cons comment pending =>
      dsimp only
      rw [if_neg (other comment rfl)]
      exact ⟨_, rfl, rfl, before.trans (Nat.le_add_right _ _), rfl, rfl, unchanged⟩
  | wrapped present own valid =>
    have fits := part.body_le
    rw [if_neg present]
    dsimp only
    rw [if_pos own, if_pos valid]
    refine ⟨_, rfl, rfl, ?_, rfl, rfl, ?_⟩
    · dsimp only
      omega
    · dsimp only
      have lead := @slice_append sql copyStart (seg + part.leading) seg before (by omega) (by omega)
      have isLead := same 0 part.leading (by omega)
      have isTrail := same (part.leading + part.body.length) size le_rfl
      rw [Nat.add_zero] at isLead
      rw [← Nat.add_assoc] at isTrail
      rw [← lead, isLead, isTrail, ExecutableComment.wrap]
      simp [slice, ← cut]

/-- The loop goes on from any state as the statements say. -/
theorem restoreStatements_ok (restores : Restores index pending text out left) (turns : Nat) (enough : text.length ≤ turns)
    (state : CommentRestore) (before : state.copyStart ≤ state.segmentStart) (inside : state.segmentStart ≤ sql.length)
    (isText : text = sql.drop state.segmentStart) (isIndex : state.statementIndex = index)
    (isPending : state.pending = pending) :
    ∃ final, restoreStatements sql turns state = .ok final ∧ final.pending = left ∧
      final.out ++ sql.drop final.copyStart = state.out ++ slice sql state.copyStart state.segmentStart ++ out := by
  induction restores generalizing state turns with
  | done =>
    have ended := congrArg List.length isText
    rw [List.length_drop, List.length_nil] at ended
    refine ⟨state, ?_, isPending, ?_⟩
    · cases turns with
      | zero => rfl
      | succ turns => rw [restoreStatements, if_neg (by omega)]
    · rw [← slice_drop before, ← isText]
      simp
  | @last index next statement piece pending left present ends turn =>
    have length := congrArg List.length isText
    rw [List.length_drop] at length
    have longer := List.length_pos_iff.mpr present
    cases turns with
    | zero => omega
    | succ turns =>
      subst isIndex isPending
      obtain ⟨following, ran, -, copied, -, isLeft, joined⟩ := restoreStatement_ok state before
        (by omega : state.segmentStart + statement.length ≤ sql.length)
        (by rw [← isText, List.take_length, List.drop_length]) turn
      refine ⟨following, ?_, isLeft, ?_⟩
      · rw [restoreStatements, if_pos (by omega), ← isText]
        dsimp only
        rw [ends, ran]
        exact if_pos (by omega)
      · have ended := @slice_drop sql following.copyStart (state.segmentStart + statement.length) copied
        rw [List.drop_eq_nil_of_le (by omega), List.append_nil] at ended
        rw [← ended, joined]
  | @more index next statement behind piece out pending middle left ends turn rest inductionHypothesis =>
    have length := congrArg List.length isText
    simp only [List.length_drop, List.length_append, List.length_cons] at length enough
    cases turns with
    | zero => omega
    | succ turns =>
      subst isIndex isPending
      obtain ⟨following, ran, -, copied, isNext, isMiddle, joined⟩ := restoreStatement_ok state before
        (by omega : state.segmentStart + statement.length ≤ sql.length)
        (by rw [← isText, List.take_left, List.drop_left]) turn
      have isBehind : sql.drop (state.segmentStart + statement.length) = Byte.semicolon :: behind := by
        rw [← List.drop_drop, ← isText, List.drop_left]
      obtain ⟨final, finalRan, finalLeft, finalJoined⟩ := inductionHypothesis turns (by omega)
        { following with segmentStart := state.segmentStart + statement.length + 1 }
        (by dsimp only; omega) (by dsimp only; omega)
        (by rw [← List.drop_drop, isBehind]; rfl) isNext isMiddle
      refine ⟨final, ?_, finalLeft, ?_⟩
      · rw [restoreStatements, if_pos (by omega), ← isText]
        dsimp only
        rw [ends, ran]
        exact (if_neg (by omega)).trans finalRan
      · have more := @slice_append sql following.copyStart (state.segmentStart + statement.length + 1)
          (state.segmentStart + statement.length) copied (by omega) (by omega)
        have semicolon : slice sql (state.segmentStart + statement.length) (state.segmentStart + statement.length + 1) =
            [Byte.semicolon] := by
          rw [slice, List.drop_take, isBehind, Nat.add_sub_cancel_left]
          rfl
        rw [finalJoined]
        dsimp only
        rw [← more, ← List.append_assoc, joined, semicolon]
        simp only [List.append_assoc, List.cons_append, List.nil_append]

/-- What the second pass returns. -/
theorem restoreExecutableComments_eq (restores : Restores 0 pending text out left) :
    restoreExecutableComments text pending =
      if pending = [] then .ok text else if left ≠ [] then .error statementMissing else .ok out := by
  obtain ⟨final, ran, isLeft, joined⟩ := restoreStatements_ok restores text.length le_rfl ⟨0, 0, 0, [], pending⟩ le_rfl
    (Nat.zero_le _) rfl rfl rfl
  rw [restoreExecutableComments, ran]
  dsimp only [Bind.bind, Except.bind]
  rw [isLeft, joined]
  rfl

/-! ## Back to the source -/

/-- Whether the comment of a statement is put back as it was: nothing but blanks stand behind it, and its body is read as
one statement that begins and ends where the comment did. -/
def Part.restorable (part : Part) : Bool :=
  match part.comment with
  | none => true
  | some place =>
    let body := (place.record part.statement 0).body
    let trail := part.statement.drop (place.start + place.size)
    trail.all isSpace && !opensTrivia false (body.length + trail.length) (body ++ trail ++ part.behind) &&
      statementLength 0 (body ++ trail ++ part.behind) = body.length + trail.length

theorem trimRight_blanks {body trail : Text} (blank : ∀ byte ∈ trail, isSpace byte) :
    trimRight (body ++ trail) = trimRight body := by
  rw [trimRight, trimRight, List.rdropWhile, List.rdropWhile, List.reverse_append,
    List.dropWhile_append_of_pos fun byte listed => blank byte (List.mem_reverse.mp listed)]

/-- A statement, and the text behind it in the source and in the text for the parser. -/
inductive Behind : Text → Text → Prop where
  | last : Behind [] []
  | more (behind other : Text) : Behind (Byte.semicolon :: behind) (Byte.semicolon :: other)

theorem Behind.statementLength {statement behind other : Text} (both : Behind behind other)
    (ends : Mysql.statementLength 0 (statement ++ behind) = statement.length) :
    Mysql.statementLength 0 (statement ++ other) = statement.length := by
  cases both with
  | last => exact ends
  | more => exact statementLength_local ends

theorem Behind.leading {statement behind other : Text} (both : Behind behind other)
    (ends : Mysql.statementLength 0 (statement ++ behind) = statement.length) :
    Part.leading ⟨statement, other⟩ = Part.leading ⟨statement, behind⟩ := by
  cases both with
  | last => rfl
  | more => exact triviaLength_local ends

theorem recordedFrom_later (index : Nat) (parts : List Part) :
    ∀ comment ∈ recordedFrom index parts, index ≤ comment.statementIndex := by
  induction parts generalizing index with
  | nil => exact fun comment listed => absurd listed List.not_mem_nil
  | cons part parts inductionHypothesis =>
    intro comment listed
    rw [recordedFrom, List.mem_append, Option.mem_toList] at listed
    cases listed with
    | inl own =>
      obtain ⟨place, found, rfl⟩ := Option.map_eq_some_iff.mp own
      exact le_rfl
    | inr later => exact (Nat.le_add_right _ _).trans (inductionHypothesis _ comment later)

/-- A statement that was not recorded is passed again. -/
theorem code_turn {behind other : Text} {statement : Text} (both : Behind behind other)
    (ends : statementLength 0 (statement ++ behind) = statement.length)
    (code : Part.comment ⟨statement, behind⟩ = none) (pending : List ExecutableComment)
    (later : ∀ comment ∈ pending,
      index + (if Part.counts ⟨statement, behind⟩ then 1 else 0) ≤ comment.statementIndex) :
    RestoreTurn index ⟨statement, other⟩ pending statement pending
      (index + if Part.counts ⟨statement, behind⟩ then 1 else 0) := by
  have leading := both.leading ends
  have counts : Part.counts ⟨statement, behind⟩ = decide (Part.leading ⟨statement, behind⟩ < statement.length) := by
    rw [Part.counts, code]
    rfl
  by_cases present : Part.leading ⟨statement, behind⟩ < statement.length
  · rw [counts, decide_eq_true present] at later ⊢
    refine .passed ?_ fun comment listed => ?_
    · intro blank
      have stops : isSpace (byteAt (statement ++ behind) (Part.leading ⟨statement, behind⟩)) = false :=
        triviaLength_stops present (by rw [List.length_append]; exact Nat.lt_add_right _ present)
      rw [Part.body, trimRight, List.rdropWhile_eq_nil_iff, leading, drop_eq_byteAt present] at blank
      rw [byteAt_append_left present, blank _ List.mem_cons_self] at stops
      cases stops
    · have := later comment (List.mem_of_mem_head? listed)
      simp at this
      omega
  · rw [counts, decide_eq_false present]
    refine .blank ?_
    have : statement.drop (Part.leading ⟨statement, other⟩) = [] := List.drop_eq_nil_of_le (by rw [leading]; omega)
    rw [Part.body, this]
    rfl

theorem triviaLength_code (room : Nat) {text : Text} (code : opensTrivia false room text = false)
    (head : isSpace (byteAt text 0) = false) : triviaLength false 0 room text = 0 := by
  cases room with
  | zero => rfl
  | succ room =>
    cases text with
    | nil => rfl
    | cons byte rest =>
      rw [triviaLength, if_neg, code, Bool.false_and, if_neg Bool.false_ne_true]
      rw [show isSpace byte = false from head]
      exact Bool.false_ne_true

/-- How a restorable comment is read in the text for the parser. -/
structure Reread (part : Part) (place : StatementComment) (other : Text) : Prop where
  ends : statementLength 0 (part.parsed ++ other) = part.parsed.length
  leading : Part.leading ⟨part.parsed, other⟩ = place.start
  body : Part.body ⟨part.parsed, other⟩ = (place.record part.statement 0).body

theorem comment_reread {place : StatementComment} {other : Text} (both : Behind part.behind other)
    (found : part.comment = some place) (restorable : part.restorable) : Reread part place other := by
  obtain ⟨holds, -, fits, -⟩ := Part.comment_some found 0
  rw [Part.restorable, found] at restorable
  simp only [Bool.and_eq_true, Bool.not_eq_true', decide_eq_true_eq, List.all_eq_true] at restorable
  obtain ⟨⟨blank, code⟩, ends⟩ := restorable
  have isParsed : part.parsed = part.statement.take place.start ++ ((place.record part.statement 0).body ++
      part.statement.drop (place.start + place.size)) := by
    rw [Part.parsed, found]
    exact List.append_assoc _ _ _
  have isLead : (part.statement.take place.start).length = place.start := List.length_take_of_le (by omega)
  have present : 0 < (place.record part.statement 0).body.length := List.length_pos_iff.mpr holds.proper.present
  have trivia := holds.lead
  have head := holds.proper.head
  have trimmed := holds.proper.trimmed
  generalize part.statement.take place.start = lead at *
  generalize part.statement.drop (place.start + place.size) = trail at *
  generalize isBody : (place.record part.statement 0).body = body at *
  rw [← List.length_append] at ends code
  have reads := both.statementLength ends
  have leading : Part.leading ⟨part.parsed, other⟩ = place.start := by
    rw [Part.leading, skipLeadingTrivia, isParsed]
    dsimp only
    have opens : opensTrivia false (body ++ trail).length (body ++ trail ++ other) = false := by
      have nonempty : body ++ trail ≠ [] := by
        rw [ne_eq, ← List.length_eq_zero_iff, List.length_append]
        omega
      generalize isBehind : part.behind = behind at both code
      cases both with
      | last => exact code
      | more => exact (opensTrivia_local nonempty).trans code
    rw [List.length_append, List.append_assoc, trivia.skipped, isLead, triviaLength_code _ opens]
    · rfl
    · rwa [List.append_assoc, byteAt_append_left present]
  refine ⟨?_, leading, ?_⟩
  · rw [isParsed, List.append_assoc, trivia.statementLength, reads]
    simp only [List.length_append]
  · rw [Part.body, leading, isBody]
    dsimp only
    rw [isParsed, ← isLead, List.drop_left, trimRight_blanks blank, trimmed]

/-- A restorable comment is wrapped again. -/
theorem comment_turn {place : StatementComment} {other : Text} (found : part.comment = some place)
    (reread : Reread part place other) (pending : List ExecutableComment) :
    RestoreTurn index ⟨part.parsed, other⟩ (place.record part.statement index :: pending) part.statement pending
      (index + 1) := by
  obtain ⟨holds, -, fits, -⟩ := Part.comment_some found index
  have isBody : Part.body ⟨part.parsed, other⟩ = (place.record part.statement index).body := reread.body
  have turn := @RestoreTurn.wrapped index ⟨part.parsed, other⟩ (place.record part.statement index) pending
    (by rw [isBody]; exact holds.proper.present) rfl holds.proper.valid
  have isLead : (part.statement.take place.start).length = place.start := List.length_take_of_le (by omega)
  have isParsed : part.parsed = part.statement.take place.start ++ (place.record part.statement index).body ++
      part.statement.drop (place.start + place.size) := by
    rw [Part.parsed, found]
    rfl
  have front : part.parsed.take place.start = part.statement.take place.start := by
    rw [isParsed, List.append_assoc, List.take_left' isLead]
  have rest : part.parsed.drop (place.start + (place.record part.statement index).body.length) =
      part.statement.drop (place.start + place.size) := by
    rw [isParsed, List.drop_left' (by rw [List.length_append, isLead])]
  rw [reread.leading, isBody, ExecutableComment.wrap_body] at turn
  dsimp only at turn
  rwa [front, rest, ← holds.text] at turn

/-- A statement of the source is one of the text for the parser, and the second pass gives it back. -/
theorem part_turn {other : Text} (both : Behind part.behind other)
    (ends : statementLength 0 (part.statement ++ part.behind) = part.statement.length) (restorable : part.restorable)
    (pending : List ExecutableComment)
    (later : ∀ comment ∈ pending, index + (if part.counts then 1 else 0) ≤ comment.statementIndex) :
    statementLength 0 (part.parsed ++ other) = part.parsed.length ∧
      RestoreTurn index ⟨part.parsed, other⟩ ((part.recorded index).toList ++ pending) part.statement pending
        (index + if part.counts then 1 else 0) := by
  cases found : part.comment with
  | none =>
    have isParsed : part.parsed = part.statement := by
      rw [Part.parsed, found]
    rw [isParsed, Part.recorded_none found]
    exact ⟨both.statementLength ends, code_turn both ends found pending later⟩
  | some place =>
    have reread := comment_reread both found restorable
    have counts : part.counts = true := by
      rw [Part.counts, found]
      rfl
    rw [Part.recorded_some found, counts]
    exact ⟨reread.ends, comment_turn found reread pending⟩

theorem parsed_ne_nil (present : part.statement ≠ []) : part.parsed ≠ [] := by
  cases found : part.comment with
  | none =>
    rw [Part.parsed, found]
    exact present
  | some place =>
    rw [Part.parsed, found]
    intro empty
    have := (Part.comment_some found 0).1.proper.present
    simp only [List.append_eq_nil_iff] at empty
    exact this empty.1.2

/-- The second pass over the text for the parser gives the source back. -/
theorem parsedFrom_restores (turns index : Nat) (text : Text) (enough : text.length ≤ turns)
    (restorable : ∀ part ∈ statementsFrom turns text, part.restorable) :
    Restores index (recordedFrom index (statementsFrom turns text)) (parsedFrom turns text) text [] := by
  induction turns generalizing index text with
  | zero =>
    obtain rfl := List.length_eq_zero_iff.mp (Nat.le_zero.mp enough)
    exact .done
  | succ turns inductionHypothesis =>
    by_cases present : text = []
    · subst present
      exact .done
    · rw [statementsFrom, if_neg present] at restorable ⊢
      rw [parsedFrom, if_neg present]
      dsimp only at restorable ⊢
      rw [recordedFrom]
      have longer := List.length_pos_iff.mpr present
      have cut := statementLength_le 0 text
      have isBehind := drop_statementLength 0 text
      have whole := List.take_append_drop (statementLength 0 text) text
      have ends : statementLength 0 (text.take (statementLength 0 text) ++ text.drop (statementLength 0 text)) =
          (text.take (statementLength 0 text)).length := by
        rw [whole, List.length_take_of_le cut]
      have own := restorable _ List.mem_cons_self
      have later := inductionHypothesis
        (index + if Part.counts ⟨text.take (statementLength 0 text), text.drop (statementLength 0 text)⟩ then 1 else 0)
        (text.drop (statementLength 0 text + 1)) (by rw [List.length_drop]; omega)
        fun part listed => restorable part (List.mem_cons_of_mem _ listed)
      have indexes := recordedFrom_later
        (index + if Part.counts ⟨text.take (statementLength 0 text), text.drop (statementLength 0 text)⟩ then 1 else 0)
        (statementsFrom turns (text.drop (statementLength 0 text + 1)))
      rw [← List.drop_drop] at later indexes ⊢
      generalize text.take (statementLength 0 text) = statement at *
      generalize text.drop (statementLength 0 text) = behind at *
      cases isBehind with
      | inl empty =>
        subst empty
        rw [List.append_nil] at whole
        subst whole
        obtain ⟨again, turn⟩ := part_turn .last ends own [] fun comment listed => absurd listed List.not_mem_nil
        rw [List.drop_nil, statementsFrom_nil, recordedFrom, parsedFrom_nil, List.take_nil]
        simp only [List.append_nil] at again turn ⊢
        exact .last (parsed_ne_nil present) again turn
      | inr more =>
        obtain ⟨more, rfl⟩ := more
        rw [List.drop_succ_cons, List.drop_zero] at later indexes ⊢
        obtain ⟨again, turn⟩ := part_turn (.more more (parsedFrom turns more)) ends own _ indexes
        rw [← whole]
        have restores := Restores.more again turn later
        rwa [List.take_succ_cons, List.take_zero, List.append_assoc]

/-- Where every recorded comment is restorable, the second pass undoes the first one. -/
theorem executable_comments_round_trip (sql : Text) (restorable : ∀ part ∈ statements sql, part.restorable) :
    ∃ output, rewriteExecutableComments sql = .ok output ∧
      ∀ text comments, output = some (text, comments) → restoreExecutableComments text comments = .ok sql := by
  refine ⟨_, rewriteExecutableComments_eq sql, fun text comments isOutput => ?_⟩
  split_ifs at isOutput with unrecorded
  cases isOutput
  have restores := parsedFrom_restores sql.length 0 sql le_rfl restorable
  rw [← statements] at restores
  rw [restoreExecutableComments_eq restores, if_neg unrecorded]
  rfl

/-- A version, a body that needs the space in front of the comment's end, and a statement that is no comment. -/
theorem executable_comments_round_trip_version : ∃ output,
    rewriteExecutableComments (ascii "/*!40101 SET x = 1 */; SELECT 2") = .ok output ∧
      ∀ text comments, output = some (text, comments) →
        restoreExecutableComments text comments = .ok (ascii "/*!40101 SET x = 1 */; SELECT 2") :=
  executable_comments_round_trip (ascii "/*!40101 SET x = 1 */; SELECT 2") (by decide +kernel)

/-! ## Comments of another text -/

/-- A text in which a part is wrapped for each comment, in their order. -/
inductive Wraps : Text → List ExecutableComment → Text → Prop where
  | last (text : Text) : Wraps text [] text
  | comment {sql out : Text} {comment : ExecutableComment} {comments : List ExecutableComment} (gap body : Text)
      (present : body ≠ []) (trimmed : trimRight body = body) (rest : Wraps sql comments out) :
      Wraps (gap ++ body ++ sql) (comment :: comments) (gap ++ comment.wrap body ++ out)

theorem Wraps.behind {comments : List ExecutableComment} (wraps : Wraps sql comments out) (front : Text) :
    Wraps (front ++ sql) comments (front ++ out) := by
  cases wraps with
  | last => exact .last _
  | comment gap body present trimmed rest =>
    rw [← List.append_assoc, ← List.append_assoc, ← List.append_assoc, ← List.append_assoc]
    exact .comment (front ++ gap) body present trimmed rest

/-- Without a comment nothing is wrapped. -/
theorem Wraps.unchanged (wraps : Wraps sql [] out) : sql = out := by
  cases wraps
  rfl

/-- What one statement adds. -/
theorem RestoreTurn.wraps (turn : RestoreTurn index part pending piece left next) {later : List ExecutableComment}
    (rest : Wraps sql later out) :
    ∃ used, pending = used ++ left ∧ Wraps (part.statement ++ sql) (used ++ later) (piece ++ out) := by
  cases turn with
  | blank => exact ⟨[], rfl, rest.behind _⟩
  | passed => exact ⟨[], rfl, rest.behind _⟩
  | @wrapped comment left present own valid =>
    refine ⟨[comment], rfl, ?_⟩
    have wrapped := @Wraps.comment _ _ comment _ (part.statement.take part.leading) part.body present
      (List.rdropWhile_idempotent _ _) (rest.behind (part.statement.drop (part.leading + part.body.length)))
    have isBody : part.statement.drop part.leading =
        part.body ++ part.statement.drop (part.leading + part.body.length) := by
      obtain ⟨blanks, parts⟩ := @List.rdropWhile_prefix _ isSpace (part.statement.drop part.leading)
      rw [← List.drop_drop, Part.body, trimRight]
      conv => enter [2, 2, 2]; rw [← parts]
      rw [List.drop_left, parts]
    have whole := List.take_append_drop part.leading part.statement
    rw [isBody] at whole
    conv => enter [1, 1]; rw [← whole]
    simp only [List.append_assoc] at wrapped ⊢
    exact wrapped

theorem Restores.wraps (restores : Restores index pending text out left) :
    ∃ used, pending = used ++ left ∧ Wraps text used out := by
  induction restores with
  | done => exact ⟨[], rfl, .last []⟩
  | last present ends turn =>
    obtain ⟨used, isPending, wraps⟩ := turn.wraps (.last [])
    simp only [List.append_nil] at wraps
    exact ⟨used, isPending, wraps⟩
  | more ends turn rest inductionHypothesis =>
    obtain ⟨later, isMiddle, wraps⟩ := inductionHypothesis
    obtain ⟨used, isPending, all⟩ := turn.wraps (wraps.behind [Byte.semicolon])
    refine ⟨used ++ later, ?_, all⟩
    rw [isPending, isMiddle, List.append_assoc]

/-- The statements that are not blank. -/
def statementCount (parts : List Part) : Nat :=
  (parts.filter fun part => part.body ≠ []).length

/-- Comments in the order of their statements, none before `index`. -/
structure Numbered (index : Nat) (pending : List ExecutableComment) : Prop where
  valid : ∀ comment ∈ pending, comment.valid
  first : ∀ comment ∈ pending, index ≤ comment.statementIndex
  increasing : pending.Pairwise fun left right => left.statementIndex < right.statementIndex

theorem Numbered.whole (numbered : Numbered index pending) :
    pending.filter (fun comment => index + statementCount [] ≤ comment.statementIndex) = pending :=
  List.filter_eq_self.mpr fun comment listed => decide_eq_true (numbered.first comment listed)

theorem statementCount_cons (part : Part) (parts : List Part) :
    statementCount (part :: parts) = (if part.body ≠ [] then 1 else 0) + statementCount parts := by
  by_cases blank : part.body = []
  · rw [statementCount, List.filter_cons_of_neg (by simpa using blank), if_neg (not_not.mpr blank), Nat.zero_add,
      statementCount]
  · rw [statementCount, List.filter_cons_of_pos (by simpa using blank), if_pos blank, List.length_cons, Nat.add_comm,
      statementCount]

/-- A statement takes the comment of its index, if there is one. -/
theorem Numbered.turn (numbered : Numbered index pending) (part : Part) :
    ∃ piece left, RestoreTurn index part pending piece left (index + if part.body ≠ [] then 1 else 0) ∧
      Numbered (index + if part.body ≠ [] then 1 else 0) left ∧
      ∀ bound, index + (if part.body ≠ [] then 1 else 0) ≤ bound →
        left.filter (fun comment => bound ≤ comment.statementIndex) =
          pending.filter fun comment => bound ≤ comment.statementIndex := by
  by_cases present : part.body = []
  · rw [if_neg (not_not.mpr present)]
    exact ⟨_, pending, .blank present, numbered, fun bound _ => rfl⟩
  · rw [if_pos present]
    cases pending with
    | nil =>
      refine ⟨_, [], .passed present fun comment listed => ?_, ⟨numbered.valid, fun comment listed => ?_,
        numbered.increasing⟩, fun bound _ => rfl⟩
      · cases listed
      · cases listed
    | cons comment pending =>
      have ahead := numbered.first comment List.mem_cons_self
      obtain ⟨least, increasing⟩ := List.pairwise_cons.mp numbered.increasing
      by_cases own : comment.statementIndex = index
      · refine ⟨_, pending, .wrapped present own (numbered.valid comment List.mem_cons_self), ⟨?_, ?_, increasing⟩, ?_⟩
        · exact fun other listed => numbered.valid other (List.mem_cons_of_mem _ listed)
        · intro other listed
          have := least other listed
          omega
        · intro bound atLeast
          rw [List.filter_cons_of_neg]
          rw [decide_eq_true_eq]
          omega
      · refine ⟨_, comment :: pending, .passed present fun other listed => ?_, ⟨numbered.valid, ?_, numbered.increasing⟩,
          fun bound _ => rfl⟩
        · cases listed
          exact own
        · intro other listed
          cases listed with
          | head => omega
          | tail _ listed =>
            have := least other listed
            omega

/-- What is left behind a text are the comments of statements that it does not have. -/
theorem restores_left (turns index : Nat) (text : Text) (enough : text.length ≤ turns) {pending : List ExecutableComment}
    (numbered : Numbered index pending) :
    ∃ out, Restores index pending text out
      (pending.filter fun comment => index + statementCount (statementsFrom turns text) ≤ comment.statementIndex) := by
  induction turns generalizing index text pending with
  | zero =>
    obtain rfl := List.length_eq_zero_iff.mp (Nat.le_zero.mp enough)
    rw [statementsFrom_nil, numbered.whole]
    exact ⟨[], .done⟩
  | succ turns inductionHypothesis =>
    by_cases present : text = []
    · subst present
      rw [statementsFrom_nil, numbered.whole]
      exact ⟨[], .done⟩
    · rw [statementsFrom, if_neg present]
      dsimp only
      have longer := List.length_pos_iff.mpr present
      have cut := statementLength_le 0 text
      have isBehind := drop_statementLength 0 text
      have parts := List.take_append_drop (statementLength 0 text) text
      have size : (text.take (statementLength 0 text)).length = statementLength 0 text := List.length_take_of_le cut
      obtain ⟨piece, left, turn, later, same⟩ :=
        numbered.turn ⟨text.take (statementLength 0 text), text.drop (statementLength 0 text)⟩
      rw [statementCount_cons, ← Nat.add_assoc]
      generalize index + (if Part.body ⟨text.take (statementLength 0 text), text.drop (statementLength 0 text)⟩ ≠ []
        then 1 else 0) = next at *
      obtain ⟨out, restores⟩ := inductionHypothesis next (text.drop (statementLength 0 text + 1))
        (by rw [List.length_drop]; omega) later
      rw [← List.drop_drop] at restores ⊢
      generalize text.take (statementLength 0 text) = statement at *
      generalize text.drop (statementLength 0 text) = behind at *
      cases isBehind with
      | inl empty =>
        subst empty
        rw [List.append_nil] at parts
        subst parts
        rw [List.drop_nil, statementsFrom_nil, ← same _ (Nat.le_add_right _ _), later.whole]
        exact ⟨piece, .last present size.symm turn⟩
      | inr more =>
        obtain ⟨more, rfl⟩ := more
        rw [List.drop_succ_cons, List.drop_zero] at restores ⊢
        rw [same _ (Nat.le_add_right _ _)] at restores
        rw [← parts] at size ⊢
        exact ⟨_, .more size.symm turn restores⟩

theorem recordedFrom_numbered (index : Nat) (parts : List Part) : Numbered index (recordedFrom index parts) := by
  refine ⟨fun comment listed => (recordedFrom_proper index parts comment listed).valid, recordedFrom_later index parts, ?_⟩
  induction parts generalizing index with
  | nil => exact .nil
  | cons part parts inductionHypothesis =>
    have later := inductionHypothesis (index + if part.counts then 1 else 0)
    rw [recordedFrom]
    cases found : part.comment with
    | none =>
      rw [Part.recorded_none found]
      exact later
    | some place =>
      have counts : part.counts = true := by
        rw [Part.counts, found]
        rfl
      rw [Part.recorded_some found]
      refine List.pairwise_cons.mpr ⟨fun comment listed => ?_, later⟩
      have atLeast := recordedFrom_later _ _ comment listed
      rw [counts] at atLeast
      exact Nat.lt_of_succ_le atLeast

theorem numbered_restored {comments : List ExecutableComment} (numbered : Numbered 0 comments) (sql : Text) :
    ((∀ comment ∈ comments, comment.statementIndex < statementCount (statements sql)) ∧
      ∃ out, restoreExecutableComments sql comments = .ok out ∧ Restores 0 comments sql out [] ∧ Wraps sql comments out) ∨
    ((∃ comment ∈ comments, statementCount (statements sql) ≤ comment.statementIndex) ∧
      restoreExecutableComments sql comments = .error statementMissing) := by
  obtain ⟨out, restores⟩ := restores_left sql.length 0 sql le_rfl numbered
  rw [← statements, Nat.zero_add] at restores
  by_cases placed : ∀ comment ∈ comments, comment.statementIndex < statementCount (statements sql)
  · have none_left : comments.filter (fun comment => statementCount (statements sql) ≤ comment.statementIndex) = [] := by
      refine List.filter_eq_nil_iff.mpr fun comment listed => ?_
      rw [decide_eq_true_eq, not_le]
      exact placed comment listed
    rw [none_left] at restores
    have ran := restoreExecutableComments_eq restores
    obtain ⟨used, isUsed, wraps⟩ := restores.wraps
    rw [List.append_nil] at isUsed
    subst isUsed
    refine .inl ⟨placed, out, ?_, restores, wraps⟩
    by_cases empty : comments = []
    · subst empty
      rw [ran, if_pos rfl, wraps.unchanged]
    · rwa [if_neg empty] at ran
  · have ran := restoreExecutableComments_eq restores
    push Not at placed
    obtain ⟨comment, listed, missing⟩ := placed
    refine .inr ⟨⟨comment, listed, missing⟩, ?_⟩
    rw [ran, if_neg (List.ne_nil_of_mem listed), if_pos]
    exact List.ne_nil_of_mem (List.mem_filter.mpr ⟨listed, decide_eq_true missing⟩)

/-- Whatever text the deparser hands back, the second pass wraps the statement at the index of each recorded comment, in
order and without its blanks, and changes nothing else, or reports that a recorded statement is not in the text. -/
theorem executable_comments_restored {source parsed : Text} {comments : List ExecutableComment}
    (recorded : rewriteExecutableComments source = .ok (some (parsed, comments))) (sql : Text) :
    ((∀ comment ∈ comments, comment.statementIndex < statementCount (statements sql)) ∧
      ∃ out, restoreExecutableComments sql comments = .ok out ∧ Restores 0 comments sql out [] ∧ Wraps sql comments out) ∨
    ((∃ comment ∈ comments, statementCount (statements sql) ≤ comment.statementIndex) ∧
      restoreExecutableComments sql comments = .error statementMissing) := by
  rw [rewriteExecutableComments_eq, Except.ok.injEq] at recorded
  split_ifs at recorded
  cases recorded
  exact numbered_restored (recordedFrom_numbered 0 (statements source)) sql

/-- The comment is the second statement: it is put around the second one of a text, and is missing from a text with one. -/
theorem executable_comments_restored_second :
    (restoreExecutableComments (ascii "SELECT 1; select 3 ;") [⟨1, ascii "/*!SELECT 2*/", 3, 8⟩] =
        .ok (ascii "SELECT 1; /*!select 3*/ ;") ∧
      Restores 0 [⟨1, ascii "/*!SELECT 2*/", 3, 8⟩] (ascii "SELECT 1; select 3 ;") (ascii "SELECT 1; /*!select 3*/ ;") []) ∧
      restoreExecutableComments (ascii "SELECT 1") [⟨1, ascii "/*!SELECT 2*/", 3, 8⟩] = .error statementMissing := by
  have recorded : rewriteExecutableComments (ascii "SELECT 1;/*!SELECT 2*/") =
      .ok (some (ascii "SELECT 1;SELECT 2", [⟨1, ascii "/*!SELECT 2*/", 3, 8⟩])) := by decide +kernel
  constructor
  · have two : statementCount (statements (ascii "SELECT 1; select 3 ;")) = 2 := by decide +kernel
    have isOut : restoreExecutableComments (ascii "SELECT 1; select 3 ;") [⟨1, ascii "/*!SELECT 2*/", 3, 8⟩] =
        .ok (ascii "SELECT 1; /*!select 3*/ ;") := by decide +kernel
    cases executable_comments_restored recorded (ascii "SELECT 1; select 3 ;") with
    | inl placed =>
      obtain ⟨-, out, ran, restores, -⟩ := placed
      rw [isOut] at ran
      cases ran
      exact ⟨isOut, restores⟩
    | inr missing =>
      obtain ⟨⟨comment, listed, beyond⟩, -⟩ := missing
      rw [two, List.mem_singleton.mp listed] at beyond
      exact absurd beyond (by decide)
  · have count : statementCount (statements (ascii "SELECT 1")) = 1 := by decide +kernel
    cases executable_comments_restored recorded (ascii "SELECT 1") with
    | inl placed =>
      have := placed.1 _ List.mem_cons_self
      rw [count] at this
      exact absurd this (by decide)
    | inr missing => exact missing.2

end SqlParser.Mysql
