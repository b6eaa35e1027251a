import SqlParser.Core.CertifiedInsertSource

/-! # What the readers of a certified INSERT depend on

A reader sees what it accepts and at most the first byte behind it. So it accepts the same piece in
front of any other rest that starts with the same byte.
-/

namespace SqlParser.Core

open SqlParser.PgQuery

/-! ## Comments -/

theorem certifiedBlock_local {text rest : Text} (read : certifiedBlock text = some rest) :
    ∃ first content, text = first :: content ++ rest ∧ ∀ other, certifiedBlock (first :: content ++ other) = some other := by
  fun_induction certifiedBlock text with
  | case1 first second tail closes =>
    cases read
    refine ⟨first, [second], rfl, fun other => ?_⟩
    rw [List.cons_append, List.singleton_append, certifiedBlock, if_pos closes]
  | case2 => cases read
  | case3 first second tail stillOpen inside inductionHypothesis =>
    obtain ⟨next, content, split, accepts⟩ := inductionHypothesis read
    rw [List.cons_append] at split
    cases split
    refine ⟨first, second :: content, rfl, fun other => ?_⟩
    rw [List.cons_append, List.cons_append, certifiedBlock, if_neg stillOpen, if_neg inside, ← List.cons_append]
    exact accepts other
  | case4 => cases read

theorem certifiedLine_local {text rest : Text} (read : certifiedLine text = some rest) :
    ∃ content, text = content ++ rest ∧ (∀ byte ∈ rest.head?, byte = 10 ∨ byte = 13) ∧
      ∀ byte other, byte = 10 ∨ byte = 13 → certifiedLine (content ++ byte :: other) = some (byte :: other) := by
  fun_induction certifiedLine text with
  | case1 =>
    cases read
    refine ⟨[], rfl, by simp, fun byte other ends => ?_⟩
    rw [List.nil_append, certifiedLine, if_pos ends]
  | case2 byte tail ends =>
    cases read
    refine ⟨[], rfl, by simpa using ends, fun byte other ends => ?_⟩
    rw [List.nil_append, certifiedLine, if_pos ends]
  | case3 => cases read
  | case4 byte tail inside plain inductionHypothesis =>
    obtain ⟨content, rfl, ends, accepts⟩ := inductionHypothesis read
    refine ⟨byte :: content, rfl, ends, fun next other ends => ?_⟩
    rw [List.cons_append, certifiedLine, if_neg inside, if_neg plain]
    exact accepts next other ends

/-! ## Gaps -/

/-- What a gap can be behind its spaces. -/
theorem certifiedGap_cases {text here : Text} (read : certifiedGap text = some here) :
    (gapHead (text.dropWhile isSpace) = .done ∧ here = text.dropWhile isSpace) ∨
    (∃ inside rest, text.dropWhile isSpace = 47 :: 42 :: inside ∧ ¬ (inside.head? = some 33 ∨ inside.head? = some 43) ∧
      certifiedBlock inside = some rest ∧ certifiedGap rest = some here) ∨
    (∃ inside rest, text.dropWhile isSpace = 45 :: 45 :: inside ∧ inside.head?.any (· ≤ 0x20) = true ∧
      certifiedLine inside = some rest ∧ certifiedGap rest = some here) := by
  rw [certifiedGap] at read
  split at read
  next inside found =>
    rw [Option.ite_none_left_eq_some] at read
    obtain ⟨plain, read⟩ := read
    split at read
    next => cases read
    next rest block => exact .inr (.inl ⟨inside, rest, gapHead_block found, plain, block, read⟩)
  next inside found =>
    split at read
    next => cases read
    next rest line => exact .inr (.inr ⟨inside, rest, (gapHead_line found).1, (gapHead_line found).2, line, read⟩)
  next found =>
    cases read
    exact .inl ⟨found, rfl⟩

theorem certifiedGap_done {text : Text} (found : gapHead (text.dropWhile isSpace) = .done) :
    certifiedGap text = some (text.dropWhile isSpace) := by
  rw [certifiedGap]
  split
  next inside block => rw [found] at block; cases block
  next inside line => rw [found] at line; cases line
  next => rfl

theorem certifiedGap_block {text inside rest : Text} (here : text.dropWhile isSpace = 47 :: 42 :: inside)
    (plain : ¬ (inside.head? = some 33 ∨ inside.head? = some 43)) (read : certifiedBlock inside = some rest) :
    certifiedGap text = certifiedGap rest := by
  have found : gapHead (text.dropWhile isSpace) = .block inside := by
    rw [here, gapHead, if_pos ⟨rfl, rfl⟩]
  rw [certifiedGap]
  split
  next other block =>
    rw [found] at block
    cases block
    rw [if_neg plain]
    split
    next failed => rw [read] at failed; cases failed
    next other block => rw [read] at block; cases block; rfl
  next other line => rw [found] at line; cases line
  next done => rw [found] at done; cases done

theorem certifiedGap_line {text inside rest : Text} (here : text.dropWhile isSpace = 45 :: 45 :: inside)
    (blank : inside.head?.any (· ≤ 0x20) = true) (read : certifiedLine inside = some rest) :
    certifiedGap text = certifiedGap rest := by
  have found : gapHead (text.dropWhile isSpace) = .line inside := by
    rw [here, gapHead, if_neg (by decide), if_pos ⟨rfl, rfl, blank⟩]
  rw [certifiedGap]
  split
  next other block => rw [found] at block; cases block
  next other line =>
    rw [found] at line
    cases line
    split
    next failed => rw [read] at failed; cases failed
    next other line => rw [read] at line; cases line; rfl
  next done => rw [found] at done; cases done

/-- A gap is a piece in front of what it leaves. -/
theorem certifiedGap_suffix {text here : Text} (read : certifiedGap text = some here) : here <:+ text := by
  induction length : text.length using Nat.strong_induction_on generalizing text with
  | _ size inductionHypothesis =>
    have spaces : text.dropWhile isSpace <:+ text := List.dropWhile_suffix isSpace
    have bound := spaces.length_le
    obtain ⟨_, rfl⟩ | ⟨inside, rest, start, _, block, behind⟩ | ⟨inside, rest, start, _, line, behind⟩ :=
      certifiedGap_cases read
    · exact spaces
    · obtain ⟨first, content, rfl, _⟩ := certifiedBlock_local block
      rw [start] at spaces bound
      simp only [List.length_cons, List.length_append] at bound
      have shorter := inductionHypothesis rest.length (by omega) behind rfl
      have within : rest <:+ 47 :: 42 :: (first :: content ++ rest) := ⟨47 :: 42 :: first :: content, by simp⟩
      exact (shorter.trans within).trans spaces
    · obtain ⟨content, rfl, _, _⟩ := certifiedLine_local line
      rw [start] at spaces bound
      simp only [List.length_cons, List.length_append] at bound
      have shorter := inductionHypothesis rest.length (by omega) behind rfl
      have within : rest <:+ 45 :: 45 :: (content ++ rest) := ⟨45 :: 45 :: content, by simp⟩
      exact (shorter.trans within).trans spaces

theorem certifiedGap_head {text behind : Text} {byte : UInt8} (read : certifiedGap text = some (byte :: behind)) :
    isSpace byte = false := by
  induction length : text.length using Nat.strong_induction_on generalizing text with
  | _ size inductionHypothesis =>
    have bound := (List.dropWhile_suffix isSpace (l := text)).length_le
    obtain ⟨_, here⟩ | ⟨inside, rest, start, _, block, further⟩ | ⟨inside, rest, start, _, line, further⟩ :=
      certifiedGap_cases read
    · have := List.head?_dropWhile_not isSpace text
      rw [← here] at this
      simpa using this
    · obtain ⟨first, content, rfl, _⟩ := certifiedBlock_local block
      rw [start] at bound
      simp only [List.length_cons, List.length_append] at bound
      exact inductionHypothesis rest.length (by omega) further rfl
    · obtain ⟨content, rfl, _, _⟩ := certifiedLine_local line
      rw [start] at bound
      simp only [List.length_cons, List.length_append] at bound
      exact inductionHypothesis rest.length (by omega) further rfl

/-- The same gap stands in front of any other rest with the same first byte, if that byte starts no comment. -/
theorem certifiedGap_local {gap behind other : Text} {byte : UInt8}
    (read : certifiedGap (gap ++ byte :: behind) = some (byte :: behind)) (notSlash : byte ≠ 47) (notDash : byte ≠ 45) :
    certifiedGap (gap ++ byte :: other) = some (byte :: other) := by
  have solid := certifiedGap_head read
  induction length : gap.length using Nat.strong_induction_on generalizing gap with
  | _ size inductionHypothesis =>
    have drops (rest : Text) : (gap ++ byte :: rest).dropWhile isSpace = gap.dropWhile isSpace ++ byte :: rest := by
      rw [List.dropWhile_append]
      split
      next empty => rw [List.isEmpty_iff.mp empty, List.nil_append, List.dropWhile_cons_of_neg (by simpa using solid)]
      next => rfl
    have bound := (List.dropWhile_suffix isSpace (l := gap)).length_le
    obtain ⟨_, here⟩ | ⟨inside, rest, start, plain, block, further⟩ | ⟨inside, rest, start, found, line, further⟩ :=
      certifiedGap_cases read
    · rw [drops] at here
      have empty : gap.dropWhile isSpace = [] := by
        have := congrArg List.length here
        rw [List.length_append] at this
        exact List.length_eq_zero_iff.mp (by omega)
      have alone : (gap ++ byte :: other).dropWhile isSpace = byte :: other := by rw [drops, empty, List.nil_append]
      have done : gapHead ((gap ++ byte :: other).dropWhile isSpace) = .done := by
        rw [alone, gapHead.eq_def]
        split
        next first second tail equal =>
          cases equal
          rw [if_neg fun slash => notSlash slash.1, if_neg fun dash => notDash dash.1]
        next => rfl
      rw [certifiedGap_done done, alone]
    · obtain ⟨inner, rfl⟩ := certifiedGap_suffix further
      obtain ⟨first, content, rfl, accepts⟩ := certifiedBlock_local block
      rw [drops, show 47 :: 42 :: (first :: content ++ (inner ++ byte :: behind)) =
        (47 :: 42 :: (first :: content ++ inner)) ++ byte :: behind by simp] at start
      have tail := List.append_cancel_right start
      have shorter := congrArg List.length tail
      simp only [List.length_cons, List.length_append] at shorter
      have begins : (gap ++ byte :: other).dropWhile isSpace = 47 :: 42 :: (first :: content ++ (inner ++ byte :: other)) := by
        rw [drops, tail]
        simp
      rw [certifiedGap_block begins plain (accepts _)]
      exact inductionHypothesis inner.length (by omega) further rfl
    · obtain ⟨inner, rfl⟩ := certifiedGap_suffix further
      obtain ⟨content, rfl, ends, accepts⟩ := certifiedLine_local line
      -- the end of the line is a space, so that the gap does not stop there
      cases inner with
      | nil =>
        have newline := ends byte rfl
        obtain rfl | rfl := newline <;> cases solid
      | cons newline inner =>
        have newlineEnds := ends newline rfl
        rw [drops, show 45 :: 45 :: (content ++ (newline :: inner ++ byte :: behind)) =
          (45 :: 45 :: (content ++ newline :: inner)) ++ byte :: behind by simp] at start
        have tail := List.append_cancel_right start
        have shorter := congrArg List.length tail
        simp only [List.length_cons, List.length_append] at shorter
        have begins : (gap ++ byte :: other).dropWhile isSpace =
            45 :: 45 :: (content ++ newline :: (inner ++ byte :: other)) := by
          rw [drops, tail]
          simp
        have blank : (content ++ newline :: (inner ++ byte :: other)).head?.any (· ≤ 0x20) = true := by
          cases content with
          | nil => exact found
          | cons => exact found
        rw [certifiedGap_line begins blank (accepts newline _ newlineEnds)]
        exact inductionHypothesis (newline :: inner).length (by rw [List.length_cons]; omega) further rfl

theorem certifiedGap_idem {text here : Text} (read : certifiedGap text = some here) : certifiedGap here = some here := by
  induction length : text.length using Nat.strong_induction_on generalizing text with
  | _ size inductionHypothesis =>
    have bound := (List.dropWhile_suffix isSpace (l := text)).length_le
    obtain ⟨done, rfl⟩ | ⟨inside, rest, start, _, block, further⟩ | ⟨inside, rest, start, _, line, further⟩ :=
      certifiedGap_cases read
    · have same : (text.dropWhile isSpace).dropWhile isSpace = text.dropWhile isSpace := List.dropWhile_idempotent isSpace text
      rw [certifiedGap_done (by rw [same]; exact done), same]
    · have := certifiedBlock_length block
      rw [start] at bound
      simp only [List.length_cons] at bound
      exact inductionHypothesis rest.length (by omega) further rfl
    · have := certifiedLine_length line
      rw [start] at bound
      simp only [List.length_cons] at bound
      exact inductionHypothesis rest.length (by omega) further rfl

/-- What a gap leaves, with the piece that it takes. -/
theorem certifiedGap_piece {rest behind : Text} {byte : UInt8} (read : certifiedGap rest = some (byte :: behind))
    (notSlash : byte ≠ 47) (notDash : byte ≠ 45) :
    ∃ gap, rest = gap ++ byte :: behind ∧ ∀ other, certifiedGap (gap ++ byte :: other) = some (byte :: other) := by
  obtain ⟨gap, rfl⟩ := certifiedGap_suffix read
  exact ⟨gap, rfl, fun other => certifiedGap_local read notSlash notDash⟩

/-! ## Words and punctuation -/

/-- A run of bytes ends where it ended, if the rest behind it starts with the same byte. -/
theorem run_local (accepts : UInt8 → Bool) {text other : Text} (same : other.head? = (text.dropWhile accepts).head?) :
    (text.takeWhile accepts ++ other).takeWhile accepts = text.takeWhile accepts ∧
      (text.takeWhile accepts ++ other).dropWhile accepts = other := by
  have stops : other.takeWhile accepts = [] ∧ other.dropWhile accepts = other := by
    have refused := List.head?_dropWhile_not accepts text
    rw [← same] at refused
    cases other with
    | nil => exact ⟨rfl, rfl⟩
    | cons byte other =>
      have no : accepts byte = false := by simpa using refused
      rw [List.takeWhile_cons, List.dropWhile_cons, no]
      exact ⟨rfl, rfl⟩
  have all : ∀ byte ∈ text.takeWhile accepts, accepts byte = true := fun byte member => List.mem_takeWhile_imp member
  rw [List.takeWhile_append_of_pos all, List.dropWhile_append_of_pos all, stops.1, stops.2, List.append_nil]
  exact ⟨rfl, rfl⟩

theorem identifierChar_solid {byte : UInt8} (first : certifiedIdentifierChar byte true = true) :
    byte ≠ 47 ∧ byte ≠ 45 ∧ certifiedIdentifierChar byte false = true := by
  refine ⟨?_, ?_, ?_⟩
  · rintro rfl
    revert first
    decide
  · rintro rfl
    revert first
    decide
  · simp only [certifiedIdentifierChar, Bool.not_true, Bool.false_and, Bool.or_false] at first
    simp only [certifiedIdentifierChar, Bool.not_false, Bool.true_and, first, Bool.true_or]

/-- A word is a run of bytes that does not start a comment. -/
theorem takeWord_piece {word here after : Text} (read : takeWord word here = some after) :
    ∃ first run, here = first :: run ++ after ∧ first ≠ 47 ∧ first ≠ 45 ∧
      ∀ other, other.head? = after.head? → takeWord word (first :: run ++ other) = some other := by
  rw [takeWord, Option.ite_none_right_eq_some] at read
  obtain ⟨⟨starts, spelled⟩, equal⟩ := read
  cases equal
  cases here with
  | nil => cases starts
  | cons first tail =>
    rw [List.head?_cons, Option.any_some] at starts
    obtain ⟨notSlash, notDash, continues⟩ := identifierChar_solid starts
    have run : (first :: tail).takeWhile (certifiedIdentifierChar · false) =
        first :: tail.takeWhile (certifiedIdentifierChar · false) := by
      rw [List.takeWhile_cons, continues, if_pos rfl]
    refine ⟨first, tail.takeWhile (certifiedIdentifierChar · false), ?_, notSlash, notDash, fun other same => ?_⟩
    · rw [← run, List.takeWhile_append_dropWhile]
    · obtain ⟨taken, dropped⟩ := run_local (certifiedIdentifierChar · false) same
      rw [run] at taken dropped spelled
      rw [takeWord, taken, dropped, List.cons_append, List.head?_cons, Option.any_some, if_pos ⟨starts, spelled⟩]

theorem certifiedWord_piece {word : Option Text} {rest after : Text} (read : certifiedWord word rest = some after) :
    ∃ gap body, rest = gap ++ body ++ after ∧
      ∀ other, other.head? = after.head? → certifiedWord word (gap ++ body ++ other) = some other := by
  rw [certifiedWord.eq_def] at read
  split at read
  next word here left =>
    obtain ⟨first, run, rfl, notSlash, notDash, accepts⟩ := takeWord_piece read
    obtain ⟨gap, rfl, same⟩ := certifiedGap_piece left notSlash notDash
    refine ⟨gap, first :: run, by simp, fun other head => ?_⟩
    rw [List.append_assoc, certifiedWord.eq_def, List.cons_append, same, ← List.cons_append]
    exact accepts other head
  next => cases read

theorem certifiedPunctuation_piece {punctuation : UInt8} {rest after : Text}
    (read : certifiedPunctuation punctuation rest = some after) (notSlash : punctuation ≠ 47)
    (notDash : punctuation ≠ 45) :
    ∃ gap, rest = gap ++ [punctuation] ++ after ∧
      ∀ other, certifiedPunctuation punctuation (gap ++ [punctuation] ++ other) = some other := by
  rw [certifiedPunctuation] at read
  split at read
  next byte behind left =>
    rw [Option.ite_none_right_eq_some] at read
    obtain ⟨rfl, equal⟩ := read
    cases equal
    obtain ⟨gap, rfl, same⟩ := certifiedGap_piece left notSlash notDash
    refine ⟨gap, by simp, fun other => ?_⟩
    rw [List.append_assoc, List.singleton_append, certifiedPunctuation, same]
    exact if_pos rfl
  next => cases read

theorem certifiedName_piece {sql rest after : Text} {name : Option Text} {location : Int32}
    (read : certifiedName sql name location rest = some after) :
    ∃ gap body, rest = gap ++ body ++ after ∧ location = int32Position sql (body ++ after) ∧
      ∀ text other, other.head? = after.head? →
        certifiedName text name (int32Position text (body ++ other)) (gap ++ body ++ other) = some other := by
  rw [certifiedName] at read
  split at read
  next => cases read
  next here left =>
    rw [Option.ite_none_left_eq_some, not_not] at read
    obtain ⟨located, read⟩ := read
    rw [certifiedWord.eq_def, certifiedGap_idem left] at read
    split at read
    next word again equal =>
      cases equal
      obtain ⟨first, run, rfl, notSlash, notDash, accepts⟩ := takeWord_piece read
      obtain ⟨gap, rfl, same⟩ := certifiedGap_piece left notSlash notDash
      refine ⟨gap, first :: run, by simp, located, fun text other head => ?_⟩
      have left := same (run ++ other)
      rw [List.append_assoc, certifiedName, List.cons_append, left]
      simp only [ne_eq, not_true_eq_false, if_false]
      rw [certifiedWord.eq_def, certifiedGap_idem left, ← List.cons_append]
      exact accepts other head
    next => cases read

/-! ## Cells -/

/-- What may stand between the quotes of a string. -/
def PlainContent (content : Text) : Prop :=
  ∀ byte ∈ content, isLiteralByte byte = true ∧ byte ≠ 39

theorem certifiedLiteral_eq_some {text rest behind : Text} :
    certifiedLiteral text rest = some behind ↔ PlainContent text ∧ rest = text ++ 39 :: behind := by
  constructor
  · intro read
    rw [certifiedLiteral, Option.ite_none_right_eq_some] at read
    obtain ⟨literal, read⟩ := read
    split at read
    next => cases read
    next quote tail dropped =>
      rw [Option.ite_none_right_eq_some] at read
      obtain ⟨rfl, equal⟩ := read
      cases equal
      have quoted := List.head?_dropWhile_not (· ≠ 39) rest
      rw [dropped] at quoted
      have isQuote : quote = 39 := by simpa using quoted
      constructor
      · intro byte member
        refine ⟨List.all_eq_true.mp literal byte member, ?_⟩
        simpa using List.mem_takeWhile_imp member
      · have whole : rest.takeWhile (· ≠ 39) ++ rest.dropWhile (· ≠ 39) = rest := List.takeWhile_append_dropWhile
        rw [dropped, isQuote] at whole
        exact whole.symm
  · rintro ⟨plain, rfl⟩
    have others : ∀ byte ∈ text, decide (byte ≠ 39) = true := fun byte member => by simpa using (plain byte member).2
    have taken : (text ++ 39 :: behind).takeWhile (· ≠ 39) = text := by
      rw [List.takeWhile_append_of_pos others, List.takeWhile_cons_of_neg (by decide), List.append_nil]
    have dropped : (text ++ 39 :: behind).dropWhile (· ≠ 39) = 39 :: behind := by
      rw [List.dropWhile_append_of_pos others, List.dropWhile_cons_of_neg (by decide)]
    have literal : text.all isLiteralByte = true := List.all_eq_true.mpr fun byte member => (plain byte member).1
    simp only [certifiedLiteral, taken, dropped, literal, if_true]

theorem certifiedCellValue_string {content other : Text} (unknownFields : Text) (plain : PlainContent content) :
    certifiedCellValue (.sval (some ⟨some content, 0, unknownFields⟩)) (39 :: content ++ 39 :: other) = some (other, 1) := by
  rw [certifiedCellValue, if_neg (by simp), List.cons_append, List.tail_cons,
    certifiedLiteral_eq_some.mpr ⟨plain, rfl⟩, Option.map_some]

/-- The value of a cell is a string between quotes or a run of digits. -/
inductive CellValue (after : Text) : InsertAst.ConstValue → Text → Nat → Prop where
  | string (content unknownFields : Text) (plain : PlainContent content) :
      CellValue after (.sval (some ⟨some content, 0, unknownFields⟩)) (39 :: content ++ [39]) 1
  | number (integer : InsertAst.Integer) (first : UInt8) (run : Text) (digit : isDigit first = true)
      (accepts : ∀ other : Text, other.head? = after.head? →
        certifiedCellValue (.ival (some integer)) (first :: run ++ other) = some (other, 0)) :
      CellValue after (.ival (some integer)) (first :: run) 0

theorem certifiedCellValue_piece {val : InsertAst.ConstValue} {here after : Text} {string : Nat}
    (read : certifiedCellValue val here = some (after, string)) :
    ∃ body, here = body ++ after ∧ CellValue after val body string := by
  rw [certifiedCellValue.eq_def] at read
  split at read
  next text location unknownFields =>
    rw [Option.ite_none_left_eq_some, not_or, not_not, not_not] at read
    obtain ⟨⟨rfl, quoted⟩, read⟩ := read
    obtain ⟨rest, literal, equal⟩ := Option.map_eq_some_iff.mp read
    cases equal
    obtain ⟨plain, split⟩ := certifiedLiteral_eq_some.mp literal
    refine ⟨39 :: text ++ [39], ?_, .string text unknownFields plain⟩
    cases here with
    | nil => cases quoted
    | cons quote tail =>
      cases quoted
      rw [List.tail_cons] at split
      rw [split]
      simp
  next integer =>
    rw [Option.ite_none_left_eq_some, Bool.not_eq_false] at read
    obtain ⟨digit, read⟩ := read
    split at read
    next => cases read
    next value valued =>
      rw [Option.ite_none_left_eq_some, not_not] at read
      obtain ⟨same, equal⟩ := read
      cases equal
      cases here with
      | nil => cases digit
      | cons first tail =>
        rw [List.head?_cons, Option.any_some] at digit
        have run : (first :: tail).takeWhile isDigit = first :: tail.takeWhile isDigit := by
          rw [List.takeWhile_cons, digit, if_pos rfl]
        refine ⟨first :: tail.takeWhile isDigit, ?_, .number integer first _ digit fun other head => ?_⟩
        · rw [← run, List.takeWhile_append_dropWhile]
        · obtain ⟨taken, dropped⟩ := run_local isDigit head
          rw [run] at taken dropped valued
          rw [certifiedCellValue, List.cons_append, List.head?_cons, Option.any_some, digit, if_neg (by decide),
            ← List.cons_append, taken, dropped, valued]
          simp only [same, ne_eq, not_true_eq_false, if_false]
  next => cases read

theorem digit_solid {byte : UInt8} (digit : isDigit byte = true) : byte ≠ 47 ∧ byte ≠ 45 := by
  constructor <;>
  · rintro rfl
    revert digit
    decide

theorem CellValue.starts {after body : Text} {val : InsertAst.ConstValue} {string : Nat}
    (value : CellValue after val body string) : ∃ first run, body = first :: run ∧ first ≠ 47 ∧ first ≠ 45 := by
  cases value with
  | string content => exact ⟨39, content ++ [39], rfl, by decide, by decide⟩
  | number integer first run digit => exact ⟨first, run, rfl, digit_solid digit⟩

/-- The same value is accepted in front of another rest. -/
theorem CellValue.accepted {after body other : Text} {val : InsertAst.ConstValue} {string : Nat}
    (value : CellValue after val body string) (same : other.head? = after.head?) :
    certifiedCellValue val (body ++ other) = some (other, string) := by
  cases value with
  | string content unknown plain =>
    rw [show 39 :: content ++ [39] ++ other = 39 :: content ++ 39 :: other by simp]
    exact certifiedCellValue_string unknown plain
  | number integer first run digit accepts => exact accepts other same

theorem CellValue.isString {after body : Text} {val : InsertAst.ConstValue} (value : CellValue after val body 1) :
    ∃ content unknown, val = .sval (some ⟨some content, 0, unknown⟩) ∧ body = 39 :: content ++ [39] := by
  cases value with
  | string content unknown => exact ⟨content, unknown, rfl, rfl⟩

/-- What a cell takes of the source. -/
structure CellRead (sql rest after : Text) (cell : InsertAst.AConst) (gap body : Text) (string : Nat) : Prop where
  split : rest = gap ++ body ++ after
  present : cell.isnull = false
  located : cell.location = int32Position sql (body ++ after)
  value : CellValue after cell.val body string
  gapLocal : ∀ byte ∈ body.head?, ∀ other, certifiedGap (gap ++ byte :: other) = some (byte :: other)

theorem certifiedCell_piece {sql rest after : Text} {node : Option InsertAst.CellNode} {string : Nat}
    (read : certifiedCell sql node rest = some (after, string)) :
    ∃ cell unknownFields gap body, node = some ⟨.aConst (some cell), unknownFields⟩ ∧
      CellRead sql rest after cell gap body string := by
  rw [certifiedCell.eq_def] at read
  split at read
  next here cell unknownFields left =>
    rw [Option.ite_none_left_eq_some, not_or, not_or, not_not, Bool.not_eq_true] at read
    obtain ⟨⟨_, present, located⟩, read⟩ := read
    obtain ⟨body, rfl, value⟩ := certifiedCellValue_piece read
    obtain ⟨first, run, rfl, notSlash, notDash⟩ := value.starts
    obtain ⟨gap, rfl, same⟩ := certifiedGap_piece left notSlash notDash
    refine ⟨cell, unknownFields, gap, first :: run, rfl, by simp, present, located, value, ?_⟩
    intro byte member other
    cases member
    exact same other
  next => cases read

/-- A cell is accepted at its new place with the same value or, if it is a string, with another plain one. -/
theorem CellRead.accepts {sql rest after : Text} {cell : InsertAst.AConst} {gap body : Text} {string : Nat}
    (held : CellRead sql rest after cell gap body string) (unknownFields text other : Text)
    (same : other.head? = after.head?) :
    certifiedCell text (some ⟨.aConst (some { cell with location := int32Position text (body ++ other) }), unknownFields⟩)
      (gap ++ body ++ other) = some (other, string) := by
  obtain ⟨first, run, whole, _⟩ := held.value.starts
  have left := held.gapLocal first (by rw [whole]; rfl) (run ++ other)
  rw [certifiedCell.eq_def, List.append_assoc, whole, List.cons_append, left]
  simp only [held.present, Bool.false_eq_true, reduceCtorEq, ne_eq, not_true_eq_false, or_self, if_false]
  rw [← List.cons_append, ← whole]
  exact held.value.accepted same

theorem CellRead.replaced {sql rest after : Text} {cell : InsertAst.AConst} {gap body : Text}
    (held : CellRead sql rest after cell gap body 1) (unknownFields text other : Text) {content : Text}
    (plain : PlainContent content) :
    certifiedCell text
      (some ⟨.aConst (some { cell with
        location := int32Position text (39 :: content ++ [39] ++ other)
        val := replaceValue cell.val content }), unknownFields⟩)
      (gap ++ (39 :: content ++ [39]) ++ other) = some (other, 1) := by
  obtain ⟨old, unknown, isString, whole⟩ := held.value.isString
  have left := held.gapLocal 39 (by rw [whole]; rfl) (content ++ [39] ++ other)
  rw [certifiedCell.eq_def, List.append_assoc, List.cons_append, List.cons_append, left]
  simp only [held.present, Bool.false_eq_true, reduceCtorEq, ne_eq, not_true_eq_false, or_self, if_false]
  rw [isString, replaceValue, show 39 :: (content ++ [39] ++ other) = 39 :: content ++ 39 :: other by simp]
  exact certifiedCellValue_string unknown plain

end SqlParser.Core
