import SqlParser.Sqlserver.ScannerTokens

/-! # The candidate mask

A scan of the bytes looks for the words that the rewrites need, with a word boundary of
its own: a digit is a letter of the word behind it.  The scanner takes a digit as a
symbol, so that a word may begin directly behind one.
-/

namespace SqlParser.Sqlserver

open SqlParser.Core

/-! ## The mask -/

inductive Candidate where
  | insert
  | merge
  | output
  | control
  | delete
  deriving DecidableEq, Repr

def Candidate.words : Candidate → List String
  | .insert => ["insert"]
  | .merge => ["merge"]
  | .output => ["output"]
  | .control => ["if", "else"]
  | .delete => ["delete"]

/-- The bit that the byte at an offset of the text adds to the mask. -/
def candidateAt (text : Text) (pos : Nat) : Option Candidate :=
  let byte := toLower (byteAt text pos)
  if byte = 100 then if asciiWordEqual text pos "delete" then some .delete else none
  else if byte = 101 then if asciiWordEqual text pos "else" then some .control else none
  else if byte = 105 then
    if asciiWordEqual text pos "if" then some .control
    else if asciiWordEqual text pos "insert" then some .insert else none
  else if byte = 109 then if asciiWordEqual text pos "merge" then some .merge else none
  else if byte = 111 then if asciiWordEqual text pos "output" then some .output else none
  else none

/-- The loop of `sqlparser_sqlserver_candidate_mask`.  What opens a quoted item or a comment is skipped,
whether or not it ends. -/
def candidateMaskFrom (text rest : Text) (mask : Finset Candidate) : Finset Candidate :=
  match rest with
  | [] => mask
  | byte :: tail =>
    if _opens : opensNonCode (byte :: tail) then candidateMaskFrom text (scanNonCodeSpan (byte :: tail)).behind mask
    else candidateMaskFrom text tail (mask ∪ (candidateAt text (offsetOf text (byte :: tail))).toFinset)
termination_by rest.length
decreasing_by
  · have behind := (scanNonCodeSpan_suffix _opens).length_le
    rw [List.length_cons]
    omega
  · exact Nat.lt_succ_self _

/-- `sqlparser_sqlserver_candidate_mask` -/
def candidateMask (text : Text) : Finset Candidate :=
  candidateMaskFrom text text ∅

/-- A word token that a rewrite looks for. -/
def Token.isCandidate (token : Token) (text : Text) (candidate : Candidate) : Prop :=
  token.kind = .word ∧ ∃ word ∈ candidate.words, spanWordEqual ((text.take token.stop).drop token.start) word

instance (token : Token) (text : Text) (candidate : Candidate) : Decidable (token.isCandidate text candidate) :=
  inferInstanceAs (Decidable (_ ∧ _))

def Token.behindDigit (token : Token) (text : Text) : Bool :=
  token.start ≠ 0 && isDigit (byteAt text (token.start - 1))

/-! ## Words at code bytes -/

section words

variable {text rest here last : Text} {pos : Nat} {word : String} {candidate : Candidate}

/-- The classes of bytes beside each other, read off their table. -/
theorem byte_classes : ∀ byte : UInt8,
    isIdentChar (toLower byte) = isIdentChar byte ∧ (isSpace byte → ¬ (isIdentChar byte = true)) ∧
      (tokenWordStart byte = false → isIdentChar byte → isDigit byte) ∧ (isDigit byte → isIdentChar byte) ∧
      (tokenWordStart byte → isIdentChar byte) ∧
      (toLower byte ∈ [100, 101, 105, 109, 111] → tokenWordStart byte ∧ byte ≠ 78 ∧ byte ≠ 110) := by
  decide +kernel

theorem toLower_ident (byte : UInt8) : isIdentChar (toLower byte) = isIdentChar byte :=
  (byte_classes byte).1

/-- The words are spelled in lower case, and none of them is another. -/
theorem words_spelled : ∀ candidate : Candidate, ∀ word ∈ candidate.words,
    (ascii word ≠ [] ∧ ∀ byte ∈ ascii word, isIdentChar byte) ∧
      (ascii word).map toLower ≠ (ascii "end").map toLower := by
  intro candidate
  cases candidate <;> decide +kernel

theorem words_ident (listed : word ∈ candidate.words) : ascii word ≠ [] ∧ ∀ byte ∈ ascii word, isIdentChar byte :=
  (words_spelled candidate word listed).1

theorem dropWhile_head (rest : Text) : isIdentChar ((rest.dropWhile isIdentChar).headD 0) = false := by
  cases behind : rest.dropWhile isIdentChar with
  | nil => rfl
  | cons byte tail =>
    have head := List.head_dropWhile_not isIdentChar (l := rest) (by simp [behind])
    simpa [behind] using head

/-- The word that stands at the beginning of the text, told by its length and by its letters. -/
theorem spanWordEqual_takeWhile (letters : ∀ byte ∈ ascii word, isIdentChar byte) :
    (spanWordEqual (rest.take (ascii word).length) word && !isIdentChar (byteAt rest (ascii word).length)) =
      spanWordEqual (rest.takeWhile isIdentChar) word := by
  have size {front : Text} (same : spanWordEqual front word) : front.length = (ascii word).length := by
    have same := congrArg List.length (of_decide_eq_true same)
    rwa [List.length_map, List.length_map] at same
  have parts := @List.takeWhile_append_dropWhile _ isIdentChar rest
  rw [Bool.eq_iff_iff, Bool.and_eq_true, Bool.not_eq_true']
  constructor
  · rintro ⟨same, next⟩
    have front : ∀ byte ∈ rest.take (ascii word).length, isIdentChar byte := by
      intro byte listed
      have lower : toLower byte ∈ (ascii word).map toLower := by
        rw [← of_decide_eq_true same]
        exact List.mem_map_of_mem listed
      obtain ⟨letter, inWord, lowered⟩ := List.mem_map.mp lower
      rw [← toLower_ident, ← lowered, toLower_ident]
      exact letters letter inWord
    have stops : (rest.drop (ascii word).length).takeWhile isIdentChar = [] := by
      cases behind : rest.drop (ascii word).length with
      | nil => rfl
      | cons byte tail =>
        rw [byteAt_eq_head, behind] at next
        exact List.takeWhile_cons_of_neg (by simpa using next)
    have whole : rest.takeWhile isIdentChar = rest.take (ascii word).length := by
      conv_lhs => rw [← List.take_append_drop (ascii word).length rest, List.takeWhile_append_of_pos front, stops,
        List.append_nil]
    rw [whole]
    exact same
  · intro same
    have front : rest.take (ascii word).length = rest.takeWhile isIdentChar := by
      conv_lhs => rw [← parts, ← size same, List.take_left' rfl]
    have behind : rest.drop (ascii word).length = rest.dropWhile isIdentChar := by
      conv_lhs => rw [← parts, ← size same, List.drop_left' rfl]
    refine ⟨by rw [front]; exact same, ?_⟩
    rw [byteAt_eq_head, behind]
    exact dropWhile_head rest

/-- A word at an offset, told by the letters that stand there. -/
theorem asciiWordEqual_eq (letters : ∀ byte ∈ ascii word, isIdentChar byte) :
    asciiWordEqual text pos word =
      (spanWordEqual ((text.drop pos).takeWhile isIdentChar) word &&
        !isIdentChar (if pos = 0 then 0 else byteAt text (pos - 1))) := by
  rw [← spanWordEqual_takeWhile letters, byteAt_drop, asciiWordEqual, isWordBoundary]
  simp only [Bool.and_assoc, Bool.and_comm]

theorem asciiWordEqual_first (spelled : ascii word ≠ []) (same : asciiWordEqual text pos word) :
    toLower (byteAt text pos) = ((ascii word).map toLower).headD 0 := by
  simp only [asciiWordEqual, Bool.and_eq_true] at same
  have same : ((text.drop pos).take (ascii word).length).map toLower = (ascii word).map toLower :=
    of_decide_eq_true same.1
  rw [byteAt_eq_head, ← same]
  obtain ⟨first, others, letters⟩ := List.exists_cons_of_ne_nil spelled
  cases located : text.drop pos with
  | nil => simp [located, letters] at same
  | cons byte tail => simp [letters]

/-- Two words that stand at one offset are one word. -/
theorem asciiWordEqual_unique {other : String} (letters : ∀ byte ∈ ascii word, isIdentChar byte)
    (otherLetters : ∀ byte ∈ ascii other, isIdentChar byte) (same : asciiWordEqual text pos word)
    (otherSame : asciiWordEqual text pos other) : (ascii word).map toLower = (ascii other).map toLower := by
  rw [asciiWordEqual_eq letters, Bool.and_eq_true] at same
  rw [asciiWordEqual_eq otherLetters, Bool.and_eq_true] at otherSame
  exact (of_decide_eq_true same.1).symm.trans (of_decide_eq_true otherSame.1)

theorem candidateAt_iff : candidateAt text pos = some candidate ↔
    ∃ word ∈ candidate.words, asciiWordEqual text pos word := by
  constructor
  · intro found
    simp only [candidateAt] at found
    split_ifs at found with _ same _ same _ same inserts _ same _ same
    all_goals cases found
    · exact ⟨_, List.mem_cons_self, same⟩
    · exact ⟨_, List.mem_cons_of_mem _ List.mem_cons_self, same⟩
    · exact ⟨_, List.mem_cons_self, same⟩
    · exact ⟨_, List.mem_cons_self, inserts⟩
    · exact ⟨_, List.mem_cons_self, same⟩
    · exact ⟨_, List.mem_cons_self, same⟩
  · rintro ⟨word, listed, same⟩
    cases candidate with
    | insert =>
      cases List.mem_singleton.mp listed
      have noIf : asciiWordEqual text pos "if" = false := by
        rw [← Bool.not_eq_true]
        intro other
        have control : "if" ∈ Candidate.control.words := List.mem_cons_self
        have apart : (ascii "insert").map toLower ≠ (ascii "if").map toLower := by decide
        exact apart (asciiWordEqual_unique (words_ident listed).2 (words_ident control).2 same other)
      have byte : toLower (byteAt text pos) = 105 := (asciiWordEqual_first (by decide) same).trans (by decide)
      simp [candidateAt, byte, same, noIf]
    | merge =>
      cases List.mem_singleton.mp listed
      have byte : toLower (byteAt text pos) = 109 := (asciiWordEqual_first (by decide) same).trans (by decide)
      simp [candidateAt, byte, same]
    | output =>
      cases List.mem_singleton.mp listed
      have byte : toLower (byteAt text pos) = 111 := (asciiWordEqual_first (by decide) same).trans (by decide)
      simp [candidateAt, byte, same]
    | control =>
      obtain rfl | listed := List.mem_cons.mp listed
      · have byte : toLower (byteAt text pos) = 105 := (asciiWordEqual_first (by decide) same).trans (by decide)
        simp [candidateAt, byte, same]
      · cases List.mem_singleton.mp listed
        have byte : toLower (byteAt text pos) = 101 := (asciiWordEqual_first (by decide) same).trans (by decide)
        simp [candidateAt, byte, same]
    | delete =>
      cases List.mem_singleton.mp listed
      have byte : toLower (byteAt text pos) = 100 := (asciiWordEqual_first (by decide) same).trans (by decide)
      simp [candidateAt, byte, same]

/-- Where a candidate stands, a letter stands that is neither `N` nor a symbol. -/
theorem candidateAt_letter (found : candidateAt text pos = some candidate) :
    tokenWordStart (byteAt text pos) ∧ byteAt text pos ≠ 78 ∧ byteAt text pos ≠ 110 := by
  have first : toLower (byteAt text pos) ∈ [100, 101, 105, 109, 111] := by
    simp only [candidateAt] at found
    split_ifs at found <;> simp_all
  exact (byte_classes (byteAt text pos)).2.2.2.2.2 first

end words

/-! ## The mask along the text -/

section paths

variable {text rest last : Text} {mask : Finset Candidate} {passed : List Text} {candidate : Candidate}

/-- The loop adds bits to the mask, and which ones it adds does not depend on the mask. -/
theorem candidateMaskFrom_mask : candidate ∈ candidateMaskFrom text rest mask ↔
    candidate ∈ mask ∨ candidate ∈ candidateMaskFrom text rest ∅ := by
  induction size : rest.length using Nat.strong_induction_on generalizing rest mask with
  | _ size inductionHypothesis =>
    subst size
    rw [candidateMaskFrom.eq_def text rest mask, candidateMaskFrom.eq_def text rest ∅]
    cases rest with
    | nil => simp
    | cons byte tail =>
      by_cases opens : opensNonCode (byte :: tail)
      · have shorter := Nat.lt_succ_of_le (scanNonCodeSpan_suffix opens).length_le
        simp only [dif_pos opens]
        exact inductionHypothesis _ shorter rfl
      · have later (mask : Finset Candidate) : candidate ∈ candidateMaskFrom text tail mask ↔
            candidate ∈ mask ∨ candidate ∈ candidateMaskFrom text tail ∅ :=
          inductionHypothesis _ (Nat.lt_succ_self _) rfl
        simp only [dif_neg opens]
        rw [later, later (∅ ∪ _), Finset.mem_union, Finset.empty_union, or_assoc]

/-- What a way adds to the mask. -/
theorem candidateMaskFrom_path (path : CodePath rest passed last) :
    candidate ∈ candidateMaskFrom text rest ∅ ↔
      (∃ here ∈ passed, candidateAt text (offsetOf text here) = some candidate) ∨
        candidate ∈ candidateMaskFrom text last ∅ := by
  induction path with
  | done => simp
  | @code byte tail last passed plain _ inductionHypothesis =>
    rw [candidateMaskFrom, dif_neg (by simp [plain]), candidateMaskFrom_mask, inductionHypothesis]
    simp [or_assoc]
  | span opens closed _ inductionHypothesis =>
    rw [candidateMaskFrom, dif_pos opens]
    exact inductionHypothesis

theorem candidateMaskFrom_unclosed (unclosed : Unclosed rest) : candidateMaskFrom text rest mask = mask := by
  obtain ⟨opens, failed⟩ := unclosed
  cases rest with
  | nil => cases opens
  | cons byte tail => rw [candidateMaskFrom, dif_pos opens, scanNonCodeSpan_failure opens failed, candidateMaskFrom]

end paths

/-! ## What stands before a token -/

section before

variable {sql rest last here behind : Text} {passed : List Text} {token : Token} {scanner : Scanner} {run : TokenRun}

theorem behindCloser_before {closer : UInt8} (found : behindCloser closer rest = some last) :
    closer :: last <:+ rest := by
  fun_induction behindCloser closer rest with
  | case1 => cases found
  | case2 =>
    cases found
    exact List.suffix_rfl
  | case3 => cases found
  | case4 rest inductionHypothesis =>
    exact (inductionHypothesis found).trans ((List.suffix_cons _ _).trans (List.suffix_cons _ _))
  | case5 next rest single =>
    cases found
    exact List.suffix_rfl
  | case6 byte next rest other inductionHypothesis =>
    exact (inductionHypothesis found).trans (List.suffix_cons _ _)

theorem behindNestedComment_before {depth : Nat} (found : behindNestedComment depth rest = some last) :
    Byte.slash :: last <:+ rest := by
  fun_induction behindNestedComment depth rest with
  | case1 => cases found
  | case2 => cases found
  | case3 depth byte next rest opens inductionHypothesis =>
    exact (inductionHypothesis found).trans ((List.suffix_cons _ _).trans (List.suffix_cons _ _))
  | case4 depth byte next rest _ closes _ =>
    cases found
    rw [closes.2]
    exact List.suffix_cons _ _
  | case5 depth byte next rest _ closes inner inductionHypothesis =>
    exact (inductionHypothesis found).trans ((List.suffix_cons _ _).trans (List.suffix_cons _ _))
  | case6 depth byte next rest _ other inductionHypothesis =>
    exact (inductionHypothesis found).trans (List.suffix_cons _ _)

theorem behindLineEnd_before (more : behindLineEnd rest ≠ []) :
    ∃ byte, isIdentChar byte = false ∧ byte :: behindLineEnd rest <:+ rest := by
  have jumped := List.dropWhile_suffix (l := rest) fun byte => byte ≠ Byte.carriageReturn && byte ≠ Byte.lineFeed
  unfold behindLineEnd at more ⊢
  split
  next atEnd =>
    rw [atEnd] at more
    exact absurd rfl more
  next byte tail found =>
    rw [found] at jumped
    have some : rest.dropWhile (fun byte => byte ≠ Byte.carriageReturn && byte ≠ Byte.lineFeed) ≠ [] := by
      rw [found]
      exact List.cons_ne_nil _ _
    have ends := List.head_dropWhile_not (fun byte => byte ≠ Byte.carriageReturn && byte ≠ Byte.lineFeed) some
    have noLetter : isIdentChar byte = false := by
      simp only [found, List.head_cons, Bool.and_eq_false_iff, decide_eq_false_iff_not, not_not] at ends
      obtain rfl | rfl := ends <;> decide
    split
    next feed =>
      cases tail with
      | nil => cases feed.2
      | cons next tail =>
        cases Option.some.inj feed.2
        exact ⟨Byte.lineFeed, by decide, (List.suffix_cons byte _).trans jumped⟩
    next => exact ⟨byte, noLetter, jumped⟩

theorem closedScan_before {found : Option Text} {message : String} {closer : UInt8} (plain : isIdentChar closer = false)
    (closed : (closedScan found message).failure = none) (before : ∀ last, found = some last → closer :: last <:+ rest) :
    ∃ byte, isIdentChar byte = false ∧ byte :: (closedScan found message).behind <:+ rest := by
  cases found with
  | none => cases closed
  | some last => exact ⟨closer, plain, before last rfl⟩

/-- Before the rest behind an item stands the byte that closes it. -/
theorem scanNonCodeSpan_before {current : UInt8} {tail : Text} (opens : opensNonCode (current :: tail))
    (closed : (scanNonCodeSpan (current :: tail)).failure = none)
    (more : (scanNonCodeSpan (current :: tail)).behind ≠ []) :
    ∃ byte, isIdentChar byte = false ∧ byte :: (scanNonCodeSpan (current :: tail)).behind <:+ tail := by
  obtain ⟨rfl, second⟩ | ⟨rfl, second⟩ | rfl | rfl | rfl := opensNonCode_cons opens
  · rw [scanNonCodeSpan, if_neg (by decide), if_neg (by decide), if_pos ⟨rfl, second⟩] at more ⊢
    obtain ⟨byte, noLetter, suffix⟩ := behindLineEnd_before more
    exact ⟨byte, noLetter, suffix.trans (List.drop_suffix 1 tail)⟩
  · rw [scanNonCodeSpan, if_neg (by decide), if_neg (by decide), if_neg (fun dashes => absurd dashes.1 (by decide)),
      if_pos ⟨rfl, second⟩] at closed ⊢
    exact closedScan_before (by decide) closed fun last found =>
      (behindNestedComment_before found).trans (List.drop_suffix 1 tail)
  · exact closedScan_before (by decide) closed fun last found => behindCloser_before found
  · exact closedScan_before (by decide) closed fun last found => behindCloser_before found
  · exact closedScan_before (by decide) closed fun last found => behindCloser_before found

/-- Before the end of a way stands its last code byte or a byte that is no letter. -/
theorem CodePath.before (path : CodePath rest passed last) (more : last ≠ []) :
    last = rest ∨ ∃ byte, byte :: last <:+ rest ∧ (isIdentChar byte = false ∨ byte :: last ∈ passed) := by
  induction path with
  | done => exact .inl rfl
  | @code byte tail last passed plain later inductionHypothesis =>
    obtain rfl | ⟨prior, suffix, known⟩ := inductionHypothesis more
    · exact .inr ⟨byte, List.suffix_rfl, .inr List.mem_cons_self⟩
    · exact .inr ⟨prior, suffix.trans (List.suffix_cons _ _), known.imp_right (List.mem_cons_of_mem _)⟩
  | @span current tail last passed opens closed later inductionHypothesis =>
    obtain atEnd | ⟨prior, suffix, known⟩ := inductionHypothesis more
    · rw [atEnd] at more
      obtain ⟨byte, noLetter, suffix⟩ := scanNonCodeSpan_before opens closed more
      rw [atEnd]
      exact .inr ⟨byte, suffix.trans (List.suffix_cons _ _), .inl noLetter⟩
    · exact .inr ⟨prior, suffix.trans ((scanNonCodeSpan_suffix opens).trans (List.suffix_cons _ _)), known⟩

/-- A letter before the rest of the text, other than a digit, ends a word before it. -/
def Apart (sql rest : Text) : Prop :=
  ∀ last, last :: rest <:+ sql → isIdentChar last → isDigit last ∨ isIdentChar (byteAt rest 0) = false

theorem suffix_cons_inj {left right : UInt8} (first : left :: rest <:+ sql) (second : right :: rest <:+ sql) :
    left = right := by
  rw [← byteAt_before first, ← byteAt_before second]

theorem isSpace_letter (byte : UInt8) (space : isSpace byte) : ¬ (isIdentChar byte = true) :=
  (byte_classes byte).2.1 space

theorem symbol_digit (byte : UInt8) (noWord : tokenWordStart byte = false) (letter : isIdentChar byte) :
    isDigit byte :=
  (byte_classes byte).2.2.1 noWord letter

theorem isDigit_ident (byte : UInt8) (digit : isDigit byte) : isIdentChar byte :=
  (byte_classes byte).2.2.2.1 digit

theorem tokenWordStart_ident (byte : UInt8) (starts : tokenWordStart byte) : isIdentChar byte :=
  (byte_classes byte).2.2.2.2.1 starts

/-- Behind blanks and comments a letter that stands directly before the rest stood there at the beginning. -/
theorem Apart.path (apart : Apart sql rest) (suffix : rest <:+ sql) (path : CodePath rest passed here)
    (blank : ∀ blank ∈ passed, isSpace (byteAt blank 0)) : Apart sql here := by
  intro last atLast letter
  cases here with
  | nil => exact .inr rfl
  | cons byte tail =>
    obtain same | ⟨prior, inRest, known⟩ := path.before (List.cons_ne_nil _ _)
    · rw [← same] at apart
      exact apart last atLast letter
    · obtain rfl := suffix_cons_inj atLast (inRest.trans suffix)
      obtain noLetter | listed := known
      · simp [noLetter] at letter
      · have space : isSpace last := blank _ listed
        exact absurd letter (isSpace_letter last space)

/-- Behind a token a letter stands directly before the rest only where it is a digit or ends the word. -/
theorem Spells.apart (spelled : Spells sql rest token behind) (suffix : rest <:+ sql) : Apart sql behind := by
  intro last atLast letter
  obtain ⟨before, blank, start, stop, shorter, path, code⟩ := spelled
  have inRest := before.suffix.1.trans suffix
  cases code with
  | @symbol byte _ kind spelled noWord plain =>
    obtain rfl := suffix_cons_inj atLast inRest
    exact .inl (symbol_digit last noWord letter)
  | @word byte tail inside kind starts _ letters =>
    rw [byteAt_eq_head, List.drop_zero]
    exact .inr (dropWhile_head tail)
  | quoted kind national =>
    by_cases atEnd : behind = []
    · rw [atEnd]
      exact .inr rfl
    obtain same | ⟨prior, inHere, known⟩ := path.before atEnd
    · rw [same] at shorter
      exact absurd shorter (Nat.lt_irrefl _)
    · obtain rfl := suffix_cons_inj atLast (inHere.trans inRest)
      obtain noLetter | listed := known
      · simp [noLetter] at letter
      · exact absurd (national _ listed).2 (Nat.lt_irrefl _)

/-- Before a rest inside a word stands a letter of the word. -/
theorem inside_before {byte : UInt8} {tail : Text} (first : isIdentChar byte) (suffix : here <:+ tail)
    (longer : (tail.dropWhile isIdentChar).length < here.length) :
    ∃ last, isIdentChar last ∧ last :: here <:+ byte :: tail := by
  induction tail generalizing byte with
  | nil => simp [List.suffix_nil.mp suffix] at longer
  | cons next tail inductionHypothesis =>
    obtain rfl | inTail := List.suffix_cons_iff.mp suffix
    · exact ⟨byte, first, List.suffix_rfl⟩
    · by_cases letter : isIdentChar next
      · rw [List.dropWhile_cons_of_pos letter] at longer
        obtain ⟨last, isLetter, atLast⟩ := inductionHypothesis letter inTail longer
        exact ⟨last, isLetter, atLast.trans (List.suffix_cons _ _)⟩
      · rw [List.dropWhile_cons_of_neg letter] at longer
        exact absurd suffix.length_le (Nat.not_le_of_lt longer)

theorem candidateAt_inside {candidate : Candidate} {last : UInt8} (letter : isIdentChar last)
    (suffix : last :: here <:+ sql) : candidateAt sql (offsetOf sql here) ≠ some candidate := by
  intro found
  obtain ⟨word, listed, same⟩ := candidateAt_iff.mp found
  rw [asciiWordEqual_eq (words_ident listed).2, byteAt_before suffix,
    if_neg (by rw [offsetOf_cons suffix]; exact Nat.succ_ne_zero _), letter] at same
  simp at same

/-- A word token has a bit in the mask where it does not stand directly behind a digit. -/
theorem candidateAt_word {candidate : Candidate} {byte : UInt8} {tail : Text} (apart : Apart sql (byte :: tail))
    (suffix : byte :: tail <:+ sql) (kind : token.kind = .word) (starts : tokenWordStart byte)
    (start : token.start = offsetOf sql (byte :: tail)) (stop : token.stop = offsetOf sql (tail.dropWhile isIdentChar)) :
    candidateAt sql (offsetOf sql (byte :: tail)) = some candidate ↔
      token.isCandidate sql candidate ∧ token.behindDigit sql = false := by
  have letter := tokenWordStart_ident byte starts
  have word : (sql.take token.stop).drop token.start = byte :: tail.takeWhile isIdentChar := by
    have parts : byte :: tail = (byte :: tail.takeWhile isIdentChar) ++ tail.dropWhile isIdentChar := by
      rw [List.cons_append, List.takeWhile_append_dropWhile]
    rw [start, stop]
    conv_lhs => rw [parts]
    exact slice_offsetOf (by rw [← parts]; exact suffix)
  have before : isIdentChar (if token.start = 0 then 0 else byteAt sql (token.start - 1)) = token.behindDigit sql := by
    by_cases atStart : token.start = 0
    · simp [Token.behindDigit, atStart, show isIdentChar 0 = false by decide]
    have located : sql.drop (token.start - 1) = byteAt sql (token.start - 1) :: byte :: tail := by
      have inside : token.start - 1 < sql.length := by
        have bound := offsetOf_le sql (byte :: tail)
        omega
      rw [drop_eq_byteAt inside, Nat.sub_add_cancel (Nat.one_le_iff_ne_zero.mpr atStart), start, drop_offsetOf suffix]
    rw [if_neg atStart, Token.behindDigit, decide_eq_true atStart, Bool.true_and, Bool.eq_iff_iff]
    constructor
    · intro isLetter
      obtain digit | noLetter := apart _ (by rw [← located]; exact List.drop_suffix _ _) isLetter
      · exact digit
      · exact absurd letter (Bool.eq_false_iff.mp noLetter)
    · exact fun digit => isDigit_ident _ digit
  rw [candidateAt_iff, ← start]
  simp only [Token.isCandidate, kind, word, true_and]
  have spells (constant : String) (listed : constant ∈ candidate.words) :
      asciiWordEqual sql token.start constant =
        (spanWordEqual (byte :: tail.takeWhile isIdentChar) constant && !token.behindDigit sql) := by
    rw [asciiWordEqual_eq (words_ident listed).2, before, start, drop_offsetOf suffix,
      List.takeWhile_cons_of_pos letter]
  constructor
  · rintro ⟨constant, listed, same⟩
    rw [spells constant listed, Bool.and_eq_true, Bool.not_eq_true'] at same
    exact ⟨⟨constant, listed, same.1⟩, same.2⟩
  · rintro ⟨⟨constant, listed, same⟩, noDigit⟩
    refine ⟨constant, listed, ?_⟩
    rw [spells constant listed, same, noDigit]
    rfl

/-- What a call passes adds the bit of the token that it returns to the mask. -/
theorem Spells.candidates {candidate : Candidate} (spelled : Spells sql rest token behind) (suffix : rest <:+ sql)
    (apart : Apart sql rest) :
    candidate ∈ candidateMaskFrom sql rest ∅ ↔
      (token.isCandidate sql candidate ∧ token.behindDigit sql = false) ∨ candidate ∈ candidateMaskFrom sql behind ∅ := by
  obtain @⟨here, blanks, own, before, blank, start, stop, shorter, path, code⟩ := spelled
  have apartHere := apart.path suffix before blank
  have inRest := before.suffix.1.trans suffix
  have noBlank : ¬ ∃ passed ∈ blanks, candidateAt sql (offsetOf sql passed) = some candidate := by
    rintro ⟨passed, listed, found⟩
    have letter := (candidateAt_letter found).1
    rw [byteAt_offsetOf ((before.suffix.2 passed listed).1.trans suffix)] at letter
    exact isSpace_letter _ (blank passed listed) (tokenWordStart_ident _ letter)
  rw [candidateMaskFrom_path before, candidateMaskFrom_path path, or_iff_right noBlank]
  apply or_congr_left
  cases code with
  | @symbol byte _ kind spelled noWord plain =>
    refine iff_of_false ?_ fun token => nomatch kind.symm.trans token.1.1
    rintro ⟨passed, listed, found⟩
    cases List.mem_singleton.mp listed
    have letter := (candidateAt_letter found).1
    rw [byteAt_offsetOf inRest] at letter
    exact Bool.eq_false_iff.mp noWord letter
  | @word byte tail inside kind starts insidePath letters =>
    rw [← candidateAt_word apartHere inRest kind starts start stop]
    constructor
    · rintro ⟨passed, listed, found⟩
      obtain rfl | listed := List.mem_cons.mp listed
      · exact found
      · obtain ⟨inTail, longer⟩ := insidePath.suffix.2 passed listed
        obtain ⟨last, letter, atLast⟩ := inside_before (tokenWordStart_ident byte starts) inTail longer
        exact absurd found (candidateAt_inside letter (atLast.trans inRest))
    · exact fun found => ⟨_, List.mem_cons_self, found⟩
  | quoted kind national =>
    refine iff_of_false ?_ fun token => ?_
    · rintro ⟨passed, listed, found⟩
      have letter := (candidateAt_letter found).2
      rw [byteAt_offsetOf ((path.suffix.2 passed listed).1.trans inRest)] at letter
      obtain isN | isN := (national passed listed).1
      · exact letter.1 isN
      · exact letter.2 isN
    · obtain kind | kind := kind <;> exact nomatch kind.symm.trans token.1.1

/-- What is left when the scanner stops adds nothing. -/
theorem Stops.candidates {candidate : Candidate} (stops : Stops rest) (suffix : rest <:+ sql) :
    candidate ∉ candidateMaskFrom sql rest ∅ := by
  obtain ⟨passed, last, path, inert, ends⟩ := stops
  rw [candidateMaskFrom_path path]
  rintro (⟨here, listed, found⟩ | found)
  · have letter := candidateAt_letter found
    rw [byteAt_offsetOf ((path.suffix.2 here listed).1.trans suffix)] at letter
    obtain space | isN | isN := inert here listed
    · exact isSpace_letter _ space (tokenWordStart_ident _ letter.1)
    · exact letter.2.1 isN
    · exact letter.2.2 isN
  · obtain rfl | unclosed := ends
    · rw [candidateMaskFrom] at found
      cases found
    · rw [candidateMaskFrom_unclosed unclosed] at found
      cases found

theorem words_end {candidate : Candidate} {word : String} (listed : word ∈ candidate.words) :
    (ascii word).map toLower ≠ (ascii "end").map toLower :=
  (words_spelled candidate word listed).2

theorem Scanner.Unmatched.noCandidate {candidate : Candidate} {failure : Failure} {reach : Nat}
    (fails : scanner.Unmatched rest failure reach token behind) : ¬ token.isCandidate scanner.sql candidate := by
  rintro ⟨kind, word, listed, same⟩
  obtain ⟨-, -, isEnd⟩ | ⟨-, closes, -⟩ := fails.unmatched
  · exact words_end listed ((of_decide_eq_true same).symm.trans (of_decide_eq_true isEnd))
  · simp [Token.isSymbol, kind] at closes

/-- The mask has the bit of every word token that does not stand directly behind a digit, and the bits of the words
behind the place where the scanner stops. -/
theorem TokenRun.Spelled.candidates {candidate : Candidate} (spelled : run.Spelled scanner rest)
    (ready : scanner.Ready rest) (apart : Apart scanner.sql rest) :
    candidate ∈ candidateMaskFrom scanner.sql rest ∅ ↔
      (∃ token ∈ run.tokens, token.isCandidate scanner.sql candidate ∧ token.behindDigit scanner.sql = false) ∨
        ∃ failure, run.failure = some failure ∧ failure.unmatched ∧
          candidate ∈ candidateMaskFrom scanner.sql (scanner.sql.drop run.reach) ∅ := by
  induction spelled with
  | @stops scanner rest failure stops =>
    refine iff_of_false (stops.candidates ready.suffix) ?_
    rintro (⟨token, listed, -⟩ | ⟨failure, -, -, found⟩)
    · cases listed
    · rw [List.drop_length, candidateMaskFrom] at found
      cases found
  | @unmatched scanner rest failure reach token behind fails =>
    have suffix := fails.spelled.suffix.trans ready.suffix
    have behindStop : scanner.sql.drop reach = behind := by
      obtain ⟨-, -, -, stop, -, -, -⟩ := fails.spelled
      rw [fails.reach, stop, drop_offsetOf suffix]
    rw [fails.spelled.candidates ready.suffix apart, behindStop,
      or_iff_right fun found => fails.noCandidate found.1]
    refine ⟨fun found => .inr ⟨failure, rfl, fails.known, found⟩, ?_⟩
    rintro (⟨token, listed, -⟩ | ⟨failure, -, -, found⟩)
    · cases listed
    · exact found
  | @finds scanner next rest behind token later finds laterSpelled inductionHypothesis =>
    have apartBehind := finds.spelled.apart ready.suffix
    rw [finds.spelled.candidates ready.suffix apart]
    rw [finds.sql] at inductionHypothesis
    rw [inductionHypothesis finds.ready apartBehind]
    simp only [List.mem_cons, exists_eq_or_imp, or_assoc]

end before

/-! ## The mask and the tokens -/

/-- A word that a rewrite looks for stands alone at a code byte of the rest. -/
def StandsAlone (text rest : Text) (candidate : Candidate) : Prop :=
  ∃ passed last, CodePath rest passed last ∧
    ∃ here ∈ passed, ∃ word ∈ candidate.words, asciiWordEqual text (offsetOf text here) word

section mask

variable {text rest : Text} {candidate : Candidate}

/-- Every rest has a way to its end, or to an item that does not end. -/
theorem codePath_whole (rest : Text) : ∃ passed last, CodePath rest passed last ∧ (last = [] ∨ Unclosed last) := by
  induction size : rest.length using Nat.strong_induction_on generalizing rest with
  | _ size inductionHypothesis =>
    subst size
    cases rest with
    | nil => exact ⟨[], [], .done [], .inl rfl⟩
    | cons byte tail =>
      by_cases opens : opensNonCode (byte :: tail)
      · cases closed : (scanNonCodeSpan (byte :: tail)).failure with
        | none =>
          have shorter := Nat.lt_succ_of_le (scanNonCodeSpan_suffix opens).length_le
          obtain ⟨passed, last, path, ends⟩ := inductionHypothesis _ shorter _ rfl
          exact ⟨passed, last, .span opens closed path, ends⟩
        | some message => exact ⟨[], _, .done _, .inr ⟨opens, by rw [closed]; rfl⟩⟩
      · obtain ⟨passed, last, path, ends⟩ := inductionHypothesis _ (Nat.lt_succ_self _) _ rfl
        exact ⟨_, last, .code (Bool.eq_false_of_not_eq_true opens) path, ends⟩

theorem candidateMaskFrom_iff : candidate ∈ candidateMaskFrom text rest ∅ ↔ StandsAlone text rest candidate := by
  constructor
  · intro found
    obtain ⟨passed, last, path, ends⟩ := codePath_whole rest
    obtain ⟨here, listed, found⟩ | found := (candidateMaskFrom_path path).mp found
    · exact ⟨passed, last, path, here, listed, candidateAt_iff.mp found⟩
    · obtain rfl | unclosed := ends
      · rw [candidateMaskFrom] at found
        cases found
      · rw [candidateMaskFrom_unclosed unclosed] at found
        cases found
  · rintro ⟨passed, last, path, here, listed, found⟩
    exact (candidateMaskFrom_path path).mpr (.inl ⟨here, listed, candidateAt_iff.mpr found⟩)

/-- The bits of the mask, told by the tokens of the text. -/
theorem candidateMask_tokens (text : Text) (candidate : Candidate) :
    candidate ∈ candidateMask text ↔
      (∃ token ∈ (tokensBetween text 0 text.length).tokens,
          token.isCandidate text candidate ∧ token.behindDigit text = false) ∨
        ∃ failure, (tokensBetween text 0 text.length).failure = some failure ∧ failure.unmatched ∧
          StandsAlone text (text.drop (tokensBetween text 0 text.length).reach) candidate := by
  have whole : tokensBetween text 0 text.length = Scanner.tokenRun { sql := text, pos := 0 } := by
    rw [tokensBetween, scannerInit, if_neg (Nat.not_lt_zero _), List.take_length]
  have ready : Scanner.Ready { sql := text, pos := 0 } text := ⟨List.suffix_rfl, (Nat.sub_self _).symm, rfl, rfl⟩
  have apart : Apart text text := fun last inText => absurd inText.length_le (by simp)
  rw [whole, ← candidateMaskFrom_iff]
  exact (tokenRun_spelled ready).candidates ready apart

end mask

/-- Every word that the scanner yields has its bit in the mask exactly when, for each bit, such a word stands somewhere
not directly behind a digit, or stands alone behind the place where the scanner stops at an unmatched closer. -/
theorem candidateMask_complete_iff (text : Text) :
    (∀ candidate, (∃ token ∈ (tokensBetween text 0 text.length).tokens, token.isCandidate text candidate) →
        candidate ∈ candidateMask text) ↔
      ∀ candidate, (∃ token ∈ (tokensBetween text 0 text.length).tokens, token.isCandidate text candidate) →
        (∃ token ∈ (tokensBetween text 0 text.length).tokens,
            token.isCandidate text candidate ∧ token.behindDigit text = false) ∨
          ∃ failure, (tokensBetween text 0 text.length).failure = some failure ∧ failure.unmatched ∧
            StandsAlone text (text.drop (tokensBetween text 0 text.length).reach) candidate :=
  forall_congr' fun candidate => imp_congr_right fun _ => candidateMask_tokens text candidate

/-- The scanner yields the word `DELETE` behind the digit, and the mask has no bit for it. -/
theorem candidateMask_behind_digit :
    (∃ token ∈ (tokensBetween (ascii "IF 1=1DELETE FROM t") 0 19).tokens,
        token.isCandidate (ascii "IF 1=1DELETE FROM t") .delete) ∧
      .delete ∉ candidateMask (ascii "IF 1=1DELETE FROM t") := by
  decide +kernel

end SqlParser.Sqlserver
