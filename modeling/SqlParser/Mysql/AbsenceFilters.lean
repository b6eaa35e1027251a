import SqlParser.Mysql.NonCodeMask

/-! # The words of unsupported statements

`sqlparser_mysql_reject_unsupported` collects the words of a text before it takes the mask
of the text and looks for unsupported phrases and joins in it.
-/

namespace SqlParser.Mysql

open SqlParser.Core

/-! ## Phrases -/

/-- The inner loop of `sqlparser_mysql_contains_phrase`, with the bytes behind the phrase. A blank of the phrase stands for
one or more. -/
def matchPhrase : Text → Text → Option Text
  | [], text => some text
  | letter :: phrase, text =>
    if isSpace letter then
      if (text.dropWhile isSpace).length = text.length then none
      else matchPhrase (phrase.dropWhile isSpace) (text.dropWhile isSpace)
    else
      match text with
      | [] => none
      | byte :: rest => if byte = letter then matchPhrase phrase rest else none
termination_by phrase => phrase.length
decreasing_by
  · exact Nat.lt_succ_of_le (List.dropWhile_suffix _).length_le
  · exact Nat.lt_succ_self _

/-- `sqlparser_mysql_contains_phrase` -/
def containsPhrase (masked phrase : Text) : Bool :=
  let trimmed := phrase.reverse.dropWhile isSpace
  trimmed ≠ [] && (List.range masked.length).any fun pos =>
    !(isIdentChar (byteAt phrase 0) && isIdentChar (if pos = 0 then 0 else byteAt masked (pos - 1))) &&
      match matchPhrase phrase (masked.drop pos) with
      | none => false
      | some rest => !isIdentChar (byteAt trimmed 0) || !isIdentChar (byteAt rest 0)

def unsupportedPhrases : List String :=
  ["on duplicate key update", "update join", "delete join", "auto_increment", "unsigned", "zerofill", "engine =", "engine=",
    "charset =", "charset=", "character set =", "character set=", "collate =", "collate="]

/-! ## Joins -/

/-- `sqlparser_mysql_first_top_level_word_is` -/
def firstTopLevelWordIs (masked word : Text) : Bool :=
  match masked.findIdx? (!isSpace ·) with
  | none => false
  | some pos => wordAt masked pos word

/-- The loop of `sqlparser_mysql_top_level_word_before` over the rest of the mask. -/
def topLevelWordFrom (masked word beforeWord : Text) : (pos depth : Nat) → Text → Bool
  | _, _, [] => false
  | pos, depth, byte :: rest =>
    if byte = 40 then topLevelWordFrom masked word beforeWord (pos + 1) (depth + 1) rest
    else if byte = 41 then topLevelWordFrom masked word beforeWord (pos + 1) (depth - 1) rest
    else if depth ≠ 0 then topLevelWordFrom masked word beforeWord (pos + 1) depth rest
    else if wordAt masked pos beforeWord then false
    else if wordAt masked pos word then true
    else topLevelWordFrom masked word beforeWord (pos + 1) depth rest

/-- `sqlparser_mysql_top_level_word_before` -/
def topLevelWordBefore (masked word beforeWord : Text) : Bool :=
  topLevelWordFrom masked word beforeWord 0 0 masked

/-- `sqlparser_mysql_is_unsupported_update_join` -/
def isUnsupportedUpdateJoin (masked : Text) : Bool :=
  firstTopLevelWordIs masked (ascii "update") && topLevelWordBefore masked (ascii "join") (ascii "set")

/-- `sqlparser_mysql_is_unsupported_delete_join` -/
def isUnsupportedDeleteJoin (masked : Text) : Bool :=
  firstTopLevelWordIs masked (ascii "delete") && topLevelWordBefore masked (ascii "join") (ascii "where") &&
    !topLevelWordBefore masked (ascii "using") (ascii "join")

/-! ## The words of a text -/

/-- The bits of `words` -/
inductive WordFlag where
  | on
  | duplicate
  | key
  | update
  | join
  | delete
  | character
  | set
  | single
  deriving DecidableEq, Repr

/-- The cases of the switch, in their order -/
def flaggedWords : List (String × WordFlag) :=
  [("auto_increment", .single), ("charset", .single), ("collate", .single), ("character", .character),
    ("duplicate", .duplicate), ("delete", .delete), ("engine", .single), ("join", .join), ("key", .key), ("on", .on),
    ("set", .set), ("unsigned", .single), ("update", .update), ("zerofill", .single)]

/-- The bit that a word at an offset of the text adds -/
def wordFlag (sql : Text) (pos : Nat) : Option WordFlag :=
  (flaggedWords.find? fun entry =>
    toLower (byteAt sql pos) = byteAt (ascii entry.1) 0 && asciiWordEqual sql pos (ascii entry.1)).map (·.2)

/-- The loop that collects the words of a text -/
def collectWordsFrom (sql : Text) (pos : Nat) (words : Finset WordFlag) : Finset WordFlag :=
  if inside : pos < sql.length then
    if letter : isIdentChar (byteAt sql pos) then
      if .single ∈ words ∪ (wordFlag sql pos).toFinset then
        words ∪ (wordFlag sql pos).toFinset
      else
        have _behind : pos < runEnd isIdentChar sql pos := lt_runEnd rfl letter
        collectWordsFrom sql (runEnd isIdentChar sql pos) (words ∪ (wordFlag sql pos).toFinset)
    else
      collectWordsFrom sql (pos + 1) words
  else
    words
termination_by sql.length - pos

def collectWords (sql : Text) : Finset WordFlag :=
  collectWordsFrom sql 0 ∅

def needsMask (words : Finset WordFlag) : Bool :=
  .single ∈ words || {.on, .duplicate, .key, .update} ⊆ words ||
    (.join ∈ words && (.update ∈ words || .delete ∈ words)) ||
    {.character, .set} ⊆ words

def unsupportedSyntax (syntaxName : String) : Error :=
  ⟨.unsupported, "unsupported MySQL syntax: " ++ syntaxName⟩

/-- The tests of the mask -/
def rejectMasked (masked : Text) : Except Error Unit :=
  if isUnsupportedUpdateJoin masked then .error (unsupportedSyntax "update join")
  else if isUnsupportedDeleteJoin masked then .error (unsupportedSyntax "delete join")
  else
    match unsupportedPhrases.find? fun phrase => containsPhrase masked (ascii phrase) with
    | some phrase => .error (unsupportedSyntax phrase)
    | none => .ok ()

/-- `sqlparser_mysql_reject_unsupported` -/
def rejectUnsupported (sql : Text) : Except Error Unit :=
  if needsMask (collectWords sql) then rejectMasked (maskNonCode sql) else .ok ()

/-! ## The words of a phrase -/

/-- Words with a blank between them, and what stands behind the last one -/
def spelled : List Text → Text → Text
  | [], tail => tail
  | [word], tail => word ++ tail
  | word :: next :: words, tail => word ++ Byte.space :: spelled (next :: words) tail

/-- The phrases, each with its words and with what stands behind them -/
def phraseParts : List (List String × String) :=
  [(["on", "duplicate", "key", "update"], ""), (["update", "join"], ""), (["delete", "join"], ""), (["auto_increment"], ""),
    (["unsigned"], ""), (["zerofill"], ""), (["engine"], " ="), (["engine"], "="), (["charset"], " ="), (["charset"], "="),
    (["character", "set"], " ="), (["character", "set"], "="), (["collate"], " ="), (["collate"], "=")]

/-- The bits of some words -/
def flagsOf (words : List String) : Finset WordFlag :=
  (words.filterMap fun word => (flaggedWords.find? (·.1 = word)).map (·.2)).toFinset

theorem unsupportedPhrases_parts :
    unsupportedPhrases.map ascii = phraseParts.map fun part => spelled (part.1.map ascii) (ascii part.2) := by
  decide +kernel

/-- The flagged words are keywords that differ, and the words of a phrase are among them and need the mask. -/
theorem flaggedWords_spelled :
    (∀ entry ∈ flaggedWords, (97 ≤ byteAt (ascii entry.1) 0 ∧ byteAt (ascii entry.1) 0 ≤ 122) ∧
      ∀ byte ∈ ascii entry.1, isIdentChar byte ∧ foldChar byte = byte) ∧
    (∀ entry ∈ flaggedWords, ∀ other ∈ flaggedWords, ascii entry.1 = ascii other.1 → entry = other) ∧
    ∀ part ∈ phraseParts, part.1 ≠ [] ∧ needsMask (flagsOf part.1) ∧
      (∀ word ∈ part.1, ∃ entry ∈ flaggedWords, entry.1 = word) ∧
      (ascii part.2 = [] ∨ isIdentChar (byteAt (ascii part.2) 0) = false) ∧
      isIdentChar (byteAt (spelled (part.1.map ascii) (ascii part.2)) 0) ∧
      (ascii part.2 = [] →
        isIdentChar (byteAt ((spelled (part.1.map ascii) (ascii part.2)).reverse.dropWhile isSpace) 0)) := by
  decide +kernel

theorem flaggedWords_keyword {entry : String × WordFlag} (listed : entry ∈ flaggedWords) : IsKeyword (ascii entry.1) :=
  have spelling := flaggedWords_spelled.1 entry listed
  ⟨spelling.1, spelling.2⟩

theorem isSpace_noLetter : ∀ byte : UInt8, isSpace byte → ¬ (isIdentChar byte = true) := by
  decide +kernel

theorem IsKeyword.noSpace {word : Text} (keyword : IsKeyword word) : ∀ byte ∈ word, isSpace byte = false :=
  fun byte member => Bool.eq_false_iff.mpr fun blank => isSpace_noLetter byte blank (keyword.letters byte member).1

section matching

variable {masked phrase text word back rest : Text}

/-- The byte before the rest of a text is none of a letter. -/
def Bounded (front : Text) : Prop :=
  isIdentChar (if front.length = 0 then 0 else byteAt front (front.length - 1)) = false

theorem wordAt_append {front : Text} (present : word ≠ []) (before : Bounded front)
    (behind : isIdentChar (byteAt rest 0) = false) : wordAt (front ++ (word ++ rest)) front.length word := by
  have stands : ((front ++ (word ++ rest)).drop front.length).take word.length = word := by
    rw [List.drop_left, List.take_left' rfl]
  have next : byteAt (front ++ (word ++ rest)) (front.length + word.length) = byteAt rest 0 := by
    rw [byteAt_append_right]
    exact byteAt_append_right word rest 0
  have previous : (if front.length = 0 then 0 else byteAt (front ++ (word ++ rest)) (front.length - 1)) =
      if front.length = 0 then 0 else byteAt front (front.length - 1) := by
    split_ifs with empty
    · rfl
    · exact byteAt_append_left (by omega)
  rw [wordAt, isWordBoundary, stands, next, previous, before, behind, decide_eq_true present]
  simp

theorem bounded_append {front spaces : Text} (present : spaces ≠ [])
    (blanks : ∀ byte ∈ spaces, isIdentChar byte = false) : Bounded (front ++ spaces) := by
  have positive := List.length_pos_iff.mpr present
  rw [Bounded, List.length_append, if_neg (by omega),
    show front.length + spaces.length - 1 = front.length + (spaces.length - 1) by omega, byteAt_append_right]
  exact blanks _ (byteAt_mem (by omega))

theorem matchPhrase_cons (letter : UInt8) (phrase text : Text) :
    matchPhrase (letter :: phrase) text =
      if isSpace letter then
        if (text.dropWhile isSpace).length = text.length then none
        else matchPhrase (phrase.dropWhile isSpace) (text.dropWhile isSpace)
      else
        match text with
        | [] => none
        | byte :: rest => if byte = letter then matchPhrase phrase rest else none := by
  conv_lhs => rw [matchPhrase.eq_def]

theorem matchPhrase_word (letters : ∀ byte ∈ word, isSpace byte = false)
    (found : matchPhrase (word ++ back) text = some rest) :
    ∃ behind, text = word ++ behind ∧ matchPhrase back behind = some rest := by
  induction word generalizing text with
  | nil => exact ⟨text, rfl, found⟩
  | cons letter word inductionHypothesis =>
    have noSpace : ¬ (isSpace letter = true) := Bool.eq_false_iff.mp (letters letter List.mem_cons_self)
    rw [List.cons_append, matchPhrase_cons, if_neg noSpace] at found
    cases text with
    | nil => cases found
    | cons byte text =>
      dsimp only at found
      split_ifs at found with same
      obtain ⟨behind, rfl, matched⟩ :=
        inductionHypothesis (fun other member => letters other (List.mem_cons_of_mem _ member)) found
      exact ⟨behind, by rw [same, List.cons_append], matched⟩

theorem matchPhrase_space (letter : isSpace (byteAt back 0) = false)
    (found : matchPhrase (Byte.space :: back) text = some rest) :
    ∃ blank spaces behind, (∀ byte ∈ blank :: spaces, isSpace byte) ∧ text = blank :: spaces ++ behind ∧
      matchPhrase back behind = some rest := by
  rw [matchPhrase_cons, if_pos (by decide)] at found
  split_ifs at found with none
  have whole := @List.takeWhile_append_dropWhile _ isSpace text
  have kept : back.dropWhile isSpace = back := by
    cases back with
    | nil => rfl
    | cons byte back => exact List.dropWhile_cons_of_neg (Bool.eq_false_iff.mp letter)
  rw [kept] at found
  cases spaces : text.takeWhile isSpace with
  | nil =>
    rw [spaces, List.nil_append] at whole
    exact absurd (congrArg List.length whole) none
  | cons blank spaces' =>
    rw [spaces] at whole
    refine ⟨blank, spaces', text.dropWhile isSpace, fun byte member => ?_, whole.symm, found⟩
    exact List.mem_takeWhile_imp (spaces ▸ member)

/-- What stands behind the last word of a phrase bounds the word. -/
theorem matchPhrase_tail {tail : Text} (noLetter : tail = [] ∨ isIdentChar (byteAt tail 0) = false)
    (bounded : tail = [] → isIdentChar (byteAt rest 0) = false) (found : matchPhrase tail text = some rest) :
    isIdentChar (byteAt text 0) = false := by
  cases tail with
  | nil =>
    rw [matchPhrase] at found
    cases found
    exact bounded rfl
  | cons letter tail =>
    obtain impossible | noLetter := noLetter
    · cases impossible
    rw [matchPhrase_cons] at found
    split_ifs at found with blank none
    · cases text with
      | nil => exact absurd rfl none
      | cons byte text =>
        have isBlank : isSpace byte := by
          by_contra other
          rw [List.dropWhile_cons_of_neg other] at none
          exact none rfl
        exact (Bool.eq_false_iff.mpr fun isLetter => isSpace_noLetter byte isBlank isLetter)
    · cases text with
      | nil => rfl
      | cons byte text =>
        dsimp only at found
        split_ifs at found with same
        exact (congrArg isIdentChar same).trans noLetter

/-- The words of a phrase that is matched stand in the text as whole words. -/
theorem spelled_words {words : List Text} {front tail : Text} (keywords : ∀ word ∈ words, IsKeyword word)
    (noLetter : tail = [] ∨ isIdentChar (byteAt tail 0) = false) (before : Bounded front)
    (bounded : tail = [] → isIdentChar (byteAt rest 0) = false)
    (found : matchPhrase (spelled words tail) text = some rest) :
    ∀ word ∈ words, ∃ pos, wordAt (front ++ text) pos word := by
  induction words, tail using spelled.induct generalizing front text with
  | case1 tail => exact fun _ member => absurd member List.not_mem_nil
  | case2 word tail =>
    have keyword := keywords word List.mem_cons_self
    obtain ⟨behind, rfl, matched⟩ := matchPhrase_word keyword.noSpace found
    intro other member
    cases List.mem_singleton.mp member
    have ends := matchPhrase_tail noLetter bounded matched
    exact ⟨_, wordAt_append (List.length_pos_iff.mp keyword.length_pos) before ends⟩
  | case3 word next words tail inductionHypothesis =>
    have keyword := keywords word List.mem_cons_self
    have nextKeyword := keywords next (List.mem_cons_of_mem _ List.mem_cons_self)
    obtain ⟨middle, rfl, matched⟩ := matchPhrase_word keyword.noSpace found
    have letter : isSpace (byteAt (spelled (next :: words) tail) 0) = false := by
      have first : byteAt (spelled (next :: words) tail) 0 = byteAt next 0 := by
        cases words with
        | nil => exact byteAt_append_left nextKeyword.length_pos
        | cons other words => exact byteAt_append_left nextKeyword.length_pos
      rw [first]
      exact nextKeyword.noSpace _ (byteAt_mem nextKeyword.length_pos)
    obtain ⟨blank, spaces, behind, blanks, rfl, further⟩ := matchPhrase_space letter matched
    intro other member
    obtain rfl | member := List.mem_cons.mp member
    · refine ⟨_, wordAt_append (List.length_pos_iff.mp keyword.length_pos) before ?_⟩
      exact Bool.eq_false_iff.mpr (isSpace_noLetter blank (blanks blank List.mem_cons_self))
    · have closed : Bounded (front ++ word ++ (blank :: spaces)) :=
        bounded_append (List.cons_ne_nil _ _) fun byte inside =>
          Bool.eq_false_iff.mpr (isSpace_noLetter byte (blanks byte inside))
      have stands := inductionHypothesis (fun other member => keywords other (List.mem_cons_of_mem _ member)) noLetter closed
        bounded further other member
      simpa only [List.append_assoc] using stands

/-- A phrase that is found has its words in the mask. -/
theorem containsPhrase_words {part : List String × String} (listed : part ∈ phraseParts)
    (found : containsPhrase masked (spelled (part.1.map ascii) (ascii part.2))) :
    ∀ word ∈ part.1, ∃ pos, wordAt masked pos (ascii word) := by
  obtain ⟨-, -, known, noLetter, first, last⟩ := flaggedWords_spelled.2.2 part listed
  simp only [containsPhrase, Bool.and_eq_true, List.any_eq_true, List.mem_range, first, Bool.true_and,
    Bool.not_eq_true'] at found
  obtain ⟨-, pos, inside, before, matched⟩ := found
  cases behind : matchPhrase (spelled (part.1.map ascii) (ascii part.2)) (masked.drop pos) with
  | none =>
    rw [behind] at matched
    cases matched
  | some rest =>
    rw [behind] at matched
    have bounded : Bounded (masked.take pos) := by
      rw [Bounded, List.length_take_of_le inside.le]
      split_ifs at before ⊢ with atStart
      · exact before
      · conv_lhs at before => rw [← List.take_append_drop pos masked]
        rw [byteAt_append_left (by rw [List.length_take_of_le inside.le]; omega)] at before
        exact before
    have keywords : ∀ word ∈ part.1.map ascii, IsKeyword word := by
      intro word member
      obtain ⟨name, named, rfl⟩ := List.mem_map.mp member
      obtain ⟨entry, isFlagged, rfl⟩ := known name named
      exact flaggedWords_keyword isFlagged
    have ends (noTail : ascii part.2 = []) : isIdentChar (byteAt rest 0) = false := by
      simpa [last noTail] using matched
    intro word member
    have stands := spelled_words keywords noLetter bounded ends behind (ascii word) (List.mem_map_of_mem member)
    rwa [List.take_append_drop] at stands

theorem firstTopLevelWordIs_word (first : firstTopLevelWordIs masked word) : ∃ pos, wordAt masked pos word := by
  rw [firstTopLevelWordIs] at first
  split at first
  next => cases first
  next pos found => exact ⟨pos, first⟩

theorem topLevelWordFrom_word {beforeWord : Text} {pos depth : Nat}
    (found : topLevelWordFrom masked word beforeWord pos depth rest) : ∃ pos, wordAt masked pos word := by
  induction rest generalizing pos depth with
  | nil => cases found
  | cons byte rest inductionHypothesis =>
    rw [topLevelWordFrom] at found
    split_ifs at found with opens closes nested stopped here
    · exact inductionHypothesis found
    · exact inductionHypothesis found
    · exact inductionHypothesis found
    · exact ⟨pos, here⟩
    · exact inductionHypothesis found

end matching

/-! ## The collected words -/

section collecting

variable {sql word other : Text} {pos : Nat}

theorem asciiWordEqual_byte (same : asciiWordEqual sql pos word) {index : Nat} (inside : index < word.length) :
    foldChar (byteAt sql (pos + index)) = foldChar (byteAt word index) := by
  have letters := of_decide_eq_true (Bool.and_eq_true_iff.mp same).1
  have size := congrArg List.length letters
  rw [List.length_map, List.length_map, List.length_take, List.length_drop] at size
  have here := congrArg (·[index]?) letters
  rw [List.getElem?_map, List.getElem?_map, List.getElem?_take_of_lt inside, List.getElem?_drop,
    List.getElem?_eq_getElem (by omega), List.getElem?_eq_getElem inside] at here
  rw [byteAt, byteAt, List.getD_eq_getElem _ _ (by omega), List.getD_eq_getElem _ _ inside]
  exact Option.some.inj here

/-- A word that stands somewhere is no shorter than another word that stands there. -/
theorem asciiWordEqual_length (keyword : IsKeyword other) (same : asciiWordEqual sql pos word)
    (otherSame : asciiWordEqual sql pos other) : other.length ≤ word.length := by
  by_contra shorter
  have bounds := (Bool.and_eq_true_iff.mp same).2
  simp only [isWordBoundary, Bool.and_eq_true, Bool.not_eq_true'] at bounds
  have letter := (keyword.letter (Nat.lt_of_not_le shorter)).1
  rw [← isIdentChar_foldChar, ← asciiWordEqual_byte otherSame (Nat.lt_of_not_le shorter), isIdentChar_foldChar,
    bounds.2] at letter
  cases letter

theorem asciiWordEqual_unique (keyword : IsKeyword word) (otherKeyword : IsKeyword other)
    (same : asciiWordEqual sql pos word) (otherSame : asciiWordEqual sql pos other) : word = other := by
  have size : word.length = other.length :=
    Nat.le_antisymm (asciiWordEqual_length keyword otherSame same) (asciiWordEqual_length otherKeyword same otherSame)
  apply List.ext_getElem size
  intro index inside otherInside
  have folded := (asciiWordEqual_byte same inside).symm.trans (asciiWordEqual_byte otherSame otherInside)
  rw [(keyword.letter inside).2, (otherKeyword.letter otherInside).2] at folded
  rwa [byteAt, byteAt, List.getD_eq_getElem _ _ inside, List.getD_eq_getElem _ _ otherInside] at folded

theorem foldChar_eq (byte : UInt8) : foldChar byte = toLower byte := by
  rw [foldChar, toLower]
  split_ifs <;> simp_all

/-- A word of the switch sets its bit. -/
theorem wordFlag_word {entry : String × WordFlag} (listed : entry ∈ flaggedWords)
    (same : asciiWordEqual sql pos (ascii entry.1)) : wordFlag sql pos = some entry.2 := by
  have keyword := flaggedWords_keyword listed
  have first : toLower (byteAt sql pos) = byteAt (ascii entry.1) 0 := by
    have here := asciiWordEqual_byte same keyword.length_pos
    rwa [(keyword.letter keyword.length_pos).2, foldChar_eq] at here
  rw [wordFlag]
  cases found : flaggedWords.find? fun entry =>
      toLower (byteAt sql pos) = byteAt (ascii entry.1) 0 && asciiWordEqual sql pos (ascii entry.1) with
  | none =>
    have refused := List.find?_eq_none.mp found entry listed
    exact absurd (Bool.and_eq_true_iff.mpr ⟨decide_eq_true first, same⟩) refused
  | some other =>
    have otherListed := List.mem_of_find?_eq_some found
    have accepted := List.find?_some found
    rw [Bool.and_eq_true] at accepted
    have spelling := asciiWordEqual_unique (flaggedWords_keyword otherListed) keyword accepted.2 same
    rw [flaggedWords_spelled.2.1 other otherListed entry listed spelling, Option.map_some]

theorem subset_collectWordsFrom (sql : Text) (pos : Nat) (words : Finset WordFlag) :
    words ⊆ collectWordsFrom sql pos words := by
  induction pos, words using collectWordsFrom.induct sql with
  | case1 pos words inside letter found =>
    rw [collectWordsFrom, dif_pos inside, dif_pos letter, if_pos found]
    exact Finset.subset_union_left
  | case2 pos words inside letter found behind inductionHypothesis =>
    rw [collectWordsFrom, dif_pos inside, dif_pos letter, if_neg found]
    exact Finset.subset_union_left.trans inductionHypothesis
  | case3 pos words inside letter inductionHypothesis =>
    rw [collectWordsFrom, dif_pos inside, dif_neg letter]
    exact inductionHypothesis
  | case4 pos words inside =>
    rw [collectWordsFrom, dif_neg inside]

/-- The loop comes to every word that is not behind a letter, unless it stops before with the bit that stands alone. -/
theorem collectWordsFrom_flag {flag : WordFlag} {target : Nat} (flagged : wordFlag sql target = some flag)
    (inText : target < sql.length) (letter : isIdentChar (byteAt sql target))
    (boundary : isIdentChar (if target = 0 then 0 else byteAt sql (target - 1)) = false) (words : Finset WordFlag)
    (notBefore : pos ≤ target) :
    flag ∈ collectWordsFrom sql pos words ∨ .single ∈ collectWordsFrom sql pos words := by
  induction pos, words using collectWordsFrom.induct sql with
  | case1 pos words inside isLetter found =>
    rw [collectWordsFrom, dif_pos inside, dif_pos isLetter, if_pos found]
    exact .inr found
  | case2 pos words inside isLetter found behind inductionHypothesis =>
    rw [collectWordsFrom, dif_pos inside, dif_pos isLetter, if_neg found]
    obtain rfl | before := notBefore.eq_or_lt
    · refine .inl (subset_collectWordsFrom _ _ _ (Finset.mem_union_right _ ?_))
      rw [flagged]
      simp
    · rw [if_neg (by omega)] at boundary
      have stops := runEnd_le_of_refused (Nat.le_sub_one_of_lt before) (by omega) boundary
      exact inductionHypothesis (by omega)
  | case3 pos words inside noLetter inductionHypothesis =>
    rw [collectWordsFrom, dif_pos inside, dif_neg noLetter]
    obtain rfl | before := notBefore.eq_or_lt
    · exact absurd letter noLetter
    · exact inductionHypothesis before
  | case4 pos words inside => omega

/-- A word of the mask is collected. -/
theorem collectWords_word {entry : String × WordFlag} (listed : entry ∈ flaggedWords)
    (stands : wordAt (maskNonCode sql) pos (ascii entry.1)) :
    entry.2 ∈ collectWords sql ∨ .single ∈ collectWords sql := by
  have keyword := flaggedWords_keyword listed
  have same := (maskNonCode_follows sql).asciiWordEqual keyword stands
  have bounds := (Bool.and_eq_true_iff.mp same).2
  simp only [isWordBoundary, Bool.and_eq_true, Bool.not_eq_true'] at bounds
  have letter : isIdentChar (byteAt sql pos) := by
    have here := asciiWordEqual_byte same keyword.length_pos
    rw [← isIdentChar_foldChar]
    rw [Nat.add_zero] at here
    rw [here, isIdentChar_foldChar]
    exact (keyword.letter keyword.length_pos).1
  have ends := (maskNonCode_follows sql).length ▸ wordAt_length stands
  have positive := keyword.length_pos
  exact collectWordsFrom_flag (wordFlag_word listed same) (by omega) letter bounds.1 ∅ (Nat.zero_le _)

/-- More bits need the mask as well. -/
theorem needsMask_mono {words more : Finset WordFlag} (subset : words ⊆ more) (needs : needsMask words) :
    needsMask more := by
  simp only [needsMask, Bool.or_eq_true, Bool.and_eq_true, decide_eq_true_eq] at needs ⊢
  obtain ((single | upsert) | ⟨join, kind⟩) | charset := needs
  · exact .inl (.inl (.inl (subset single)))
  · exact .inl (.inl (.inr (upsert.trans subset)))
  · exact .inl (.inr ⟨subset join, kind.imp (subset ·) (subset ·)⟩)
  · exact .inr (charset.trans subset)

/-- Words of the mask whose bits need the mask are collected, so that it is taken. -/
theorem needsMask_words {words : List String} (needs : needsMask (flagsOf words))
    (stand : ∀ word ∈ words, ∃ pos, wordAt (maskNonCode sql) pos (ascii word)) :
    needsMask (collectWords sql) := by
  by_cases single : .single ∈ collectWords sql
  · simp [needsMask, single]
  · refine needsMask_mono (fun flag member => ?_) needs
    rw [flagsOf, List.mem_toFinset, List.mem_filterMap] at member
    obtain ⟨word, listed, flagged⟩ := member
    obtain ⟨pos, stands⟩ := stand word listed
    obtain ⟨entry, found, rfl⟩ := Option.map_eq_some_iff.mp flagged
    have chosen := List.find?_some found
    have spelling : entry.1 = word := of_decide_eq_true chosen
    rw [← spelling] at stands
    exact (collectWords_word (List.mem_of_find?_eq_some found) stands).resolve_right single

end collecting

/-- Where the words need no mask, nothing unsupported is in the mask. -/
theorem noMask_supported {sql : Text} (noMask : needsMask (collectWords sql) = false) :
    (∀ phrase ∈ unsupportedPhrases, containsPhrase (maskNonCode sql) (ascii phrase) = false) ∧
      isUnsupportedUpdateJoin (maskNonCode sql) = false ∧ isUnsupportedDeleteJoin (maskNonCode sql) = false := by
  have refused {words : List String} (needs : needsMask (flagsOf words))
      (stand : ∀ word ∈ words, ∃ pos, wordAt (maskNonCode sql) pos (ascii word)) : False := by
    rw [needsMask_words needs stand] at noMask
    cases noMask
  refine ⟨fun phrase listed => ?_, ?_, ?_⟩
  · rw [Bool.eq_false_iff]
    intro found
    have spelledOut := List.mem_map_of_mem listed (f := ascii)
    rw [unsupportedPhrases_parts] at spelledOut
    obtain ⟨part, isPart, same⟩ := List.mem_map.mp spelledOut
    rw [← same] at found
    exact refused (flaggedWords_spelled.2.2 part isPart).2.1 (containsPhrase_words isPart found)
  · rw [Bool.eq_false_iff]
    intro found
    obtain ⟨first, join⟩ := Bool.and_eq_true_iff.mp found
    have needs : needsMask (flagsOf ["update", "join"]) := by decide
    refine refused needs fun word member => ?_
    obtain rfl | member := List.mem_cons.mp member
    · exact firstTopLevelWordIs_word first
    · cases List.mem_singleton.mp member
      exact topLevelWordFrom_word join
  · rw [Bool.eq_false_iff]
    intro found
    obtain ⟨first, join⟩ := Bool.and_eq_true_iff.mp (Bool.and_eq_true_iff.mp found).1
    have needs : needsMask (flagsOf ["delete", "join"]) := by decide
    refine refused needs fun word member => ?_
    obtain rfl | member := List.mem_cons.mp member
    · exact firstTopLevelWordIs_word first
    · cases List.mem_singleton.mp member
      exact topLevelWordFrom_word join

/-- The outcome is that of the tests of the mask, whether or not it is taken. -/
theorem rejectUnsupported_eq (sql : Text) : rejectUnsupported sql = rejectMasked (maskNonCode sql) := by
  rw [rejectUnsupported]
  split_ifs with needs
  · rfl
  · obtain ⟨phrases, update, delete⟩ := noMask_supported (Bool.eq_false_iff.mpr needs)
    have none : (unsupportedPhrases.find? fun phrase => containsPhrase (maskNonCode sql) (ascii phrase)) = none :=
      List.find?_eq_none.mpr fun phrase listed => Bool.eq_false_iff.mp (phrases phrase listed)
    rw [rejectMasked, update, delete, none]
    rfl

/-- The mask blanks what the skipping of spans skips, the filters miss no word of it, and without one of the words that are
collected nothing unsupported is in it. -/
theorem absence_filters_complete (sql : Text) :
    (∀ word, IsKeyword word → ∀ start stop pos, start ≤ pos → pos + word.length ≤ stop →
      wordAt (maskNonCode sql) pos word →
      rawWordMayAppear sql start stop word ∧ (ItemStart sql start → unquotedWordMayAppear sql start stop word)) ∧
    (needsMask (collectWords sql) = false →
      (∀ phrase ∈ unsupportedPhrases, containsPhrase (maskNonCode sql) (ascii phrase) = false) ∧
        isUnsupportedUpdateJoin (maskNonCode sql) = false ∧ isUnsupportedDeleteJoin (maskNonCode sql) = false) ∧
    rejectUnsupported sql = rejectMasked (maskNonCode sql) ∧
    (maskNonCode sql).length = sql.length ∧ Masks sql (maskNonCode sql) := by
  refine ⟨fun word keyword start stop pos behindStart fits stands => ⟨?_, fun begins => ?_⟩, noMask_supported,
    rejectUnsupported_eq sql, (maskNonCode_follows sql).length, masks_maskFrom sql⟩
  · exact rawWordMayAppear_word keyword stands behindStart fits
  · exact unquotedWordMayAppear_word keyword stands begins behindStart fits

/-- A range that begins at the closing quote of a literal hides a word of the mask, and the line feed that is skipped with
a comment is not blanked. -/
theorem unquoted_range_inside_literal :
    wordAt (maskNonCode (ascii "'a' duplicate 'b'")) 4 (ascii "duplicate") = true ∧
      unquotedWordMayAppear (ascii "'a' duplicate 'b'") 2 15 (ascii "duplicate") = false ∧
      skipQuotedOrCommentSpan [Byte.hash, Byte.lineFeed] = 2 ∧
      maskNonCode [Byte.hash, Byte.lineFeed] = [Byte.space, Byte.lineFeed] := by
  decide +kernel

end SqlParser.Mysql
