import SqlParser.Core.BackwardTrivia

/-! # Gaps that read the same in both directions

The backward reading of a gap goes wrong where the marks of a block comment share a byte, where a line is
scanned from the middle of a string or a comment, and where a token ends in the bytes of a closed comment.
A gap without these reads back to the end of the token in front of it.
-/

namespace SqlParser.Core.Source

section condition

variable (lexer : Lexer)

/-! ## The forward reading step by step -/

def opensTrivia (rest : Text) : Bool :=
  rest.head?.any isSpace || opensLineComment lexer rest || opensBlockComment rest

/-- The forward reading takes a byte of white space, a comment or a token. -/
def readStep (rest : Text) : Text :=
  if rest.head?.any isSpace then rest.drop 1
  else if opensLineComment lexer rest then untilLineBreak (rest.drop 1)
  else if opensBlockComment rest then skipBlockComment 1 (rest.drop 2)
  else tokenEnd lexer rest

theorem readStep_suffix {rest : Text} (present : rest ≠ []) : readStep lexer rest <:+ rest.drop 1 := by
  unfold readStep
  split_ifs
  · exact List.suffix_refl _
  · exact untilLineBreak_suffix _
  · exact (skipBlockComment_suffix 1 _).trans (List.drop_suffix_drop_left _ (by decide))
  · exact tokenEnd_suffix lexer present

theorem readStep_shorter {rest : Text} (present : rest ≠ []) : (readStep lexer rest).length < rest.length := by
  have shorter := (readStep_suffix lexer present).length_le
  have := List.length_pos_iff.mpr present
  rw [List.length_drop] at shorter
  omega

theorem opensTrivia_present {rest : Text} (opens : opensTrivia lexer rest = true) : rest ≠ [] := by
  rintro rfl
  cases opens

/-- The positions of the forward reading. -/
def readPositions (rest : Text) : List Text :=
  if _present : rest = [] then [rest] else rest :: readPositions (readStep lexer rest)
termination_by rest.length
decreasing_by exact readStep_shorter lexer _present

/-- The positions of the white space and the comments behind a token. -/
def gapPositions (rest : Text) : List Text :=
  if _opens : opensTrivia lexer rest then rest :: gapPositions (readStep lexer rest) else [rest]
termination_by rest.length
decreasing_by exact readStep_shorter lexer (opensTrivia_present lexer _opens)

/-! ## The condition -/

/-- The marks of block comments. -/
def isMark (first second : UInt8) : Bool :=
  (first = Byte.slash && second = Byte.star) || (first = Byte.star && second = Byte.slash)

/-- The last byte of a mark is no part of another mark: where it makes one with the next byte, that byte begins a mark of
its own. -/
def standsAlone (last : UInt8) (rest : Text) : Bool :=
  rest.head?.all fun next => !isMark last next || (rest.drop 1).head?.any (isMark next)

/-- The marks inside a block comment stand alone, at some depth of the comment. -/
def marksApart : Nat → Text → Bool
  | depth + 1, first :: second :: rest =>
    if first = Byte.slash ∧ second = Byte.star then standsAlone second rest && marksApart (depth + 2) rest
    else if first = Byte.star ∧ second = Byte.slash then depth = 0 || (standsAlone second rest && marksApart depth rest)
    else marksApart (depth + 1) (second :: rest)
  | _, _ => true

/-- The first byte of the line that ends at a position. -/
def lineStart (text rest : Text) : Text :=
  ((before text rest).takeWhile fun byte => !isLineBreak byte).reverse ++ rest

/-- Nothing but single bytes and names stands from a position up to another one. -/
def plainUpTo (position next : Text) : Bool :=
  position.tails.all fun rest => rest.length ≤ next.length ||
    (!opensBlockComment rest && !opensLineComment lexer rest && (stringEnd lexer rest).isNone &&
      next.length ≤ (tokenEnd lexer rest).length)

/-- No line comment opens between two positions. -/
def noLineComment (position next : Text) : Bool :=
  position.tails.all fun rest => rest.length ≤ next.length || !opensLineComment lexer rest

/-- A line that ends at a position has no byte that opens a line comment, or begins where the text read from its beginning
has a token, a comment or white space, or what the line has of the string or comment in which it begins opens nothing. -/
def lineInStep (text rest : Text) : Bool :=
  noLineComment lexer (lineStart text rest) rest ||
    (readPositions lexer text).any fun position =>
      rest.length ≤ position.length && position.length ≤ (lineStart text rest).length &&
        plainUpTo lexer (lineStart text rest) position

/-- The gap behind a token reads the same in both directions. -/
structure GapInStep (text behind : Text) : Prop where
  /-- the token is no slash directly behind a star -/
  token : ¬[Byte.slash, Byte.star] <+: before text behind
  /-- no two marks of a block comment share a byte -/
  blocks : ∀ rest ∈ gapPositions lexer behind, opensBlockComment rest = true →
    standsAlone Byte.star (rest.drop 2) = true ∧ marksApart 1 (rest.drop 2) = true
  /-- a line that ends in the gap is scanned like the text -/
  lines : ∀ rest ∈ gapPositions lexer behind, rest.head?.any isLineBreak = true → lineInStep lexer text rest = true

instance (text behind : Text) : Decidable (GapInStep lexer text behind) :=
  decidable_of_iff (¬[Byte.slash, Byte.star] <+: before text behind ∧
      (∀ rest ∈ gapPositions lexer behind, opensBlockComment rest = true →
        standsAlone Byte.star (rest.drop 2) = true ∧ marksApart 1 (rest.drop 2) = true) ∧
      ∀ rest ∈ gapPositions lexer behind, rest.head?.any isLineBreak = true → lineInStep lexer text rest = true)
    ⟨fun ⟨token, blocks, lines⟩ => ⟨token, blocks, lines⟩, fun inStep => ⟨inStep.token, inStep.blocks, inStep.lines⟩⟩

end condition

/-! ## Block comments -/

theorem before_cons_self (byte : UInt8) {rest after : Text} (suffix : after <:+ rest) :
    before (byte :: rest) after = before rest after ++ [byte] := by
  rw [before_split (List.suffix_cons byte rest) suffix]
  exact congrArg _ (before_append [byte] rest)

/-- A byte that ends no mark is passed over. -/
theorem openingBlockComment_pass {byte : UInt8} {back : Text} (alone : ∀ last ∈ back.head?, isMark last byte = false)
    (depth : Nat) : openingBlockComment depth (byte :: back) = openingBlockComment depth back := by
  cases back with
  | nil =>
    cases depth <;> rfl
  | cons last back =>
    have noMark := alone last rfl
    simp only [isMark, Bool.or_eq_false_iff, Bool.and_eq_false_iff, decide_eq_false_iff_not] at noMark
    rw [openingBlockComment, if_neg (by grind), if_neg (by grind)]

/-- Read back from its end, a block comment closes where it was opened. -/
theorem skipBlockCommentBackward_comment {depth : Nat} {rest back : Text} (inside : depth ≠ 0)
    (opened : openingBlockComment depth back = some [])
    (alone : ∀ last ∈ back.head?, standsAlone last rest = true) (apart : marksApart depth rest = true)
    (closed : skipBlockComment depth rest ≠ []) :
    skipBlockCommentBackward (before rest (skipBlockComment depth rest) ++ back) = some [] := by
  fun_induction skipBlockComment depth rest generalizing back with
  | case1 => exact absurd rfl inside
  | case2 => exact absurd rfl closed
  | case3 => exact absurd rfl closed
  | case4 depth first second rest opens inductionHypothesis =>
    obtain ⟨rfl, rfl⟩ := opens
    rw [marksApart, if_pos ⟨rfl, rfl⟩, Bool.and_eq_true] at apart
    have suffix := skipBlockComment_suffix (depth + 2) rest
    rw [before_cons_self _ (suffix.trans (List.suffix_cons _ _)), before_cons_self _ suffix, List.append_assoc,
      List.append_assoc]
    refine inductionHypothesis (by simp) ?_ ?_ apart.2 closed
    · rw [List.singleton_append, List.singleton_append, openingBlockComment, if_neg (by decide), if_pos (by decide),
        if_neg (by omega)]
      exact opened
    · rintro last ⟨⟩
      exact apart.1
  | case5 depth first second rest opens closes inductionHypothesis =>
    obtain ⟨rfl, rfl⟩ := closes
    rw [marksApart, if_neg opens, if_pos ⟨rfl, rfl⟩, Bool.or_eq_true, decide_eq_true_eq, Bool.and_eq_true] at apart
    have suffix := skipBlockComment_suffix depth rest
    rw [before_cons_self _ (suffix.trans (List.suffix_cons _ _)), before_cons_self _ suffix, List.append_assoc,
      List.append_assoc]
    cases depth with
    | zero =>
      -- the mark that closes the comment
      rw [skipBlockComment, before_self, List.nil_append, List.singleton_append, List.singleton_append,
        skipBlockCommentBackward, if_pos ⟨rfl, rfl⟩]
      exact opened
    | succ depth =>
      have apart := apart.resolve_left (by simp)
      refine inductionHypothesis (by simp) ?_ ?_ apart.2 closed
      · rw [List.singleton_append, List.singleton_append, openingBlockComment, if_pos ⟨rfl, rfl⟩]
        exact opened
      · rintro last ⟨⟩
        exact apart.1
  | case6 depth first second rest opens closes inductionHypothesis =>
    rw [marksApart, if_neg opens, if_neg closes] at apart
    have noMark : isMark first second = false := by
      simp only [isMark, Bool.or_eq_false_iff, Bool.and_eq_false_iff, decide_eq_false_iff_not]
      grind
    rw [before_cons_self _ (skipBlockComment_suffix (depth + 1) (second :: rest)), List.append_assoc]
    refine inductionHypothesis (by simp) ?_ ?_ apart closed
    · rw [List.singleton_append, openingBlockComment_pass (fun last isLast => ?_)]
      · exact opened
      · have stands := alone last isLast
        simp only [standsAlone, List.head?_cons, Option.all_some, List.drop_one, List.tail_cons, Option.any_some,
          noMark, Bool.or_false, Bool.not_eq_true'] at stands
        exact stands
    · rintro last ⟨⟩
      simp [standsAlone, noMark]

/-! ## Positions of the forward reading -/

section positions

variable {lexer : Lexer}

theorem opensLineComment_plain {rest : Text} (opens : opensLineComment lexer rest = true) :
    rest.head?.any isSpace = false ∧ opensBlockComment rest = false ∧ stringEnd lexer rest = none := by
  obtain ⟨first, more, rfl, isFirst⟩ := opensLineComment_first opens
  refine ⟨?_, ?_, ?_⟩
  · rcases isFirst with rfl | rfl <;> rfl
  · rcases isFirst with rfl | rfl <;> rfl
  · rcases isFirst with rfl | rfl <;> rcases more with _ | ⟨second, _ | ⟨third, more⟩⟩ <;>
      simp [stringEnd, skipOracleQQuoted, skipPrefixedString, skipIntroducedString, dollarDelimiter, isLetter, toLower,
        Byte.hash, Byte.dash, Byte.quote, Byte.doubleQuote, Byte.underscore, Byte.dollar]

theorem opensBlockComment_cons {rest : Text} (opens : opensBlockComment rest = true) :
    ∃ more, rest = Byte.slash :: Byte.star :: more := by
  match rest with
  | [] => cases opens
  | [first] => simp [opensBlockComment] at opens
  | first :: second :: more =>
    simp only [opensBlockComment, List.head?_cons, List.drop_one, List.tail_cons, Option.some.injEq, Bool.and_eq_true,
      decide_eq_true_eq] at opens
    exact ⟨more, by rw [opens.1, opens.2]⟩

theorem triviaStep_iff {rest after : Text} :
    TriviaStep lexer rest after ↔ opensTrivia lexer rest = true ∧ after = readStep lexer rest := by
  unfold opensTrivia readStep
  constructor
  · intro step
    cases step with
    | @space byte rest space => simp [space]
    | line opens => simp [opens, (opensLineComment_plain opens).1]
    | block opens =>
      obtain ⟨more, rfl⟩ := opensBlockComment_cons opens
      have noSpace : isSpace Byte.slash = false := by decide
      have noLine : opensLineComment lexer (Byte.slash :: Byte.star :: more) = false := by
        simp [opensLineComment, Byte.slash, Byte.hash, Byte.dash]
      simp [noSpace, noLine, opens]
  · rintro ⟨opens, rfl⟩
    split
    next space =>
      cases rest with
      | nil => cases space
      | cons byte rest => exact .space space
    next noSpace =>
      split
      next line => exact .line line
      next noLine =>
        have block : opensBlockComment rest = true := by
          rw [Bool.or_eq_true, Bool.or_eq_true] at opens
          exact (opens.resolve_left (not_or.mpr ⟨noSpace, noLine⟩))
        rw [if_pos block]
        exact .block block

theorem gapPositions_iff (rest after : Text) : after ∈ gapPositions lexer rest ↔ Trivia lexer rest after := by
  fun_induction gapPositions lexer rest with
  | case1 rest opens inductionHypothesis =>
    rw [List.mem_cons, inductionHypothesis]
    constructor
    · rintro (rfl | onward)
      · exact .refl
      · exact onward.head (triviaStep_iff.mpr ⟨opens, rfl⟩)
    · intro trivia
      rcases Relation.ReflTransGen.cases_head trivia with rfl | ⟨next, step, onward⟩
      · exact .inl rfl
      · rw [(triviaStep_iff.mp step).2] at onward
        exact .inr onward
  | case2 rest closed =>
    rw [List.mem_singleton]
    constructor
    · rintro rfl
      exact .refl
    · intro trivia
      rcases Relation.ReflTransGen.cases_head trivia with rfl | ⟨next, step, -⟩
      · rfl
      · exact absurd (triviaStep_iff.mp step).1 closed

theorem readPositions_self (rest : Text) : rest ∈ readPositions lexer rest := by
  rw [readPositions]
  split <;> exact List.mem_cons_self

theorem readPositions_step {rest after : Text} (present : rest ≠ []) :
    after ∈ readPositions lexer rest ↔ after = rest ∨ after ∈ readPositions lexer (readStep lexer rest) := by
  rw [readPositions, dif_neg present, List.mem_cons]

theorem readPositions_suffix {rest after : Text} (read : after ∈ readPositions lexer rest) : after <:+ rest := by
  fun_induction readPositions lexer rest with
  | case1 => exact List.mem_singleton.mp read ▸ List.suffix_refl _
  | case2 rest present inductionHypothesis =>
    rcases List.mem_cons.mp read with rfl | onward
    · exact List.suffix_refl _
    · exact (inductionHypothesis onward).trans ((readStep_suffix lexer present).trans (List.drop_suffix 1 _))

theorem readPositions_trans {rest middle after : Text} (first : middle ∈ readPositions lexer rest)
    (second : after ∈ readPositions lexer middle) : after ∈ readPositions lexer rest := by
  fun_induction readPositions lexer rest with
  | case1 =>
    cases List.mem_singleton.mp first
    simpa [readPositions] using second
  | case2 rest present inductionHypothesis =>
    rcases List.mem_cons.mp first with rfl | onward
    · rwa [readPositions, dif_neg present] at second
    · exact List.mem_cons_of_mem _ (inductionHypothesis onward)

/-- Of two positions of one reading the later one is a position of the reading from the other. -/
theorem readPositions_later {rest middle after : Text} (first : middle ∈ readPositions lexer rest)
    (second : after ∈ readPositions lexer rest) (order : after.length ≤ middle.length) :
    after ∈ readPositions lexer middle := by
  fun_induction readPositions lexer rest with
  | case1 =>
    cases List.mem_singleton.mp first
    simpa [readPositions] using second
  | case2 rest present inductionHypothesis =>
    rcases List.mem_cons.mp first with rfl | firstOnward
    · rw [readPositions, dif_neg present]
      exact second
    · rcases List.mem_cons.mp second with rfl | secondOnward
      · have := (readPositions_suffix firstOnward).length_le
        have := readStep_shorter lexer present
        omega
      · exact inductionHypothesis firstOnward secondOnward

theorem Trivia.read {rest after : Text} (trivia : Trivia lexer rest after) : after ∈ readPositions lexer rest := by
  induction trivia with
  | refl => exact readPositions_self _
  | @tail middle after _ step inductionHypothesis =>
    obtain ⟨opens, rfl⟩ := triviaStep_iff.mp step
    refine readPositions_trans inductionHypothesis ?_
    exact (readPositions_step (opensTrivia_present lexer opens)).mpr (.inr (readPositions_self _))

/-- What is read up to a position of the gap stands in the gap. -/
theorem Trivia.earlier {behind rest middle : Text} (trivia : Trivia lexer behind rest)
    (read : middle ∈ readPositions lexer behind) (order : rest.length ≤ middle.length) : Trivia lexer behind middle := by
  induction trivia using Relation.ReflTransGen.head_induction_on with
  | refl =>
    rw [(readPositions_suffix read).eq_of_length_le order]
  | @head behind next step _ inductionHypothesis =>
    obtain ⟨opens, rfl⟩ := triviaStep_iff.mp step
    rcases (readPositions_step (opensTrivia_present lexer opens)).mp read with rfl | onward
    · exact .refl
    · exact (inductionHypothesis onward).head step

theorem skipTrivia_step {rest after : Text} (step : TriviaStep lexer rest after) :
    skipTrivia lexer rest = skipTrivia lexer after := by
  cases step with
  | space space => rw [skipTrivia, if_pos space]
  | line opens =>
    obtain ⟨first, more, rfl, -⟩ := opensLineComment_first opens
    have plain := (opensLineComment_plain opens).1
    rw [skipTrivia, if_neg (by simpa using plain), if_pos opens]
    rfl
  | block opens =>
    obtain ⟨more, rfl⟩ := opensBlockComment_cons opens
    have noSpace : isSpace Byte.slash = false := by decide
    have noLine : opensLineComment lexer (Byte.slash :: Byte.star :: more) = false := by
      simp [opensLineComment, Byte.slash, Byte.hash, Byte.dash]
    rw [skipTrivia, if_neg (by simp [noSpace]), if_neg (by simp [noLine]), if_pos opens]
    rfl

theorem skipTrivia_trivia {rest after : Text} (trivia : Trivia lexer rest after) :
    skipTrivia lexer rest = skipTrivia lexer after := by
  induction trivia with
  | refl => rfl
  | tail _ step inductionHypothesis => rw [inductionHypothesis, skipTrivia_step step]

/-- A token starts where no trivia opens. -/
theorem skipTrivia_code {rest : Text} (code : skipTrivia lexer rest ≠ []) :
    opensTrivia lexer (skipTrivia lexer rest) = false := by
  refine Bool.eq_false_iff.mpr fun opens => ?_
  have step := (@triviaStep_iff lexer _ _).mpr ⟨opens, rfl⟩
  have same := skipTrivia_trivia (skipTrivia_reads lexer rest)
  rw [skipTrivia_step step] at same
  have shorter := readStep_shorter lexer code
  have bound := (skipTrivia_suffix lexer (readStep lexer (skipTrivia lexer rest))).length_le
  rw [← same] at bound
  omega

theorem Behind.read {text behind : Text} (read : Behind lexer text behind) : behind ∈ readPositions lexer text := by
  induction read with
  | beginning => exact readPositions_self _
  | @token earlier _ code inductionHypothesis =>
    refine readPositions_trans (readPositions_trans inductionHypothesis (skipTrivia_reads lexer earlier).read) ?_
    refine (readPositions_step code).mpr (.inr ?_)
    have plain := skipTrivia_code code
    rw [opensTrivia, Bool.or_eq_false_iff, Bool.or_eq_false_iff] at plain
    rw [readStep, if_neg (by simp [plain.1.1]), if_neg (by simp [plain.1.2]), if_neg (by simp [plain.2])]
    exact readPositions_self _

/-- No trivia ends where a token does. -/
theorem Behind.not_trivia {text behind opening : Text} (read : Behind lexer text behind)
    (inText : opening ∈ readPositions lexer text) (opens : opensTrivia lexer opening = true) :
    readStep lexer opening ≠ behind := by
  intro isStep
  have shorter := readStep_shorter lexer (opensTrivia_present lexer opens)
  rw [isStep] at shorter
  cases read with
  | beginning =>
    have := (readPositions_suffix inText).length_le
    omega
  | @token earlier read code =>
    have plain := skipTrivia_code code
    have tokenRead := readPositions_trans read.read (skipTrivia_reads lexer earlier).read
    have isToken : readStep lexer (skipTrivia lexer earlier) = tokenEnd lexer (skipTrivia lexer earlier) := by
      rw [opensTrivia, Bool.or_eq_false_iff, Bool.or_eq_false_iff] at plain
      rw [readStep, if_neg (by simp [plain.1.1]), if_neg (by simp [plain.1.2]), if_neg (by simp [plain.2])]
    have tokenShorter := tokenEnd_shorter lexer code
    rcases Nat.le_total (skipTrivia lexer earlier).length opening.length with order | order
    · rcases (readPositions_step (opensTrivia_present lexer opens)).mp (readPositions_later inText tokenRead order) with
        same | onward
      · rw [same, opens] at plain
        cases plain
      · rw [isStep] at onward
        have := (readPositions_suffix onward).length_le
        omega
    · rcases (readPositions_step code).mp (readPositions_later tokenRead inText order) with same | onward
      · rw [← same, opens] at plain
        cases plain
      · rw [isToken] at onward
        have := (readPositions_suffix onward).length_le
        omega

end positions

/-! ## Lines -/

section lines

variable {lexer : Lexer}

theorem lineCommentStart_some {stop : Nat} {rest opening : Text} (found : lineCommentStart lexer stop rest = some opening) :
    opening <:+ rest ∧ stop < opening.length ∧ opensLineComment lexer opening = true := by
  fun_induction lineCommentStart lexer stop rest with
  | case1 => cases found
  | case2 rest inside block inductionHypothesis =>
    obtain ⟨suffix, behind⟩ := inductionHypothesis found
    exact ⟨suffix.trans ((skipBlockComment_suffix 1 _).trans (List.drop_suffix 2 _)), behind⟩
  | case3 rest inside noBlock line =>
    cases found
    exact ⟨List.suffix_refl _, Nat.lt_of_not_le inside, line.2.1⟩
  | case4 rest inside noBlock noLine inductionHypothesis =>
    obtain ⟨suffix, behind⟩ := inductionHypothesis found
    have present : rest ≠ [] := by
      rintro rfl
      exact inside (Nat.zero_le _)
    exact ⟨suffix.trans ((tokenEnd_suffix lexer present).trans (List.drop_suffix 1 _)), behind⟩

theorem tokenEnd_space {rest : Text} (space : rest.head?.any isSpace = true) : tokenEnd lexer rest = rest.drop 1 := by
  match rest with
  | [] => cases space
  | byte :: more =>
    have blank : isSpace byte = true := space
    have noLetter : ∀ letter, 97 ≤ letter ∧ letter ≤ 122 → isLetter letter byte = false := by
      intro letter isLower
      refine Bool.eq_false_iff.mpr fun same => ?_
      have alpha := isLetter_alpha isLower same
      grind [isSpace, isAlpha]
    have notString : stringEnd lexer (byte :: more) = none := by
      have noQuote : byte ≠ Byte.quote := by rintro rfl; cases blank
      have noDoubleQuote : byte ≠ Byte.doubleQuote := by rintro rfl; cases blank
      have noUnderscore : byte ≠ Byte.underscore := by rintro rfl; cases blank
      have noDollar : byte ≠ Byte.dollar := by rintro rfl; cases blank
      rcases more with _ | ⟨second, _ | ⟨third, more⟩⟩ <;>
        simp [stringEnd, skipOracleQQuoted, skipPrefixedString, skipIntroducedString, dollarDelimiter, noQuote,
          noDoubleQuote, noUnderscore, noDollar, noLetter]
    have notIdentifier : isIdentifier (byte :: more) = false := by
      rw [isIdentifier_cons]
      have noUamp : opensUampIdentifier (byte :: more) = false := by
        rcases more with _ | ⟨second, _ | ⟨third, more⟩⟩ <;> simp [opensUampIdentifier, noLetter]
      rw [noUamp]
      grind [isSpace, isIdentifierStart, isAlpha]
    rw [tokenEnd, notString, notIdentifier]
    rfl

/-- In front of a position of the line that is no comment the scan goes on like the forward reading. -/
theorem lineCommentStart_step {rest position : Text} (suffix : rest <:+ position)
    (atBreak : rest.head?.any isLineBreak = true) (inside : rest.length < position.length)
    (noLine : opensLineComment lexer position = false) :
    lineCommentStart lexer rest.length position = lineCommentStart lexer rest.length (readStep lexer position) := by
  conv_lhs => rw [lineCommentStart]
  rw [if_neg (Nat.not_le_of_lt inside), readStep]
  by_cases block : opensBlockComment position = true
  · obtain ⟨more, rfl⟩ := opensBlockComment_cons block
    have noSpace : isSpace Byte.slash = false := by decide
    have two : rest.length + 1 < (Byte.slash :: Byte.star :: more).length := by
      obtain ⟨front, isPosition⟩ := suffix
      match front with
      | [] =>
        rw [← isPosition] at inside
        exact absurd inside (Nat.lt_irrefl _)
      | [only] =>
        -- the star of the opening is no line break
        have isRest : rest = Byte.star :: more := (List.cons.inj isPosition).2
        rw [isRest] at atBreak
        cases atBreak
      | _ :: _ :: front =>
        rw [← isPosition, List.length_append, List.length_cons, List.length_cons]
        omega
    rw [if_pos ⟨two, block⟩, noLine, block]
    simp [noSpace]
  · rw [if_neg (fun both => block both.2), noLine]
    have noBlock : opensBlockComment position = false := Bool.eq_false_iff.mpr block
    simp only [Bool.false_eq_true, false_and, and_false, if_false, noBlock]
    split
    next space => rw [tokenEnd_space space]
    next => rfl

theorem lineCommentStart_comment {stop : Nat} {position : Text} (opens : opensLineComment lexer position = true)
    (first : stop < position.length) (second : position.head? = some Byte.hash ∨ stop + 1 < position.length) :
    lineCommentStart lexer stop position = some position := by
  obtain ⟨-, noBlock, noString⟩ := opensLineComment_plain opens
  rw [lineCommentStart, if_neg (Nat.not_le_of_lt first), if_neg (by simp [noBlock]), noString]
  exact if_pos ⟨rfl, opens, second⟩

/-- The bytes up to the end of a line have no line break. -/
def SameLine (position rest : Text) : Prop :=
  rest <:+ position ∧ ∀ byte ∈ before position rest, isLineBreak byte = false

theorem SameLine.later {position middle rest : Text} (sameLine : SameLine position rest) (front : middle <:+ position)
    (back : rest <:+ middle) : SameLine middle rest := by
  refine ⟨back, fun byte listed => sameLine.2 byte ?_⟩
  rw [before_split front back]
  exact List.mem_append_left _ listed

theorem untilLineBreak_sameLine {position rest : Text} (sameLine : SameLine position rest)
    (atBreak : rest.head?.any isLineBreak = true) : untilLineBreak position = rest := by
  obtain ⟨⟨front, rfl⟩, plain⟩ := sameLine
  rw [before_append] at plain
  rw [untilLineBreak, List.dropWhile_append_of_pos (fun byte listed => by simp [plain byte (List.mem_reverse.mpr listed)])]
  cases rest with
  | nil => rfl
  | cons byte rest =>
    have isBreak : isLineBreak byte = true := atBreak
    rw [List.dropWhile_cons_of_neg (by simp [isBreak])]

/-- A line comment that stands in a line ends with it. -/
theorem readStep_comment {position rest : Text} (sameLine : SameLine position rest)
    (atBreak : rest.head?.any isLineBreak = true) (inside : rest.length < position.length)
    (opens : opensLineComment lexer position = true) : readStep lexer position = rest := by
  obtain ⟨noSpace, -⟩ := opensLineComment_plain opens
  rw [readStep, if_neg (by simp [noSpace]), if_pos opens]
  refine untilLineBreak_sameLine (sameLine.later (List.drop_suffix 1 _) ?_) atBreak
  refine List.suffix_of_suffix_length_le sameLine.1 (List.drop_suffix 1 _) ?_
  rw [List.length_drop]
  omega

/-- From a position of the reading the scan of the line finds the comment that the reading has there. -/
theorem lineCommentStart_iff {position rest : Text} (read : rest ∈ readPositions lexer position)
    (sameLine : SameLine position rest) (atBreak : rest.head?.any isLineBreak = true) (opening : Text) :
    lineCommentStart lexer rest.length position = some opening ↔
      opening ∈ readPositions lexer position ∧ opensLineComment lexer opening = true ∧ readStep lexer opening = rest := by
  have opensShorter {opening : Text} (opens : opensLineComment lexer opening = true) :
      (readStep lexer opening).length < opening.length :=
    readStep_shorter lexer (opensTrivia_present lexer (by simp [opensTrivia, opens]))
  induction size : position.length using Nat.strong_induction_on generalizing position with
  | _ size inductionHypothesis =>
    by_cases here : position = rest
    · subst here
      rw [lineCommentStart, if_pos le_rfl]
      refine iff_of_false (fun same => by cases same) ?_
      rintro ⟨listed, opens, isRest⟩
      have := (readPositions_suffix listed).length_le
      have := opensShorter opens
      rw [isRest] at this
      omega
    have present : position ≠ [] := by
      rintro rfl
      exact here (List.suffix_nil.mp sameLine.1).symm
    have inside : rest.length < position.length := by
      refine Nat.lt_of_le_of_ne sameLine.1.length_le fun same => here ?_
      exact (sameLine.1.eq_of_length same).symm
    have onward := ((readPositions_step present).mp read).resolve_left (fun same => here same.symm)
    by_cases opens : opensLineComment lexer position = true
    · have isRest := readStep_comment sameLine atBreak inside opens
      have second : position.head? = some Byte.hash ∨ rest.length + 1 < position.length := by
        obtain ⟨first, more, rfl, isFirst⟩ := opensLineComment_first opens
        rcases isFirst with rfl | rfl
        · exact .inl rfl
        · refine .inr (Nat.lt_of_le_of_ne inside fun same => ?_)
          -- the second dash is no line break
          have isMore : more = rest :=
            (List.suffix_of_suffix_length_le (List.suffix_cons _ _) sameLine.1 (by simp at same; omega)).eq_of_length
              (by simp at same; omega)
          rw [← isMore] at atBreak
          simp only [opensLineComment, Byte.dash, Byte.hash] at opens
          cases more with
          | nil => cases atBreak
          | cons byte more =>
            have isDash : byte = Byte.dash := by simpa using (by simpa using opens : byte = 45 ∧ _).1
            rw [isDash] at atBreak
            cases atBreak
      rw [lineCommentStart_comment opens inside second]
      constructor
      · rintro ⟨⟩
        exact ⟨readPositions_self _, opens, isRest⟩
      · rintro ⟨listed, otherOpens, otherRest⟩
        rcases (readPositions_step present).mp listed with rfl | later
        · rfl
        · rw [isRest] at later
          have := (readPositions_suffix later).length_le
          have := opensShorter otherOpens
          rw [otherRest] at this
          omega
    · rw [lineCommentStart_step sameLine.1 atBreak inside (Bool.eq_false_iff.mpr opens)]
      have shorter := readStep_shorter lexer present
      have suffix := (readStep_suffix lexer present).trans (List.drop_suffix 1 _)
      refine (inductionHypothesis _ (size ▸ shorter) onward (sameLine.later suffix (readPositions_suffix onward)) rfl).trans ?_
      refine and_congr_left fun both => ?_
      rw [readPositions_step present]
      exact ⟨.inr, fun listed => listed.resolve_left fun same => opens (same ▸ both.1)⟩

/-- Bytes that open nothing are passed up to the position behind them. -/
theorem lineCommentStart_plain {position next rest : Text} (plain : plainUpTo lexer position next = true)
    (front : next <:+ position) (back : rest <:+ next) :
    lineCommentStart lexer rest.length position = lineCommentStart lexer rest.length next := by
  have tested := List.all_eq_true.mp plain
  have walk : ∀ middle, middle <:+ position → next <:+ middle →
      lineCommentStart lexer rest.length middle = lineCommentStart lexer rest.length next := by
    intro middle
    induction size : middle.length using Nat.strong_induction_on generalizing middle with
    | _ size inductionHypothesis =>
      intro inPosition hasNext
      by_cases here : middle.length ≤ next.length
      · rw [hasNext.eq_of_length_le here]
      have passes := tested middle ((List.mem_tails _ _).mpr inPosition)
      simp only [Bool.or_eq_true, decide_eq_true_eq, here, false_or, Bool.and_eq_true, Bool.not_eq_true',
        Option.isNone_iff_eq_none] at passes
      obtain ⟨⟨⟨noBlock, noLine⟩, noString⟩, within⟩ := passes
      have present : middle ≠ [] := by
        rintro rfl
        exact here (Nat.zero_le _)
      have ends := tokenEnd_shorter lexer present
      have suffix := (tokenEnd_suffix lexer present).trans (List.drop_suffix 1 _)
      have inside := back.length_le
      rw [lineCommentStart, if_neg (by omega), if_neg (by simp [noBlock]), if_neg (by simp [noLine])]
      exact inductionHypothesis _ (size ▸ ends) _ rfl (suffix.trans inPosition)
        (List.suffix_of_suffix_length_le hasNext suffix within)
  exact walk position (List.suffix_refl _) front

/-- The line that ends at a position of a text. -/
theorem lineStart_sameLine {text rest : Text} (suffix : rest <:+ text) :
    lineStart text rest <:+ text ∧ SameLine (lineStart text rest) rest ∧
      ∀ position, position <:+ text → SameLine position rest → position <:+ lineStart text rest := by
  obtain ⟨front, rfl⟩ := suffix
  have split := List.takeWhile_append_dropWhile (p := fun byte => !isLineBreak byte) (l := front.reverse)
  have isLine : lineStart (front ++ rest) rest = (front.reverse.takeWhile fun byte => !isLineBreak byte).reverse ++ rest := by
    rw [lineStart, before_append]
  rw [isLine]
  refine ⟨?_, ⟨List.suffix_append _ _, fun byte listed => ?_⟩, ?_⟩
  · conv_rhs => rw [← List.reverse_reverse front, ← split, List.reverse_append, List.append_assoc]
    exact List.suffix_append _ _
  · rw [before_append, List.reverse_reverse] at listed
    simpa using List.mem_takeWhile_imp listed
  · rintro position ⟨earlier, isText⟩ ⟨⟨line, rfl⟩, plain⟩
    rw [before_append] at plain
    have isFront : front.reverse = line.reverse ++ earlier.reverse := by
      rw [← List.reverse_append]
      rw [← List.append_assoc] at isText
      rw [List.append_cancel_right isText]
    have within : line.reverse <+: front.reverse.takeWhile fun byte => !isLineBreak byte := by
      rw [isFront, List.takeWhile_append_of_pos (fun byte listed => by simp [plain byte listed])]
      exact List.prefix_append _ _
    obtain ⟨more, isMore⟩ := within
    refine ⟨more.reverse, ?_⟩
    rw [← isMore, List.reverse_append, List.reverse_reverse, List.append_assoc]

end lines

/-! ## Both directions -/

section gap

variable {lexer : Lexer} {text behind : Text}

/-- A comment of the gap is a position of the reading in the line that it ends. -/
theorem CommentEnds.sameLine {opening rest : Text} (ends : CommentEnds lexer behind opening rest) :
    SameLine opening rest ∧ rest.length < opening.length ∧ readStep lexer opening = rest := by
  obtain ⟨trivia, opens, isRest⟩ := ends
  have step := (triviaStep_iff.mp (TriviaStep.line opens)).2
  rw [isRest] at step
  have shorter := readStep_shorter lexer (opensTrivia_present lexer (by simp [opensTrivia, opens] : opensTrivia lexer opening = true))
  rw [← step] at shorter
  refine ⟨⟨?_, ?_⟩, shorter, step.symm⟩
  · rw [← isRest]
    exact (untilLineBreak_suffix _).trans (List.drop_suffix 1 _)
  · rw [← isRest]
    exact (lineComment_bytes opens).2

/-- In a gap that is in step, the scan of a line finds the comment that ends there. -/
theorem lineComment_iff (read : Behind lexer text behind) {rest : Text} (trivia : Trivia lexer behind rest)
    (atBreak : rest.head?.any isLineBreak = true) (inStep : lineInStep lexer text rest = true) (opening : Text) :
    lineComment lexer text rest = some opening ↔ CommentEnds lexer behind opening rest := by
  have inText := trivia.suffix.trans read.suffix
  obtain ⟨lineInText, sameLine, longest⟩ := lineStart_sameLine inText
  change lineCommentStart lexer rest.length (lineStart text rest) = some opening ↔ _
  -- a comment of the gap that ends here stands in the line
  have inLine (ends : CommentEnds lexer behind opening rest) : opening <:+ lineStart text rest :=
    longest opening (ends.1.suffix.trans read.suffix) ends.sameLine.1
  rw [lineInStep, Bool.or_eq_true] at inStep
  rcases inStep with none | inStep
  · -- no comment opens in the line, so neither reading finds one
    have tested := List.all_eq_true.mp none
    constructor
    · intro found
      obtain ⟨suffix, inside, opens⟩ := lineCommentStart_some found
      have closed := tested opening ((List.mem_tails _ _).mpr suffix)
      simp [opens, Nat.not_le_of_lt inside] at closed
    · intro ends
      have closed := tested opening ((List.mem_tails _ _).mpr (inLine ends))
      simp [ends.2.1, Nat.not_le_of_lt ends.sameLine.2.1] at closed
  obtain ⟨position, positionRead, bounds⟩ := List.any_eq_true.mp inStep
  simp only [Bool.and_eq_true, decide_eq_true_eq] at bounds
  obtain ⟨⟨behindRest, inFront⟩, plain⟩ := bounds
  have positionText := readPositions_suffix positionRead
  have front := List.suffix_of_suffix_length_le positionText lineInText inFront
  have back := List.suffix_of_suffix_length_le inText positionText behindRest
  have restRead := readPositions_trans read.read trivia.read
  have sameLineLater := sameLine.later front back
  rw [lineCommentStart_plain plain front back,
    lineCommentStart_iff (readPositions_later positionRead restRead behindRest) sameLineLater atBreak]
  constructor
  · rintro ⟨listed, opens, isRest⟩
    have openingRead := readPositions_trans positionRead listed
    have openingTrivia : opensTrivia lexer opening = true := by simp [opensTrivia, opens]
    have shorter := readStep_shorter lexer (opensTrivia_present lexer openingTrivia)
    rw [isRest] at shorter
    have step := triviaStep_iff.mp (TriviaStep.line opens)
    refine ⟨?_, opens, step.2.trans isRest⟩
    -- the comment and the end of the token are positions of one reading, and the comment is not the one that ends there
    rcases Nat.le_total opening.length behind.length with order | order
    · exact trivia.earlier (readPositions_later read.read openingRead order) shorter.le
    · rcases (readPositions_step (opensTrivia_present lexer openingTrivia)).mp
        (readPositions_later openingRead read.read order) with rfl | onward
      · exact .refl
      · rw [isRest] at onward
        have isBehind : behind = rest :=
          ((readPositions_suffix onward).eq_of_length_le trivia.suffix.length_le)
        exact absurd (isRest.trans isBehind.symm) (read.not_trivia openingRead openingTrivia)
  · intro ends
    obtain ⟨-, inside, isRest⟩ := ends.sameLine
    refine ⟨?_, ends.2.1, isRest⟩
    have openingRead := readPositions_trans read.read ends.1.read
    rcases Nat.le_total opening.length position.length with order | order
    · exact readPositions_later positionRead openingRead order
    have openingTrivia : opensTrivia lexer opening = true := by simp [opensTrivia, ends.2.1]
    rcases (readPositions_step (opensTrivia_present lexer openingTrivia)).mp
      (readPositions_later openingRead positionRead order) with rfl | onward
    · exact readPositions_self _
    · -- the comment stands among the bytes that open nothing
      rw [isRest] at onward
      have isPosition : position = rest := (readPositions_suffix onward).eq_of_length_le behindRest
      have tested := List.all_eq_true.mp plain opening ((List.mem_tails _ _).mpr (inLine ends))
      simp [isPosition, ends.2.1, Nat.not_le_of_lt inside] at tested

/-- A gap in step reads back. -/
theorem GapInStep.readsBack (inStep : GapInStep lexer text behind) (read : Behind lexer text behind)
    (code : skipTrivia lexer behind ≠ []) : ReadsBack lexer text behind where
  token := by
    refine Option.eq_none_iff_forall_ne_some.mpr fun position found => inStep.token ?_
    obtain ⟨rest, isBefore, -⟩ := skipBlockCommentBackward_some found
    rw [isBefore]
    exact ⟨rest, rfl⟩
  blocks rest trivia opens := by
    obtain ⟨alone, apart⟩ := inStep.blocks rest ((gapPositions_iff behind rest).mpr trivia) opens
    have closed : skipBlockComment 1 (rest.drop 2) ≠ [] := by
      intro unclosed
      have same := skipTrivia_trivia (trivia.tail (.block opens))
      rw [unclosed, skipTrivia] at same
      exact code same
    obtain ⟨more, rfl⟩ := opensBlockComment_cons opens
    have suffix := skipBlockComment_suffix 1 more
    change skipBlockCommentBackward (before (Byte.slash :: Byte.star :: more) (skipBlockComment 1 more)) = some []
    rw [before_cons_self _ (suffix.trans (List.suffix_cons _ _)), before_cons_self _ suffix, List.append_assoc]
    refine skipBlockCommentBackward_comment (by decide) rfl ?_ apart closed
    rintro last ⟨⟩
    exact alone
  lines rest trivia atBreak opening :=
    lineComment_iff read trivia atBreak (inStep.lines rest ((gapPositions_iff behind rest).mpr trivia) atBreak) opening

end gap

/-- A line comment with a quote and a block comment over two lines stand between `AS` and the alias. -/
def commentedAlias : Text :=
  ascii "a AS -- it's\n/* x\n/* y */ */ b"

end SqlParser.Core.Source
