import SqlParser.Postgresql.Preprocess

/-! # The PostgreSQL preprocessor and the public lexer

The preprocessor has copy routines of its own for comments, dollar quotes, quoted
identifiers and literals.  Where all of them end their items like the public lexer, what
it takes off the text is what the public lexer sees as the prefix of a national literal.
-/

namespace SqlParser.Postgresql

open SqlParser.Core
open SqlParser.Library.ItemReader

/-! ## The public lexer in PostgreSQL texts -/

section postgresql

variable {sql tail : Text} {byte : UInt8} {index : Nat}

/-- Whether a dollar at the offset stands behind a byte that keeps it from opening a quote. -/
def dollarBlocked (sql : Text) (index : Nat) : Prop :=
  0 < index ∧ (isAlnum (byteAt sql (index - 1)) ∨ byteAt sql (index - 1) = Byte.underscore ∨
    byteAt sql (index - 1) = Byte.dollar ∨ byteAt sql (index - 1) ≥ 0x80)

instance (sql : Text) (index : Nat) : Decidable (dollarBlocked sql index) :=
  inferInstanceAs (Decidable (_ ∧ _))

theorem dollarTagChar_eq : publicDollarTagCharIsIdent = isIdentChar := by
  funext byte
  rfl

theorem publicSkipDollarQuote_eq (located : sql.drop index = Byte.dollar :: tail) :
    publicSkipDollarQuote sql index =
      if dollarBlocked sql index then index
      else
        match dollarQuoteTagEnd (Byte.dollar :: tail) with
        | none => index
        | some body =>
          match behindDelimiter (before (Byte.dollar :: tail) body) body with
          | some rest => offsetOf sql rest
          | none => index := by
  have first : byteAt sql index = Byte.dollar := by rw [byteAt_eq_head, located]; rfl
  have behind : sql.drop (index + 1) = tail := by rw [← List.drop_drop, located]; rfl
  simp only [publicSkipDollarQuote]
  by_cases blocked : dollarBlocked sql index
  · rw [if_pos blocked, if_pos (.inr blocked)]
  rw [if_neg blocked, if_neg (fun opens => opens.elim (fun other => other first) blocked), behind, dollarTagChar_eq,
    located, dollarQuoteTagEnd, if_pos rfl]
  have whole := @List.takeWhile_append_dropWhile _ isIdentChar tail
  generalize tail.takeWhile isIdentChar = tag at whole ⊢
  generalize tail.dropWhile isIdentChar = later at whole ⊢
  subst whole
  have laterStart : sql.drop (index + 1 + tag.length) = later := by
    rw [← List.drop_drop, behind, List.drop_left]
  have closer : byteAt sql (index + 1 + tag.length) = later.headD 0 := by
    rw [byteAt_eq_head, laterStart]
  rw [closer]
  cases later with
  | nil => rfl
  | cons last body =>
    rw [List.headD_cons]
    by_cases closes : last = Byte.dollar
    · subst closes
      have bodyStart : sql.drop (index + 1 + tag.length + 1) = body := by
        rw [← List.drop_drop, laterStart, List.drop_one, List.tail_cons]
      have delimiter : (Byte.dollar :: (tag ++ Byte.dollar :: body)).take (index + 1 + tag.length - index + 1) =
          before (Byte.dollar :: (tag ++ Byte.dollar :: body)) body := by
        rw [before]
        congr 1
        rw [List.length_cons, List.length_append, List.length_cons]
        omega
      rw [if_neg (not_not.mpr rfl), bodyStart, delimiter]
      exact rfl
    · rw [if_pos closes]
      simp only [if_neg closes]

theorem publicSkip_postgresql (located : sql.drop index = byte :: tail) :
    publicSkipQuotedOrComment .postgresql sql index =
      if byte = Byte.dollar then publicSkipDollarQuote sql index
      else if byte = Byte.dash then
        if byteAt tail 0 = Byte.dash then offsetOf sql (behindLine (tail.drop 1)) else index
      else if byte = Byte.slash then
        if byteAt tail 0 = Byte.star then offsetOf sql (behindBlockComment true 1 (tail.drop 1)) else index
      else if byte = Byte.quote then offsetOf sql (behindQuoted byte (escapePrefixed sql index) tail)
      else if byte = Byte.doubleQuote then offsetOf sql (behindQuoted byte false tail)
      else index := by
  have first : byteAt sql index = byte := by rw [byteAt_eq_head, located]; rfl
  have behind : sql.drop (index + 1) = tail := by rw [← List.drop_drop, located]; rfl
  have second : byteAt sql (index + 1) = byteAt tail 0 := by rw [← behind, byteAt_drop]
  have behindTwo : sql.drop (index + 2) = tail.drop 1 := by rw [← behind, List.drop_drop]
  have noQQuote : publicSkipOracleQQuote .postgresql sql index = index := rfl
  have escapes : publicBackslashEscapes .postgresql sql index byte = (byte = Byte.quote && escapePrefixed sql index) := by
    simp [publicBackslashEscapes, escapePrefixed, Dialect.isMysqlCompatible, Bool.and_assoc]
  simp only [publicSkipQuotedOrComment, first, second, behind, behindTwo, noQQuote, escapes]
  -- a byte that opens nothing in PostgreSQL is none of the bytes that are tested behind it
  by_cases dollar : byte = Byte.dollar
  · subst dollar
    rfl
  by_cases letter : byte = 113 ∨ byte = 81 ∨ byte = 110 ∨ byte = 78
  · obtain rfl | rfl | rfl | rfl := letter <;> rfl
  by_cases hash : byte = Byte.hash
  · subst hash
    rfl
  rw [if_neg dollar, if_neg dollar, if_neg letter]
  by_cases dash : byte = Byte.dash
  · subst dash
    simp [Dialect.isMysqlCompatible]
  rw [if_neg dash, if_neg hash, if_neg dash]
  by_cases slash : byte = Byte.slash
  · rw [if_pos slash, if_pos slash]
    simp [publicNestedComments, Dialect.usesPostgresqlPlaceholders]
  rw [if_neg slash, if_neg slash]
  by_cases bracket : byte = Byte.openBracket
  · subst bracket
    rfl
  rw [if_neg bracket]
  by_cases quote : byte = Byte.quote <;> simp [quote, Dialect.isMysqlCompatible]

end postgresql

/-! ## Where items end -/

/-- The two loops over a quoted item without escapes. -/
theorem behindDoubled_public {quote : UInt8} (plain : quote ≠ Byte.backslash) (rest : Text) :
    behindQuoted quote false rest = behindDoubled quote rest := by
  fun_induction behindDoubled quote rest with
  | case1 => exact behindQuoted_nil _ _
  | case2 => exact behindQuoted_last _ _ _
  | case3 rest inductionHypothesis =>
    rw [behindQuoted_quote plain, if_pos rfl]
    exact inductionHypothesis
  | case4 next rest single => rw [behindQuoted_quote plain, if_neg single]
  | case5 byte next rest other inductionHypothesis =>
    rw [behindQuoted_pass (by simp [stopsQuoted, other])]
    exact inductionHypothesis

/-- Whether the public lexer opens a dollar quote, the body closes it, and no closing tag begins with
the dollar that ends the opening tag. -/
def dollarInStep (sql : Text) (start : Nat) : Bool :=
  !decide (dollarBlocked sql start) &&
    match dollarQuoteTagEnd (sql.drop start) with
    | none => true
    | some body =>
      let tag := before (sql.drop start) body
      !(tag.drop 1).isPrefixOf body && (behindDelimiter tag body).isSome

/-- In step are a line comment and a quoted identifier, a block comment that does not nest, a dollar quote
as above, and a literal in which no backslash behind the word `E` escapes a quote. -/
def itemInStep (sql : Text) (item : Item) : Bool :=
  let first := byteAt sql item.start
  let body := sql.drop (item.start + 1)
  if first = Byte.slash then blockInStep (body.drop 1)
  else if first = Byte.dollar then dollarInStep sql item.start
  else if first = Byte.quote ∧ escapePrefixed sql item.start then escapesInStep Byte.quote body
  else true

/-- What the preprocessor passes at an offset as an item. -/
def Passes (sql : Text) (start next : Nat) : Prop :=
  (∃ kind behind, copyVerbatim (sql.drop start) = some (kind, behind) ∧ next = offsetOf sql behind) ∨
    ∃ tail, sql.drop start = Byte.quote :: tail ∧ next = offsetOf sql (behindDoubled Byte.quote tail)

theorem behindDelimiter_length {delimiter rest tail : Text} (found : behindDelimiter delimiter rest = some tail) :
    tail.length + delimiter.length ≤ rest.length := by
  induction rest with
  | nil => cases found
  | cons byte rest inductionHypothesis =>
    rw [behindDelimiter] at found
    split at found
    next prefixed =>
      cases found
      have shorter := (List.isPrefixOf_iff_prefix.mp prefixed).length_le
      rw [List.length_drop]
      omega
    next => exact (inductionHypothesis found).trans (Nat.le_succ _)

/-- Before the tag there is nothing but bytes of the opening tag. -/
theorem behindDelimiter_tag {tag body : Text} (letters : ∀ byte ∈ tag, isIdentChar byte) :
    behindDelimiter (Byte.dollar :: (tag ++ [Byte.dollar])) (tag ++ Byte.dollar :: body) =
      if (tag ++ [Byte.dollar]).isPrefixOf body then some (body.drop (tag.length + 1))
      else behindDelimiter (Byte.dollar :: (tag ++ [Byte.dollar])) body := by
  have skips (run : Text) (letters : ∀ byte ∈ run, isIdentChar byte) :
      behindDelimiter (Byte.dollar :: (tag ++ [Byte.dollar])) (run ++ Byte.dollar :: body) =
        behindDelimiter (Byte.dollar :: (tag ++ [Byte.dollar])) (Byte.dollar :: body) := by
    induction run with
    | nil => rfl
    | cons byte run inductionHypothesis =>
      have isLetter := letters byte (.head _)
      have noDollar : byte ≠ Byte.dollar := by
        rintro rfl
        cases isLetter
      rw [List.cons_append, behindDelimiter, if_neg (by simp [List.isPrefixOf, Ne.symm noDollar])]
      exact inductionHypothesis fun later listed => letters later (.tail _ listed)
  rw [skips tag letters, behindDelimiter]
  simp

section item

variable {sql tail behind : Text} {current : UInt8} {start next : Nat}

/-- A dollar quote ends at the same place exactly when it is in step. -/
theorem dollarQuote_iff (located : sql.drop start = Byte.dollar :: tail)
    (copied : copyDollarQuotedLiteral (Byte.dollar :: tail) = some behind) :
    publicSkipDollarQuote sql start = offsetOf sql behind ↔ dollarInStep sql start := by
  obtain ⟨body, found, rfl⟩ := Option.map_eq_some_iff.mp copied
  obtain ⟨tag, whole, letters⟩ := dollarQuoteTagEnd_some found
  obtain ⟨-, rfl⟩ := List.cons.inj whole
  have inText : Byte.dollar :: (tag ++ Byte.dollar :: body) <:+ sql := by
    rw [← located]
    exact List.drop_suffix _ _
  have bodyInText : body <:+ sql := by
    apply List.IsSuffix.trans ?_ inText
    exact ⟨Byte.dollar :: (tag ++ [Byte.dollar]), by simp⟩
  have tagText : before (Byte.dollar :: (tag ++ Byte.dollar :: body)) body = Byte.dollar :: (tag ++ [Byte.dollar]) := by
    have := before_of_append (Byte.dollar :: (tag ++ [Byte.dollar])) body
    simpa using this
  have here : offsetOf sql (Byte.dollar :: (tag ++ Byte.dollar :: body)) = start := by
    have inside : start < sql.length := by
      by_contra beyond
      rw [List.drop_eq_nil_iff.mpr (Nat.le_of_not_lt beyond)] at located
      cases located
    rw [← located, offsetOf_drop inside.le]
  have forward (rest : Text) (suffix : rest <:+ body) : start ≠ offsetOf sql rest := by
    have shorter := suffix.length_le
    have longer := inText.length_le
    rw [List.length_cons, List.length_append, List.length_cons] at longer
    rw [← here, offsetOf, offsetOf, List.length_cons, List.length_append, List.length_cons]
    omega
  rw [publicSkipDollarQuote_eq located, dollarInStep, located, found]
  simp only [tagText, List.drop_one, List.tail_cons, behindDelimiter_tag letters]
  by_cases blocked : dollarBlocked sql start
  · have ends : ((if (tag ++ [Byte.dollar]).isPrefixOf body then some (body.drop (tag.length + 1))
        else behindDelimiter (Byte.dollar :: (tag ++ [Byte.dollar])) body).getD []) <:+ body := by
      apply getD_suffix
      intro behind found
      split at found
      next =>
        cases found
        exact List.drop_suffix _ _
      next => exact behindDelimiter_suffix found
    rw [if_pos blocked, decide_eq_true blocked]
    exact iff_of_false (forward _ ends) (by simp)
  · rw [if_neg blocked]
    cases closed : behindDelimiter (Byte.dollar :: (tag ++ [Byte.dollar])) body with
    | none =>
      have ends : ((if (tag ++ [Byte.dollar]).isPrefixOf body then some (body.drop (tag.length + 1))
          else none).getD []) <:+ body := by
        split
        next => exact List.drop_suffix _ _
        next => exact List.nil_suffix
      exact iff_of_false (forward _ ends) (by simp)
    | some rest =>
      have shorter := behindDelimiter_shorter (by simp) closed
      have suffix := (behindDelimiter_suffix closed).trans bodyInText
      by_cases overlaps : (tag ++ [Byte.dollar]).isPrefixOf body
      · -- the closing tag of the preprocessor begins inside the opening one, the other behind it
        have prefixed : tag ++ [Byte.dollar] <+: body := List.isPrefixOf_iff_prefix.mp overlaps
        obtain ⟨later, rfl⟩ := prefixed
        have cut : (tag ++ [Byte.dollar] ++ later).drop (tag.length + 1) = later := by
          rw [show tag.length + 1 = (tag ++ [Byte.dollar]).length by simp, List.drop_left]
        have longer : rest.length < later.length := by
          have := behindDelimiter_length closed
          simp only [List.length_cons, List.length_append, List.length_nil] at this
          omega
        have differ : offsetOf sql rest ≠ offsetOf sql later := by
          intro same
          rw [offsetOf_inj suffix ((List.suffix_append _ _).trans bodyInText)] at same
          rw [same] at longer
          exact lt_irrefl _ longer
        rw [if_pos overlaps, cut, overlaps]
        exact iff_of_false differ (by simp)
      · rw [if_neg overlaps]
        simp only [Option.getD_some, blocked, decide_false, Bool.not_false, overlaps, Option.isSome_some,
          Bool.and_self]

/-- The public lexer ends an item where the preprocessor does exactly when the item is in step. -/
theorem sameItem_iff (passes : Passes sql start next) :
    SameItem sql ⟨start, publicSkipQuotedOrComment .postgresql sql start⟩ ⟨start, next⟩ ↔
      itemInStep sql ⟨start, next⟩ := by
  cases located : sql.drop start with
  | nil =>
    rw [Passes, located] at passes
    obtain ⟨kind, behind, copied, -⟩ | ⟨tail, quote, -⟩ := passes
    · cases copied
    · cases quote
  | cons current tail =>
    have first : byteAt sql start = current := by rw [byteAt_eq_head, located]; rfl
    have body : sql.drop (start + 1) = tail := by rw [← List.drop_drop, located]; rfl
    have inText : tail <:+ sql := by
      rw [← body]
      exact List.drop_suffix _ _
    rw [Passes, located] at passes
    rw [publicSkip_postgresql located, itemInStep]
    dsimp only
    rw [first, body]
    -- an item other than a line comment ends at the same place
    have ends (stop : Nat) (noLine : current ≠ Byte.dash) : SameItem sql ⟨start, stop⟩ ⟨start, next⟩ ↔ stop = next := by
      simp [SameItem, first, noLine]
    obtain ⟨kind, behind, copied, rfl⟩ | ⟨tail, quote, rfl⟩ := passes
    · obtain ⟨-, comment⟩ | ⟨-, -, dollar⟩ | ⟨-, -, -, identifier⟩ := copyVerbatim_cases copied
      · obtain ⟨rest, whole, rfl⟩ | ⟨rest, whole, rfl⟩ := copyComment_cases comment
        · cases whole
          exact iff_of_true (sameItem_line first ((List.suffix_cons _ _).trans inText)) rfl
        · cases whole
          have restInText : rest <:+ sql := (List.suffix_cons _ _).trans inText
          rw [ends _ (by decide)]
          change offsetOf sql (behindBlockComment true 1 rest) = _ ↔ blockInStep rest
          rw [offsetOf_inj ((behindBlockComment_suffix _ _ _).trans restInText)
            ((behindFirstClose_suffix _).trans inText)]
          exact blockInStep_iff rest
      · obtain ⟨tagBody, found, -⟩ := Option.map_eq_some_iff.mp dollar
        obtain ⟨tag, whole, -⟩ := dollarQuoteTagEnd_some found
        have isDollar : current = Byte.dollar := (List.cons.inj whole).1
        subst isDollar
        rw [ends _ (by decide)]
        exact dollarQuote_iff located dollar
      · rw [copyDoubleQuotedIdentifier] at identifier
        split_ifs at identifier with isQuote
        cases identifier
        subst isQuote
        rw [ends _ (by decide)]
        have same := @behindDoubled_public Byte.doubleQuote (by decide) tail
        exact iff_of_true (congrArg (offsetOf sql) same) rfl
    · cases quote
      rw [ends _ (by decide), ← behindDoubled_public (by decide)]
      change offsetOf sql (behindQuoted Byte.quote (escapePrefixed sql start) tail) = _ ↔ _
      rw [offsetOf_inj ((behindQuoted_suffix _ _ _).trans inText) ((behindQuoted_suffix _ _ _).trans inText)]
      cases prefixed : escapePrefixed sql start with
      | false => exact iff_of_true rfl rfl
      | true => exact behindQuoted_escapes_iff (by decide) tail

end item

/-! ## What the preprocessor passes -/

/-- The quoted item or comment of a piece; the prefix of a national literal is code. -/
def Piece.item (sql : Text) (piece : Piece) : Option Item :=
  match piece.kind with
  | .code => none
  | .national => some ⟨offsetOf sql piece.rest + 1, offsetOf sql piece.behind⟩
  | _ => some ⟨offsetOf sql piece.rest, offsetOf sql piece.behind⟩

def passedItems (sql : Text) (pieces : List Piece) : List Item :=
  pieces.filterMap (Piece.item sql)

theorem passedItems_item {sql : Text} {piece : Piece} {item : Item} (found : piece.item sql = some item)
    (others : List Piece) : passedItems sql (piece :: others) = item :: passedItems sql others :=
  List.filterMap_cons_some found

theorem passedItems_code {sql : Text} {piece : Piece} (code : piece.item sql = none) (others : List Piece) :
    passedItems sql (piece :: others) = passedItems sql others :=
  List.filterMap_cons_none code

/-- A byte that opens nothing for the public lexer. -/
def Plain (sql : Text) (index : Nat) : Prop :=
  publicSkipQuotedOrComment .postgresql sql index = index

section passage

variable {sql rest tail behind : Text} {byte : UInt8} {kind : PieceKind}

theorem plain_of_code (suffix : byte :: tail <:+ sql) (none : copyVerbatim (byte :: tail) = none)
    (noQuote : byte ≠ Byte.quote) : Plain sql (offsetOf sql (byte :: tail)) := by
  have located := drop_offsetOf suffix
  obtain ⟨noComment, noDollar, noIdentifier⟩ := copyVerbatim_none.mp none
  rw [Plain, publicSkip_postgresql located]
  split_ifs with dollar line lineSecond block blockSecond identifier
  · subst dollar
    rw [publicSkipDollarQuote_eq located, Option.map_eq_none_iff.mp noDollar]
    simp
  · exfalso
    cases tail with
    | nil => cases lineSecond
    | cons second rest =>
      have second : second = Byte.dash := lineSecond
      rw [copyComment, if_pos ⟨line, second⟩] at noComment
      cases noComment
  · rfl
  · exfalso
    cases tail with
    | nil => cases blockSecond
    | cons second rest =>
      have second : second = Byte.star := blockSecond
      rw [copyComment, if_neg (fun opens => line opens.1), if_pos ⟨block, second⟩] at noComment
      cases noComment
  · rfl
  · rw [copyDoubleQuotedIdentifier, if_pos identifier] at noIdentifier
    cases noIdentifier
  · rfl

theorem offsetOf_forward {behind : Text} (suffix : byte :: tail <:+ sql) (shorter : behind <:+ tail) :
    offsetOf sql (byte :: tail) + 1 ≤ offsetOf sql behind := by
  have := shorter.length_le
  have := suffix.length_le
  rw [List.length_cons] at this
  rw [offsetOf, offsetOf, List.length_cons]
  omega

/-- Along its pieces the preprocessor passes what the public lexer opens. -/
theorem pieces_passage (suffix : rest <:+ sql) :
    Passage (Plain sql) (Passes sql) (offsetOf sql rest) (passedItems sql (pieces sql rest)) sql.length := by
  fun_induction pieces sql rest with
  | case1 => exact .done _
  | case2 byte tail kind behind turn inductionHypothesis =>
    have behindSuffix := nextPiece_suffix turn
    have later := inductionHypothesis (behindSuffix.trans ((List.suffix_cons byte tail).trans suffix))
    have located := drop_offsetOf suffix
    have forward := offsetOf_forward suffix behindSuffix
    obtain copied | ⟨none, ⟨rfl, national, rfl, -⟩ | ⟨rfl, rfl, rfl⟩ | ⟨rfl, noQuote, rfl, -⟩⟩ := nextPiece_cases turn
    · have item : Piece.item sql ⟨kind, byte :: tail, behind⟩ =
          some ⟨offsetOf sql (byte :: tail), offsetOf sql behind⟩ := by
        obtain rfl | rfl | rfl := copyVerbatim_kind copied <;> rfl
      rw [passedItems_item item]
      exact .item forward (.inl ⟨kind, behind, by rw [located]; exact copied, rfl⟩) later
    · obtain ⟨letter, whole⟩ := national_cons national
      have noQuote : byte ≠ Byte.quote := by obtain rfl | rfl := letter <;> decide
      have tailSuffix : tail <:+ sql := (List.suffix_cons byte tail).trans suffix
      have prefixPlain := plain_of_code suffix none noQuote
      rw [@passedItems_item sql ⟨.national, byte :: tail, _⟩ _ rfl]
      apply Passage.plain prefixPlain
      rw [← offsetOf_cons suffix]
      apply Passage.item ?_ ?_ later
      · have quoteSuffix := tailSuffix
        rw [whole] at quoteSuffix ⊢
        exact offsetOf_forward quoteSuffix (behindDoubled_suffix _ _)
      · exact .inr ⟨tail.drop 1, by rw [drop_offsetOf tailSuffix]; exact whole, rfl⟩
    · rw [@passedItems_item sql ⟨.literal, Byte.quote :: tail, _⟩ _ rfl]
      exact .item forward (.inr ⟨tail, located, rfl⟩) later
    · rw [@passedItems_code sql ⟨.code, _, _⟩ rfl]
      apply Passage.plain (plain_of_code suffix none noQuote)
      rw [← offsetOf_cons suffix]
      exact later

end passage

/-! ## National literals for the public lexer -/

/-- A national literal: where its prefix stands, where it ends, and its place among the string constants. -/
structure National where
  start : Nat
  stop : Nat
  ordinal : Nat
  deriving DecidableEq, Repr

/-- A string constant. -/
def isString (sql : Text) (item : Item) : Bool :=
  byteAt sql item.start = Byte.quote || byteAt sql item.start = Byte.dollar

/-- Whether a prefix that begins a word stands before a literal, in the code behind the item before. -/
def isNational (sql : Text) (behind : Nat) (item : Item) : Bool :=
  byteAt sql item.start = Byte.quote && behind < item.start &&
    (byteAt sql (item.start - 1) = 78 || byteAt sql (item.start - 1) = 110) &&
    (item.start - 1 = behind || !publicCharIsIdent (byteAt sql (item.start - 2)))

/-- The national literals among the items behind an offset. -/
def nationals (sql : Text) (behind ordinal : Nat) : List Item → List National
  | [] => []
  | item :: others =>
    let later := nationals sql item.stop (if isString sql item then ordinal + 1 else ordinal) others
    if isNational sql behind item then ⟨item.start - 1, item.stop, ordinal⟩ :: later else later

/-- The record of a national literal is its spelling without the prefix. -/
def National.record (sql : Text) (national : National) : NationalLiteral :=
  ⟨slice sql (national.start + 1) national.stop, none, national.ordinal, none⟩

/-- The bytes of a text that begins at `start`, without those at some offsets. -/
def without (offsets : List Nat) (start : Nat) (text : Text) : Text :=
  ((text.zipIdx start).filter fun entry => entry.2 ∉ offsets).map Prod.fst

/-- The national literals of the preprocessor, each with the end of the item before it. -/
def passedNationals (sql : Text) (behind ordinal : Nat) : List Piece → List (Nat × National)
  | [] => []
  | piece :: others =>
    let stop := offsetOf sql piece.behind
    let later := passedNationals sql (if piece.kind = .code then behind else stop)
      (if piece.isString then ordinal + 1 else ordinal) others
    if piece.kind = .national then (behind, ⟨offsetOf sql piece.rest, stop, ordinal⟩) :: later else later

/-- Whether the prefix begins a word for the public lexer. -/
def beginsWord (sql : Text) (entry : Nat × National) : Bool :=
  entry.2.start = entry.1 || !publicCharIsIdent (byteAt sql (entry.2.start - 1))

section nationals

variable {sql rest : Text}

theorem isNational_same {found passed : Item} {behind before : Nat} (same : SameItem sql found passed)
    (start : behind = before ∨ (behind + 1 = before ∧ byteAt sql behind = Byte.lineFeed)) :
    isNational sql behind found = isNational sql before passed := by
  obtain ⟨position, -⟩ := same
  rw [isNational, isNational, position]
  obtain rfl | ⟨rfl, feed⟩ := start
  · rfl
  · -- no prefix is a line feed, and a word may begin behind a line feed
    rw [Bool.eq_iff_iff]
    simp only [Bool.and_eq_true, Bool.or_eq_true, decide_eq_true_eq, Bool.not_eq_true']
    constructor
    · rintro ⟨⟨⟨quote, order⟩, letter⟩, word⟩
      have apart : passed.start - 1 ≠ behind := by
        intro here
        rw [here, feed] at letter
        exact absurd letter (by decide)
      exact ⟨⟨⟨quote, by omega⟩, letter⟩, .inr (word.resolve_left apart)⟩
    · rintro ⟨⟨⟨quote, order⟩, letter⟩, word⟩
      refine ⟨⟨⟨quote, by omega⟩, letter⟩, .inr ?_⟩
      obtain here | other := word
      · rw [show passed.start - 2 = behind by omega, feed]
        rfl
      · exact other

/-- Items that are the same up to the line feed have the same national literals and as many strings. -/
theorem nationals_same {found passed : List Item} (same : List.Forall₂ (SameItem sql) found passed)
    {behind before : Nat} (start : behind = before ∨ (behind + 1 = before ∧ byteAt sql behind = Byte.lineFeed))
    (ordinal : Nat) :
    nationals sql behind ordinal found = nationals sql before ordinal passed ∧
      (found.filter (isString sql)).length = (passed.filter (isString sql)).length := by
  induction same generalizing behind before ordinal with
  | nil => exact ⟨rfl, rfl⟩
  | @cons item other found passed first _ inductionHypothesis =>
    have kind : isString sql item = isString sql other := by rw [isString, isString, first.1]
    have next : item.stop = other.stop ∨ (item.stop + 1 = other.stop ∧ byteAt sql item.stop = Byte.lineFeed) :=
      first.2.imp_right And.right
    obtain ⟨later, counts⟩ := inductionHypothesis next (if isString sql item then ordinal + 1 else ordinal)
    constructor
    · rw [nationals, nationals, later, isNational_same first start, ← kind]
      split
      next national =>
        simp only [isNational, Bool.and_eq_true, decide_eq_true_eq] at national
        obtain stop | ⟨dash, -⟩ := first.2
        · rw [first.1, stop]
        · rw [national.1.1.1] at dash
          cases dash
      next => rfl
    · rw [List.filter_cons, List.filter_cons, kind]
      split
      next => rw [List.length_cons, List.length_cons, counts]
      next => exact counts

/-- An item with text behind it ends with a byte that continues no word. -/
theorem turn_closed {byte : UInt8} {tail behind : Text} {kind : PieceKind}
    (turn : nextPiece sql byte tail = (kind, behind)) (item : kind ≠ .code) (present : behind ≠ []) :
    ∃ last, last :: behind <:+ byte :: tail ∧ isIdentChar last = false := by
  obtain copied | ⟨-, ⟨-, -, ends, -⟩ | ⟨-, -, ends⟩ | ⟨code, -⟩⟩ := nextPiece_cases turn
  · obtain ⟨front, last, whole, isLast, -⟩ := copyVerbatim_closed copied present
    exact ⟨last, ⟨front, whole.symm⟩, isLast⟩
  · obtain ⟨front, whole, -⟩ := behindDoubled_closed ends.symm present
    have suffix : Byte.quote :: behind <:+ tail.drop 1 := ⟨front, whole.symm⟩
    exact ⟨Byte.quote, (suffix.trans (List.drop_suffix _ _)).trans (List.suffix_cons _ _), rfl⟩
  · obtain ⟨front, whole, -⟩ := behindDoubled_closed ends.symm present
    have suffix : Byte.quote :: behind <:+ tail := ⟨front, whole.symm⟩
    exact ⟨Byte.quote, suffix.trans (List.suffix_cons _ _), rfl⟩
  · exact absurd code item

/-- Where the loop stands behind an item that ends at `stop`: between them is code, in which a letter
that could be the prefix of the next literal continues a word. -/
structure Follows (sql : Text) (stop : Nat) (rest : Text) : Prop where
  order : stop ≤ offsetOf sql rest
  closed : rest ≠ [] → stop = 0 ∨ isIdentChar (byteAt sql (stop - 1)) = false
  letter : stop < offsetOf sql rest → byteAt sql (offsetOf sql rest - 1) = 78 ∨ byteAt sql (offsetOf sql rest - 1) = 110 →
    byteAt rest 0 = Byte.quote → 0 < offsetOf sql rest - 1 ∧ isIdentChar (byteAt sql (offsetOf sql rest - 2))

theorem Follows.item {byte : UInt8} {tail behind : Text} {kind : PieceKind}
    (turn : nextPiece sql byte tail = (kind, behind)) (item : kind ≠ .code) (suffix : byte :: tail <:+ sql) :
    Follows sql (offsetOf sql behind) behind where
  order := le_rfl
  closed := fun present => by
    obtain ⟨last, isLast, noLetter⟩ := turn_closed turn item present
    rw [byteAt_before (isLast.trans suffix)]
    exact .inr noLetter
  letter := fun order => absurd order (lt_irrefl _)

theorem publicCharIsIdent_of_letter (byte : UInt8) (letter : isIdentChar byte) : publicCharIsIdent byte := by
  revert byte
  decide +kernel

/-- The literals without a prefix of their own are no national literals for the public lexer. -/
theorem Follows.noNational {stop : Nat} {tail : Text} (follows : Follows sql stop (Byte.quote :: tail)) (last : Nat) :
    isNational sql stop ⟨offsetOf sql (Byte.quote :: tail), last⟩ = false := by
  rw [← Bool.not_eq_true]
  intro national
  simp only [isNational, Bool.and_eq_true, Bool.or_eq_true, decide_eq_true_eq, Bool.not_eq_true'] at national
  obtain ⟨⟨⟨-, order⟩, letter⟩, word⟩ := national
  obtain ⟨positive, inWord⟩ := follows.letter order letter rfl
  obtain here | begins := word
  · obtain start | noLetter := follows.closed (List.cons_ne_nil _ _)
    · omega
    · rw [← here, Nat.sub_sub, inWord] at noLetter
      cases noLetter
  · rw [publicCharIsIdent_of_letter _ inWord] at begins
    cases begins

/-- For the public lexer the national literals of the preprocessor's items are those of the preprocessor
that begin a word. -/
theorem nationals_passed {stop : Nat} (suffix : rest <:+ sql) (follows : Follows sql stop rest) (ordinal : Nat) :
    nationals sql stop ordinal (passedItems sql (pieces sql rest)) =
      ((passedNationals sql stop ordinal (pieces sql rest)).filter (beginsWord sql)).map Prod.snd := by
  fun_induction pieces sql rest generalizing stop ordinal with
  | case1 => rfl
  | case2 byte tail kind behind turn inductionHypothesis =>
    have tailSuffix : tail <:+ sql := (List.suffix_cons byte tail).trans suffix
    have behindSuffix : behind <:+ sql := (nextPiece_suffix turn).trans tailSuffix
    have first : byteAt sql (offsetOf sql (byte :: tail)) = byte := by rw [byteAt_offsetOf suffix]; rfl
    obtain copied | ⟨none, ⟨rfl, letter, -, begins⟩ | ⟨rfl, rfl, -⟩ | ⟨rfl, noQuote, rfl, inWord⟩⟩ := nextPiece_cases turn
    · -- neither a comment nor an identifier nor a dollar quote begins with a quote
      have item (itemKind : kind ≠ .code) := fun ordinal =>
        inductionHypothesis behindSuffix (Follows.item turn itemKind suffix) ordinal
      obtain ⟨rfl, rfl | rfl⟩ | ⟨rfl, rfl⟩ | ⟨rfl, rfl⟩ := copyVerbatim_first copied
      · rw [@passedItems_item sql ⟨.comment, Byte.dash :: tail, _⟩ _ rfl, nationals]
        simp only [isString, isNational, first]
        exact item (fun same => by cases same) ordinal
      · rw [@passedItems_item sql ⟨.comment, Byte.slash :: tail, _⟩ _ rfl, nationals]
        simp only [isString, isNational, first]
        exact item (fun same => by cases same) ordinal
      · rw [@passedItems_item sql ⟨.dollarQuoted, Byte.dollar :: tail, _⟩ _ rfl, nationals]
        simp only [isString, isNational, first]
        exact item (fun same => by cases same) (ordinal + 1)
      · rw [@passedItems_item sql ⟨.identifier, Byte.doubleQuote :: tail, _⟩ _ rfl, nationals]
        simp only [isString, isNational, first]
        exact item (fun same => by cases same) ordinal
    · have isLetter := (national_cons letter).1
      have quote : byteAt sql (offsetOf sql (byte :: tail) + 1) = Byte.quote := by
        rw [← offsetOf_cons suffix, byteAt_offsetOf tailSuffix, (national_cons letter).2]
        rfl
      have order : stop < offsetOf sql (byte :: tail) + 1 := Nat.lt_succ_of_le follows.order
      have isLetter : (decide (byte = 78) || decide (byte = 110)) = true := by simpa using isLetter
      have two : offsetOf sql (byte :: tail) + 1 - 2 = offsetOf sql (byte :: tail) - 1 := rfl
      have same : isNational sql stop ⟨offsetOf sql (byte :: tail) + 1, offsetOf sql behind⟩ =
          beginsWord sql (stop, ⟨offsetOf sql (byte :: tail), offsetOf sql behind, ordinal⟩) := by
        simp only [isNational, beginsWord, quote, Nat.add_one_sub_one, two, first, isLetter, order, decide_true,
          Bool.true_and]
      have strings : isString sql ⟨offsetOf sql (byte :: tail) + 1, offsetOf sql behind⟩ = true := by
        simp only [isString, quote, decide_true, Bool.true_or]
      rw [@passedItems_item sql ⟨.national, byte :: tail, _⟩ _ rfl, nationals, same, strings, if_pos rfl,
        inductionHypothesis behindSuffix (Follows.item turn (fun same => by cases same) suffix)]
      cases word : beginsWord sql (stop, ⟨offsetOf sql (byte :: tail), offsetOf sql behind, ordinal⟩) with
      | true =>
        have listed : (passedNationals sql stop ordinal
            (⟨.national, byte :: tail, behind⟩ :: pieces sql behind)).filter (beginsWord sql) = _ :=
          List.filter_cons_of_pos word
        rw [listed]
        rfl
      | false =>
        have skipped : (passedNationals sql stop ordinal
            (⟨.national, byte :: tail, behind⟩ :: pieces sql behind)).filter (beginsWord sql) = _ :=
          List.filter_cons_of_neg (by simp [word])
        rw [skipped]
        rfl
    · rw [@passedItems_item sql ⟨.literal, Byte.quote :: tail, _⟩ _ rfl, nationals, follows.noNational]
      have strings : isString sql ⟨offsetOf sql (Byte.quote :: tail), offsetOf sql behind⟩ = true := by
        simp [isString, first]
      rw [strings, if_pos rfl, inductionHypothesis behindSuffix (Follows.item turn (fun same => by cases same) suffix)]
      rfl
    · rw [@passedItems_code sql ⟨.code, _, _⟩ rfl]
      apply inductionHypothesis behindSuffix
      have next := offsetOf_cons suffix
      exact
        { order := by
            have := follows.order
            omega
          closed := fun _ => follows.closed (List.cons_ne_nil _ _)
          letter := fun _ isLetter quote => by
            rw [next, Nat.add_sub_cancel, first] at isLetter
            rw [next]
            apply inWord
            simp only [isNStringLiteral, Bool.and_eq_true, Bool.or_eq_true, decide_eq_true_eq]
            exact ⟨isLetter, quote⟩ }

theorem passedNationals_le {stop ordinal : Nat} (suffix : rest <:+ sql) :
    ∀ entry ∈ passedNationals sql stop ordinal (pieces sql rest), offsetOf sql rest ≤ entry.2.start := by
  fun_induction pieces sql rest generalizing stop ordinal with
  | case1 => exact fun _ same => by cases same
  | case2 byte tail kind behind turn inductionHypothesis =>
    have behindSuffix := nextPiece_suffix turn
    have forward := offsetOf_forward suffix behindSuffix
    intro entry listed
    have inText : behind <:+ sql := behindSuffix.trans ((List.suffix_cons byte tail).trans suffix)
    have later {stop ordinal : Nat} (listed : entry ∈ passedNationals sql stop ordinal (pieces sql behind)) :
        offsetOf sql (byte :: tail) ≤ entry.2.start :=
      (Nat.le_of_succ_le forward).trans (inductionHypothesis inText entry listed)
    rw [passedNationals] at listed
    split at listed
    next =>
      cases listed with
      | head => exact le_rfl
      | tail _ listed => exact later listed
    next => exact later listed

/-- Bytes at other offsets are kept. -/
theorem without_append {offsets : List Nat} {start : Nat} (front behind : Text)
    (apart : ∀ offset ∈ offsets, offset < start ∨ start + front.length ≤ offset) :
    without offsets start (front ++ behind) = front ++ without offsets (start + front.length) behind := by
  rw [without, List.zipIdx_append, List.filter_append, List.map_append, List.filter_eq_self.mpr, List.zipIdx_map_fst]
  · rfl
  · rintro ⟨byte, index⟩ listed
    have low := List.le_snd_of_mem_zipIdx listed
    have high := List.snd_lt_add_of_mem_zipIdx listed
    rw [decide_eq_true_eq]
    intro cut
    have := apart index cut
    dsimp only at low high
    omega

theorem without_cut {offsets : List Nat} {start : Nat} (byte : UInt8) (rest : Text) :
    without (start :: offsets) start (byte :: rest) = without offsets (start + 1) rest := by
  rw [without, without, List.zipIdx_cons, List.filter_cons_of_neg (by simp)]
  congr 1
  apply List.filter_congr
  rintro ⟨later, index⟩ listed
  have low := List.le_snd_of_mem_zipIdx listed
  dsimp only at low ⊢
  rw [decide_eq_decide, List.mem_cons, not_or]
  exact and_iff_right (by omega)

/-- The output of the loop is the text without the prefixes of its national literals. -/
theorem output_without {stop ordinal : Nat} (suffix : rest <:+ sql) :
    (pieces sql rest).flatMap Piece.output =
      without ((passedNationals sql stop ordinal (pieces sql rest)).map fun entry => entry.2.start)
        (offsetOf sql rest) rest := by
  fun_induction pieces sql rest generalizing stop ordinal with
  | case1 => rfl
  | case2 byte tail kind behind turn inductionHypothesis =>
    have behindSuffix := nextPiece_suffix turn
    have inText : behind <:+ sql := behindSuffix.trans ((List.suffix_cons byte tail).trans suffix)
    have starts (stop ordinal : Nat) : ∀ offset ∈
        (passedNationals sql stop ordinal (pieces sql behind)).map fun entry => entry.2.start,
        offsetOf sql behind ≤ offset := by
      intro offset listed
      obtain ⟨entry, found, rfl⟩ := List.mem_map.mp listed
      exact passedNationals_le inText entry found
    obtain ⟨front, rfl⟩ := behindSuffix
    have ends : offsetOf sql (byte :: (front ++ behind)) + (front.length + 1) = offsetOf sql behind := by
      have := suffix.length_le
      rw [List.length_cons, List.length_append] at this
      rw [offsetOf, offsetOf, List.length_cons, List.length_append]
      omega
    have text : Piece.text ⟨kind, byte :: (front ++ behind), behind⟩ = byte :: front :=
      before_of_append (byte :: front) behind
    rw [List.flatMap_cons, passedNationals]
    by_cases national : kind = .national
    · subst national
      rw [Piece.output, if_pos rfl, text, if_pos rfl, List.map_cons, without_cut,
        without_append front behind (fun offset listed => .inr ?_)]
      · rw [Nat.add_assoc, Nat.add_comm 1, ends, ← inductionHypothesis inText]
        rfl
      · have := starts _ _ offset listed
        dsimp only
        omega
    · have noPrefix : Piece.output ⟨kind, byte :: (front ++ behind), behind⟩ = byte :: front := by
        rw [Piece.output, if_neg national, text]
      rw [noPrefix]
      simp only [if_neg national]
      apply Eq.trans ?_ (without_append (byte :: front) behind fun offset listed => .inr ?_).symm
      · rw [List.length_cons, ends, ← inductionHypothesis inText]
      · have := starts _ _ offset listed
        rw [List.length_cons]
        omega

/-- The records of the loop are those of its national literals. -/
theorem records_passed (stop ordinal : Nat) (suffix : rest <:+ sql) :
    records ordinal (pieces sql rest) =
      (passedNationals sql stop ordinal (pieces sql rest)).map fun entry => entry.2.record sql := by
  fun_induction pieces sql rest generalizing stop ordinal with
  | case1 => rfl
  | case2 byte tail kind behind turn inductionHypothesis =>
    have behindSuffix : behind <:+ byte :: tail := (nextPiece_suffix turn).trans (List.suffix_cons byte tail)
    have later := inductionHypothesis (if kind = .code then stop else offsetOf sql behind)
      (if Piece.isString ⟨kind, byte :: tail, behind⟩ then ordinal + 1 else ordinal) (behindSuffix.trans suffix)
    rw [records, passedNationals, later]
    split
    next national =>
      have isNational : kind = .national := national
      rw [List.map_cons, Piece.output, if_pos national, Piece.text, before_slice suffix behindSuffix, slice,
        List.drop_drop]
      rfl
    next => rfl

/-- The prefixes of national literals stand outside items. -/
theorem nationals_outside {skip : Nat → Nat} {stop index behind ordinal : Nat} (order : behind ≤ index) :
    ∀ national ∈ nationals sql behind ordinal (items skip stop index),
      behind ≤ national.start ∧ Outside (items skip stop index) national.start := by
  fun_induction items skip stop index generalizing behind ordinal with
  | case1 index inside opens inductionHypothesis =>
    intro national listed
    have own : isNational sql behind ⟨index, skip index⟩ → behind ≤ index - 1 ∧ index - 1 < index := by
      intro prefixed
      simp only [isNational, Bool.and_eq_true, decide_eq_true_eq] at prefixed
      omega
    have later {ordinal : Nat} (listed : national ∈ nationals sql (skip index) ordinal (items skip stop (skip index))) :
        behind ≤ national.start ∧ Outside (⟨index, skip index⟩ :: items skip stop (skip index)) national.start := by
      obtain ⟨low, outside⟩ := inductionHypothesis le_rfl national listed
      refine ⟨by omega, List.forall_mem_cons.mpr ⟨fun covers => ?_, outside⟩⟩
      exact absurd covers.2 (Nat.not_lt.mpr low)
    rw [nationals] at listed
    split at listed
    next prefixed =>
      cases listed with
      | head =>
        obtain ⟨low, before⟩ := own prefixed
        refine ⟨low, List.forall_mem_cons.mpr ⟨fun covers => absurd covers.1 (Nat.not_le.mpr before), ?_⟩⟩
        intro item inLater covers
        have := items_le_start item inLater
        have := covers.1
        dsimp only at this
        omega
      | tail _ listed => exact later listed
    next => exact later listed
  | case2 index inside plain inductionHypothesis => exact inductionHypothesis (by omega)
  | case3 => exact fun _ same => by cases same

/-- The preprocessor takes its prefixes from the start of a word. -/
theorem passedNationals_begin {stop ordinal : Nat} (suffix : rest <:+ sql) (order : stop ≤ offsetOf sql rest) :
    ∀ entry ∈ passedNationals sql stop ordinal (pieces sql rest), entry.1 ≤ entry.2.start ∧
      (entry.2.start = 0 ∨ isIdentChar (byteAt sql (entry.2.start - 1)) = false) := by
  fun_induction pieces sql rest generalizing stop ordinal with
  | case1 => exact fun _ same => by cases same
  | case2 byte tail kind behind turn inductionHypothesis =>
    have behindSuffix := nextPiece_suffix turn
    have inText : behind <:+ sql := behindSuffix.trans ((List.suffix_cons byte tail).trans suffix)
    have forward := offsetOf_forward suffix behindSuffix
    intro entry listed
    have laterOrder : (if kind = .code then stop else offsetOf sql behind) ≤ offsetOf sql behind := by
      split <;> omega
    rw [passedNationals] at listed
    split at listed
    next national =>
      have isNational : kind = .national := national
      cases listed with
      | head =>
        refine ⟨order, ?_⟩
        obtain copied | ⟨-, ⟨-, -, -, begins⟩ | ⟨literal, -⟩ | ⟨code, -⟩⟩ := nextPiece_cases turn
        · obtain verbatim | verbatim | verbatim := copyVerbatim_kind copied <;> rw [isNational] at verbatim <;>
            cases verbatim
        · exact begins
        · rw [isNational] at literal
          cases literal
        · rw [isNational] at code
          cases code
      | tail _ listed => exact inductionHypothesis inText laterOrder entry listed
    next => exact inductionHypothesis inText laterOrder entry listed

theorem strings_passed (suffix : rest <:+ sql) :
    ((passedItems sql (pieces sql rest)).filter (isString sql)).length =
      ((pieces sql rest).filter Piece.isString).length := by
  fun_induction pieces sql rest with
  | case1 => rfl
  | case2 byte tail kind behind turn inductionHypothesis =>
    have tailSuffix : tail <:+ sql := (List.suffix_cons byte tail).trans suffix
    have later := inductionHypothesis ((nextPiece_suffix turn).trans tailSuffix)
    have first : byteAt sql (offsetOf sql (byte :: tail)) = byte := by rw [byteAt_offsetOf suffix]; rfl
    have counts {item : Item} (found : Piece.item sql ⟨kind, byte :: tail, behind⟩ = some item)
        (same : isString sql item = Piece.isString ⟨kind, byte :: tail, behind⟩) :
        ((passedItems sql (⟨kind, byte :: tail, behind⟩ :: pieces sql behind)).filter (isString sql)).length =
          ((⟨kind, byte :: tail, behind⟩ :: pieces sql behind).filter Piece.isString).length := by
      rw [passedItems_item found, List.filter_cons, List.filter_cons, same]
      split
      next => rw [List.length_cons, List.length_cons, later]
      next => exact later
    obtain copied | ⟨-, ⟨rfl, letter, -⟩ | ⟨rfl, rfl, -⟩ | ⟨rfl, -⟩⟩ := nextPiece_cases turn
    · obtain ⟨rfl, rfl | rfl⟩ | ⟨rfl, rfl⟩ | ⟨rfl, rfl⟩ := copyVerbatim_first copied
      · exact counts rfl (by simp only [isString, first]; rfl)
      · exact counts rfl (by simp only [isString, first]; rfl)
      · exact counts rfl (by simp only [isString, first]; rfl)
      · exact counts rfl (by simp only [isString, first]; rfl)
    · have quote : byteAt sql (offsetOf sql (byte :: tail) + 1) = Byte.quote := by
        rw [← offsetOf_cons suffix, byteAt_offsetOf tailSuffix, (national_cons letter).2]
        rfl
      exact counts rfl (by simp only [isString, quote]; rfl)
    · exact counts rfl (by simp only [isString, first]; rfl)
    · rw [@passedItems_code sql ⟨.code, _, _⟩ rfl]
      exact later

end nationals

/-! ## Agreement -/

/-- The preprocessor takes the prefixes of the public lexer's national literals off the text and nothing else,
none of them out of an item or from between two literals, and counts and places the string constants. -/
structure ChangesOnlyPrefixes (literals : NationalLiterals) (sql : Text) (found : List Item)
    (result : Text × NationalLiterals) : Prop where
  output : result.1 = without ((nationals sql 0 literals.literalCount found).map National.start) 0 sql
  outside : ∀ national ∈ nationals sql 0 literals.literalCount found, Outside found national.start
  apart : ∀ national ∈ nationals sql 0 literals.literalCount found,
    national.start = 0 ∨ byteAt sql (national.start - 1) ≠ Byte.quote
  records : result.2 =
    { literals with
      literalCount := literals.literalCount + (found.filter (isString sql)).length
      items := literals.items ++ (nationals sql 0 literals.literalCount found).map (National.record sql) }

/-- The prefix stands neither behind a literal nor behind a dollar or a hash that is code. -/
def standsAlone (sql : Text) (entry : Nat × National) : Bool :=
  let previous := byteAt sql (entry.2.start - 1)
  entry.2.start = 0 ||
    (previous ≠ Byte.quote && (entry.2.start = entry.1 || (previous ≠ Byte.dollar && previous ≠ Byte.hash)))

theorem publicCharIsIdent_iff (byte : UInt8) :
    publicCharIsIdent byte = (isIdentChar byte || byte = Byte.dollar || byte = Byte.hash) := by
  revert byte
  decide +kernel

section agreement

variable {sql : Text}

theorem standsAlone_iff {entry : Nat × National} (order : entry.1 ≤ entry.2.start)
    (begins : entry.2.start = 0 ∨ isIdentChar (byteAt sql (entry.2.start - 1)) = false) :
    standsAlone sql entry ↔
      beginsWord sql entry ∧ (entry.2.start = 0 ∨ byteAt sql (entry.2.start - 1) ≠ Byte.quote) := by
  simp only [standsAlone, beginsWord, publicCharIsIdent_iff, Bool.or_eq_true, Bool.and_eq_true, decide_eq_true_eq,
    Bool.not_eq_true', Bool.or_eq_false_iff, decide_eq_false_iff_not]
  have first : entry.2.start = 0 → entry.2.start = entry.1 := by omega
  obtain start | noLetter := begins
  · exact iff_of_true (.inl start) ⟨.inl (first start), .inl start⟩
  · rw [noLetter]
    grind

theorem passes_forward {start next : Nat} (passes : Passes sql start next) : start < next := by
  cases located : sql.drop start with
  | nil =>
    rw [Passes, located] at passes
    obtain ⟨kind, behind, copied, -⟩ | ⟨tail, quote, -⟩ := passes
    · cases copied
    · cases quote
  | cons current tail =>
    have size := congrArg List.length located
    rw [List.length_drop, List.length_cons] at size
    have shorter (behind : Text) (suffix : behind <:+ tail) : start < offsetOf sql behind := by
      have := suffix.length_le
      rw [offsetOf]
      omega
    rw [Passes, located] at passes
    obtain ⟨kind, behind, copied, rfl⟩ | ⟨tail, quote, rfl⟩ := passes
    · exact shorter behind (copyVerbatim_suffix copied)
    · cases quote
      exact shorter _ (behindDoubled_suffix _ _)

theorem publicSkip_forward {start next : Nat} (forward : start < next)
    (same : SameItem sql ⟨start, publicSkipQuotedOrComment .postgresql sql start⟩ ⟨start, next⟩) :
    start < publicSkipQuotedOrComment .postgresql sql start := by
  obtain ⟨-, stop | ⟨dash, stop, feed⟩⟩ := same
  · dsimp only at stop
    omega
  · -- the line feed is not the dash that opens the comment
    dsimp only at dash stop feed
    by_contra here
    have same : publicSkipQuotedOrComment .postgresql sql start = start := by omega
    rw [same, dash] at feed
    cases feed

/-- The public lexer finds the items of the preprocessor exactly when all of them are in step. -/
theorem items_agree_iff (sql : Text) :
    List.Forall₂ (SameItem sql) (publicItems .postgresql sql sql.length) (passedItems sql (pieces sql sql)) ↔
      ∀ item ∈ passedItems sql (pieces sql sql), itemInStep sql item := by
  have passage := pieces_passage (List.suffix_rfl : sql <:+ sql)
  have start : offsetOf sql sql = 0 := Nat.sub_self _
  rw [start] at passage
  rw [publicItems, passage.agree_iff (fun _ plain => plain.le) (fun _ _ same => same.1)
    (fun _ _ passes same => publicSkip_forward (passes_forward passes) same) (fun _ _ _ _ => items_resume)]
  exact forall₂_congr fun item listed => sameItem_iff (passage.items_mem item listed)

/-- The preprocessor reads the items of the public lexer and changes only national prefixes in code, and its
count and ordinals are those of the string constants, exactly when every item is in step and every
prefix stands alone. -/
theorem preprocess_agrees_iff (natives : PgQuery.Natives) (traced : Bool) (literals : NationalLiterals) (sql : Text) :
    (List.Forall₂ (SameItem sql) (publicItems .postgresql sql sql.length) (passedItems sql (pieces sql sql)) ∧
        ChangesOnlyPrefixes literals sql (publicItems .postgresql sql sql.length)
          (preprocessText natives traced literals sql)) ↔
      (∀ item ∈ passedItems sql (pieces sql sql), itemInStep sql item) ∧
        ∀ entry ∈ passedNationals sql 0 literals.literalCount (pieces sql sql), standsAlone sql entry := by
  rw [← items_agree_iff]
  apply and_congr_right
  intro same
  have whole : sql <:+ sql := List.suffix_rfl
  have start : offsetOf sql sql = 0 := Nat.sub_self _
  have first : Follows sql 0 sql := ⟨Nat.zero_le _, fun _ => .inl rfl, fun order => by omega⟩
  obtain ⟨read, counts⟩ := nationals_same same (.inl rfl : 0 = 0 ∨ _) literals.literalCount
  rw [nationals_passed whole first literals.literalCount] at read
  have output := @output_without sql sql 0 literals.literalCount whole
  rw [start] at output
  have records := foldl_finishPiece literals (pieces sql sql)
  rw [← strings_passed whole, ← counts, records_passed 0 literals.literalCount whole] at records
  have begins := @passedNationals_begin sql sql 0 literals.literalCount whole (Nat.zero_le _)
  generalize passedNationals sql 0 literals.literalCount (pieces sql sql) = entries at *
  rw [preprocessText_eq_loop]
  constructor
  · intro changes
    -- every record of the preprocessor is one of the public lexer's literals, so every prefix begins a word
    have sameRecords := congrArg NationalLiterals.items changes.records
    simp only [preprocessLoop, records, read, List.append_cancel_left_eq] at sameRecords
    have lengths := congrArg List.length sameRecords
    rw [List.length_map, List.length_map, List.length_map] at lengths
    have allBegin : ∀ entry ∈ entries, beginsWord sql entry := List.length_filter_eq_length_iff.mp lengths.symm
    intro entry listed
    rw [standsAlone_iff (begins entry listed).1 (begins entry listed).2]
    refine ⟨allBegin entry listed, changes.apart entry.2 ?_⟩
    rw [read]
    exact List.mem_map_of_mem (List.mem_filter.mpr ⟨listed, allBegin entry listed⟩)
  · intro alone
    have stands (entry : Nat × National) (listed : entry ∈ entries) :=
      (standsAlone_iff (begins entry listed).1 (begins entry listed).2).mp (alone entry listed)
    rw [List.filter_eq_self.mpr fun entry listed => (stands entry listed).1] at read
    exact
      { output := by
          rw [read, List.map_map]
          exact output
        outside := fun national listed => (nationals_outside le_rfl national listed).2
        apart := fun national listed => by
          rw [read] at listed
          obtain ⟨entry, found, rfl⟩ := List.mem_map.mp listed
          exact (stands entry found).2
        records := by
          rw [read, List.map_map]
          exact records }

end agreement

/-- The escaped quote does not end the literal for the public lexer, and the `N` is the last letter in it. -/
theorem preprocess_edits_literal :
    publicItems .postgresql (ascii "SELECT E'\\' N'") 14 = [⟨8, 14⟩] ∧
      (preprocessText ⟨fun _ => false, fun _ => true⟩ false {} (ascii "SELECT E'\\' N'")).1 =
        ascii "SELECT E'\\' '" ∧
      ¬ ChangesOnlyPrefixes {} (ascii "SELECT E'\\' N'") (publicItems .postgresql (ascii "SELECT E'\\' N'") 14)
        (preprocessText ⟨fun _ => false, fun _ => true⟩ false {} (ascii "SELECT E'\\' N'")) := by
  have items : publicItems .postgresql (ascii "SELECT E'\\' N'") 14 = [⟨8, 14⟩] := by decide +kernel
  have output : (preprocessText ⟨fun _ => false, fun _ => true⟩ false {} (ascii "SELECT E'\\' N'")).1 =
      ascii "SELECT E'\\' '" := by decide +kernel
  refine ⟨items, output, fun changes => ?_⟩
  have kept := changes.output
  rw [items, output] at kept
  revert kept
  decide +kernel

end SqlParser.Postgresql
