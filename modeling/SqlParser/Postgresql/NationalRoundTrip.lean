import SqlParser.Postgresql.Preprocess

/-! # National literals through the preprocessor and back

The postprocessor reads the text that the preprocessor has written with loops of its
own and a count of its own.  The two stay in step until a literal runs into the next one
or a dollar quote is counted by the preprocessor alone.
-/

namespace SqlParser.Postgresql

open SqlParser.Core

/-! ## What the round trip should give -/

/-- A piece with the prefix that the preprocessor takes off written as an upper-case `N`. -/
def Piece.restored (piece : Piece) : Text :=
  if piece.kind = .national then 78 :: piece.output else piece.text

def startsNational : List Piece → Bool
  | [] => false
  | piece :: _ => piece.kind = .national

/-- Whether no national literal stands behind a dollar-quoted constant or directly behind another literal.
Some dollar-quoted constant may have been passed before. -/
def survives (dollars : Bool) : List Piece → Bool
  | [] => true
  | piece :: others =>
    !(dollars && piece.kind = .national) &&
      !((piece.kind = .literal || piece.kind = .national) && startsNational others) &&
      survives (dollars || piece.kind = .dollarQuoted) others

/-- What the preprocessor writes for the text from an offset on. -/
def written (sql rest : Text) : Text :=
  (pieces sql rest).flatMap Piece.output

/-! ## The written text -/

section written

variable {sql tail behind : Text} {byte : UInt8} {kind : PieceKind}

theorem written_cons (turn : nextPiece sql byte tail = (kind, behind)) :
    written sql (byte :: tail) = Piece.output ⟨kind, byte :: tail, behind⟩ ++ written sql behind := by
  rw [written, pieces_cons, turn]
  rfl

theorem output_verbatim {front : Text} (other : kind ≠ .national) :
    Piece.output ⟨kind, front ++ behind, behind⟩ = front := by
  rw [Piece.output, if_neg other]
  exact before_of_append front behind

theorem nextPiece_code (turn : nextPiece sql byte tail = (.code, behind)) :
    copyVerbatim (byte :: tail) = none ∧ byte ≠ Byte.quote ∧ behind = tail := by
  obtain copied | ⟨none, ⟨national, -⟩ | ⟨literal, -⟩ | ⟨-, noQuote, same, -⟩⟩ := nextPiece_cases turn
  · obtain verbatim | verbatim | verbatim := copyVerbatim_kind copied <;> cases verbatim
  · cases national
  · cases literal
  · exact ⟨none, noQuote, same⟩

theorem written_code (turn : nextPiece sql byte tail = (.code, behind)) :
    written sql (byte :: tail) = byte :: written sql tail := by
  obtain ⟨-, -, rfl⟩ := nextPiece_code turn
  rw [written_cons turn]
  exact congrArg (· ++ written sql behind) (@output_verbatim behind .code [byte] nofun)

/-- The text begins as it has been written, unless a prefix has been taken off. -/
theorem written_head (sql rest : Text) :
    (startsNational (pieces sql rest) = false ∧ (written sql rest).head? = rest.head?) ∨
      (startsNational (pieces sql rest) ∧ (written sql rest).head? = some Byte.quote) := by
  cases rest with
  | nil =>
    rw [written, pieces_nil]
    exact .inl ⟨rfl, rfl⟩
  | cons byte tail =>
    cases turn : nextPiece sql byte tail with
    | mk kind behind =>
      have suffix := nextPiece_suffix turn
      rw [written_cons turn, pieces_cons, turn, startsNational]
      by_cases national : kind = .national
      · subst national
        obtain copied | ⟨-, ⟨-, letter, rfl, -⟩ | ⟨literal, -⟩ | ⟨code, -⟩⟩ := nextPiece_cases turn
        · obtain verbatim | verbatim | verbatim := copyVerbatim_kind copied <;> cases verbatim
        · right
          simp only [isNStringLiteral, Bool.and_eq_true, decide_eq_true_eq] at letter
          cases tail with
          | nil => cases letter.2
          | cons quote body =>
            have isQuote : quote = Byte.quote := letter.2
            subst isQuote
            obtain ⟨front, whole⟩ := behindDoubled_suffix Byte.quote body
            have shape : byte :: Byte.quote :: body = byte :: Byte.quote :: front ++ behindDoubled Byte.quote body := by
              rw [List.cons_append, List.cons_append, whole]
            rw [List.drop_one, List.tail_cons, Piece.output, if_pos rfl, Piece.text, shape, before_of_append]
            exact ⟨rfl, rfl⟩
        · cases literal
        · cases code
      · left
        obtain ⟨front, rfl⟩ := suffix
        rw [← List.cons_append, output_verbatim national]
        exact ⟨decide_eq_false national, rfl⟩

theorem written_no_quote {rest : Text} {quote : UInt8} (plain : startsNational (pieces sql rest) = false)
    (single : rest.head? ≠ some quote) : (written sql rest).head? ≠ some quote := by
  obtain ⟨-, same⟩ | ⟨national, -⟩ := written_head sql rest
  · rw [same]
    exact single
  · rw [plain] at national
    cases national

/-- A word that a dollar ends in the written text stands in the text itself. -/
theorem written_tag {sql rest : Text} {tag : Text} (letters : ∀ byte ∈ tag, isIdentChar byte)
    (prefixed : tag ++ [Byte.dollar] <+: written sql rest) : tag ++ [Byte.dollar] <+: rest := by
  induction tag generalizing rest with
  | nil =>
    obtain ⟨later, same⟩ := prefixed
    obtain ⟨-, head⟩ | ⟨-, head⟩ := written_head sql rest
    · rw [← same] at head
      cases rest with
      | nil => cases head
      | cons byte tail =>
        cases head
        exact ⟨tail, rfl⟩
    · rw [← same] at head
      cases head
  | cons letter tag inductionHypothesis =>
    obtain ⟨later, same⟩ := prefixed
    have isLetter := letters letter (.head _)
    cases rest with
    | nil =>
      rw [written, pieces_nil] at same
      cases same
    | cons byte tail =>
      cases turn : nextPiece sql byte tail with
      | mk kind behind =>
        have head : byte = letter ∧ kind = .code := by
          obtain ⟨plain, head⟩ | ⟨-, head⟩ := written_head sql (byte :: tail)
          · rw [← same] at head
            cases head
            rw [pieces_cons, turn, startsNational, decide_eq_false_iff_not] at plain
            obtain copied | ⟨-, ⟨national, -⟩ | ⟨-, rfl, -⟩ | ⟨code, -⟩⟩ := nextPiece_cases turn
            · obtain ⟨-, rfl | rfl⟩ | ⟨-, rfl⟩ | ⟨-, rfl⟩ := copyVerbatim_first copied <;> cases isLetter
            · exact absurd national plain
            · cases isLetter
            · exact ⟨rfl, code⟩
          · rw [← same] at head
            cases head
            cases isLetter
        obtain ⟨rfl, rfl⟩ := head
        rw [written_code turn] at same
        have later := inductionHypothesis (fun byte listed => letters byte (.tail _ listed))
          ⟨later, (List.cons.inj same).2⟩
        exact List.cons_prefix_cons.mpr ⟨rfl, later⟩

/-- What is code in the text is code in the written text. -/
theorem written_plain (none : copyVerbatim (byte :: tail) = none) : copyVerbatim (byte :: written sql tail) = .none := by
  obtain ⟨noComment, noDollar, noIdentifier⟩ := copyVerbatim_none.mp none
  have sameHead {next : UInt8} {body : Text} (found : written sql tail = next :: body) (noQuote : next ≠ Byte.quote) :
      ∃ rest, tail = next :: rest := by
    obtain ⟨-, head⟩ | ⟨-, head⟩ := written_head sql tail
    · rw [found] at head
      cases tail with
      | nil => cases head
      | cons first rest =>
        cases head
        exact ⟨rest, rfl⟩
    · rw [found] at head
      exact absurd (Option.some.inj head) noQuote
  refine copyVerbatim_none.mpr ⟨?_, ?_, ?_⟩
  · rw [Option.eq_none_iff_forall_ne_some]
    intro behind comment
    obtain ⟨body, whole, -⟩ | ⟨body, whole, -⟩ := copyComment_cases comment
    · obtain ⟨rfl, found⟩ := List.cons.inj whole
      obtain ⟨rest, rfl⟩ := sameHead found (by decide)
      cases noComment
    · obtain ⟨rfl, found⟩ := List.cons.inj whole
      obtain ⟨rest, rfl⟩ := sameHead found (by decide)
      cases noComment
  · rw [Option.eq_none_iff_forall_ne_some]
    intro behind dollar
    obtain ⟨body, tagEnd, -⟩ := Option.map_eq_some_iff.mp dollar
    obtain ⟨tag, whole, letters⟩ := dollarQuoteTagEnd_some tagEnd
    obtain ⟨rfl, found⟩ := List.cons.inj whole
    obtain ⟨rest, rfl⟩ := written_tag letters ⟨body, by rw [found]; simp⟩
    rw [copyDollarQuotedLiteral, List.append_assoc, List.singleton_append, dollarQuoteTagEnd_tag letters] at noDollar
    cases noDollar
  · rw [copyDoubleQuotedIdentifier] at noIdentifier ⊢
    split_ifs at noIdentifier ⊢
    rfl

end written

/-! ## The turns of the postprocessor -/

section turns

variable {literals : NationalLiterals} {out tail behind : Text} {byte : UInt8} {kind : PieceKind} {ordinal : Nat}

theorem postprocessFrom_verbatim (copied : copyVerbatim (byte :: tail) = some (kind, behind)) :
    postprocessFrom literals out ordinal (byte :: tail) =
      before (byte :: tail) behind ++ postprocessFrom literals out ordinal behind := by
  rw [postprocessFrom]
  split
  next found =>
    rw [copied] at found
    cases found
    rfl
  next found =>
    rw [copied] at found
    cases found

theorem postprocessFrom_code (none : copyVerbatim (byte :: tail) = none) (noQuote : byte ≠ Byte.quote)
    (noEscape : byte = 69 → byteAt tail 0 ≠ Byte.quote) :
    postprocessFrom literals out ordinal (byte :: tail) = byte :: postprocessFrom literals out ordinal tail := by
  rw [postprocessFrom]
  split
  next found =>
    rw [none] at found
    cases found
  next =>
    have plain : ¬ (byte = Byte.quote ∨ (decide (byte = 69) && decide (byteAt tail 0 = Byte.quote)) = true) := by
      simpa [noQuote] using noEscape
    rw [if_neg plain]

theorem copyVerbatim_quote (tail : Text) : copyVerbatim (Byte.quote :: tail) = none := by
  cases tail <;> rfl

theorem copyVerbatim_escape (tail : Text) : copyVerbatim (69 :: Byte.quote :: tail) = none := rfl

theorem postprocessFrom_literal (literals : NationalLiterals) (out tail : Text) (ordinal : Nat) :
    postprocessFrom literals out ordinal (Byte.quote :: tail) =
      (if literals.matches' ordinal out (offsetOf out (Byte.quote :: tail))
          (offsetOf out (behindDoubled Byte.quote tail)) then
        78 :: before (Byte.quote :: tail) (behindDoubled Byte.quote tail)
      else before (Byte.quote :: tail) (behindDoubled Byte.quote tail)) ++
        postprocessFrom literals out (ordinal + 1) (behindDoubled Byte.quote tail) := by
  rw [postprocessFrom]
  split
  next found =>
    rw [copyVerbatim_quote] at found
    cases found
  next => rfl

/-- An `E` before a literal that has no record is copied like code. -/
theorem postprocessFrom_escaped (unmatched : ∀ start stop, literals.matches' ordinal out start stop = false) :
    postprocessFrom literals out ordinal (69 :: Byte.quote :: tail) =
      69 :: postprocessFrom literals out ordinal (Byte.quote :: tail) := by
  rw [postprocessFrom_literal, unmatched, postprocessFrom]
  split
  next found =>
    rw [copyVerbatim_escape] at found
    cases found
  next =>
    have escaped : (decide ((69 : UInt8) = 69) && decide (byteAt (Byte.quote :: tail) 0 = Byte.quote)) = true := rfl
    rw [if_pos (.inr escaped)]
    simp only [unmatched, List.drop_one, List.tail_cons, Bool.false_eq_true, if_false]
    change before (69 :: Byte.quote :: tail) (behindDoubled Byte.quote tail) ++
      postprocessFrom literals out (ordinal + 1) (behindDoubled Byte.quote tail) = _
    rw [before_cons 69 ((behindDoubled_suffix Byte.quote tail).trans (List.suffix_cons _ _))]
    rfl

/-- The spelling of the literal whose opening quote stands before the body. -/
def spelling (body : Text) : Text :=
  before (Byte.quote :: body) (behindDoubled Byte.quote body)

theorem spelling_open {body : Text} (atEnd : behindDoubled Byte.quote body = []) : spelling body = Byte.quote :: body := by
  rw [spelling, atEnd]
  exact List.take_length

theorem spelling_closed {front behind : Text} (closes : behindDoubled Byte.quote (front ++ Byte.quote :: behind) = behind) :
    spelling (front ++ Byte.quote :: behind) = Byte.quote :: (front ++ [Byte.quote]) := by
  have := before_of_append (Byte.quote :: (front ++ [Byte.quote])) behind
  rw [spelling, closes]
  simpa using this

/-- The turn over a literal with no other literal behind it. -/
theorem postprocessFrom_alone (literals : NationalLiterals) (out : Text) (ordinal : Nat) {body later : Text}
    (atEnd : behindDoubled Byte.quote body = [] → later = [])
    (single : behindDoubled Byte.quote body ≠ [] → later.head? ≠ some Byte.quote) :
    postprocessFrom literals out ordinal (spelling body ++ later) =
      (if literals.matches' ordinal out (offsetOf out (spelling body ++ later)) (offsetOf out later) then
        78 :: spelling body else spelling body) ++ postprocessFrom literals out (ordinal + 1) later := by
  by_cases ends : behindDoubled Byte.quote body = []
  · have whole := spelling_open ends
    have text : before (Byte.quote :: body) [] = Byte.quote :: body := by
      rw [← ends]
      exact whole
    rw [atEnd ends, List.append_nil, whole, postprocessFrom_literal, ends, text]
  · obtain ⟨front, shape, -, closes, -⟩ := behindDoubled_closed rfl ends
    have whole : spelling body = Byte.quote :: (front ++ [Byte.quote]) := by
      have closed : behindDoubled Byte.quote (front ++ Byte.quote :: behindDoubled Byte.quote body) =
          behindDoubled Byte.quote body := by rw [← shape]
      rw [← spelling_closed closed, ← shape]
    have text : spelling body ++ later = Byte.quote :: (front ++ Byte.quote :: later) := by
      rw [whole]
      simp
    have literal : before (Byte.quote :: (front ++ Byte.quote :: later)) later = spelling body := by
      rw [← text, before_of_append]
    rw [text, postprocessFrom_literal, closes later (single ends), literal]

/-- A literal that another one touches runs on into it. -/
theorem postprocessFrom_joined (literals : NationalLiterals) (out : Text) (ordinal : Nat) {body later : Text}
    (present : behindDoubled Byte.quote body ≠ []) (suffix : spelling body ++ Byte.quote :: later <:+ out) :
    ∃ joined start stop after, slice out start stop = spelling body ++ Byte.quote :: joined ∧
      postprocessFrom literals out ordinal (spelling body ++ Byte.quote :: later) =
        (if literals.matches' ordinal out start stop then 78 :: (spelling body ++ Byte.quote :: joined)
        else spelling body ++ Byte.quote :: joined) ++ after := by
  obtain ⟨front, shape, -, -, doubles⟩ := behindDoubled_closed rfl present
  have whole : spelling body = Byte.quote :: (front ++ [Byte.quote]) := by
    have closed : behindDoubled Byte.quote (front ++ Byte.quote :: behindDoubled Byte.quote body) =
        behindDoubled Byte.quote body := by rw [← shape]
    rw [← spelling_closed closed, ← shape]
  have text : spelling body ++ Byte.quote :: later = Byte.quote :: (front ++ Byte.quote :: Byte.quote :: later) := by
    rw [whole]
    simp
  obtain ⟨joined, last⟩ := behindDoubled_suffix Byte.quote later
  have literal : before (Byte.quote :: (front ++ Byte.quote :: Byte.quote :: later)) (behindDoubled Byte.quote later) =
      spelling body ++ Byte.quote :: joined := by
    have split : Byte.quote :: (front ++ Byte.quote :: Byte.quote :: later) =
        (spelling body ++ Byte.quote :: joined) ++ behindDoubled Byte.quote later := by
      rw [← text, List.append_assoc, List.cons_append, last]
    rw [split, before_of_append]
  rw [text] at suffix ⊢
  have behindSuffix : behindDoubled Byte.quote later <:+ Byte.quote :: (front ++ Byte.quote :: Byte.quote :: later) := by
    rw [← doubles later]
    exact (behindDoubled_suffix _ _).trans (List.suffix_cons _ _)
  rw [before_slice suffix behindSuffix] at literal
  refine ⟨joined, _, _, postprocessFrom literals out (ordinal + 1) (behindDoubled Byte.quote later), literal, ?_⟩
  rw [postprocessFrom_literal, doubles later, before_slice suffix behindSuffix, literal]

end turns

/-! ## The records on the way -/

section records

variable {literals : NationalLiterals} {dollars : Bool} {ordinal counted : Nat} {piece : Piece} {others : List Piece}

theorem records_le (counted : Nat) (read : List Piece) : ∀ literal ∈ records counted read, counted ≤ literal.ordinal := by
  induction read generalizing counted with
  | nil => exact nofun
  | cons piece others inductionHypothesis =>
    have later : ∀ literal ∈ records (if piece.isString then counted + 1 else counted) others,
        counted ≤ literal.ordinal := by
      intro literal listed
      have := inductionHypothesis _ literal listed
      split at this <;> omega
    rw [records]
    split
    next => exact List.forall_mem_cons.mpr ⟨le_rfl, later⟩
    next => exact later

theorem records_sorted (counted : Nat) (read : List Piece) :
    (records counted read).Pairwise fun left right => left.ordinal < right.ordinal := by
  induction read generalizing counted with
  | nil => exact .nil
  | cons piece others inductionHypothesis =>
    rw [records]
    split
    next national =>
      have isString : piece.isString = true := by simp [Piece.isString, national]
      rw [isString, if_pos rfl]
      exact .cons (fun literal listed => records_le _ _ literal listed) (inductionHypothesis _)
    next => exact inductionHypothesis _

theorem records_unbound (counted : Nat) (read : List Piece) : ∀ literal ∈ records counted read, literal.owner = none := by
  induction read generalizing counted with
  | nil => exact nofun
  | cons piece others inductionHypothesis =>
    rw [records]
    split
    next => exact List.forall_mem_cons.mpr ⟨rfl, inductionHypothesis _⟩
    next => exact inductionHypothesis _

/-- Where the two passes stand before the pieces that are left: the postprocessor counts behind the
preprocessor once a dollar quote has been passed, and the records are those of the pieces left and earlier ones. -/
structure Recorded (literals : NationalLiterals) (dollars : Bool) (ordinal counted : Nat) (left : List Piece) : Prop where
  sorted : literals.items.Pairwise fun first second => first.ordinal < second.ordinal
  unbound : ∀ literal ∈ literals.items, literal.owner = none
  counts : if dollars then ordinal < counted else ordinal = counted
  listed : ∀ literal ∈ records counted left, literal ∈ literals.items
  others : ∀ literal ∈ literals.items, literal.ordinal < ordinal ∨ literal ∈ records counted left

theorem Recorded.start (read : List Piece) : Recorded { items := records 0 read } false 0 0 read where
  sorted := records_sorted 0 read
  unbound := records_unbound 0 read
  counts := rfl
  listed := fun _ found => found
  others := fun _ found => .inr found

theorem Recorded.unmatched (state : Recorded literals dollars ordinal counted (piece :: others))
    (other : piece.kind = .literal ∨ (piece.kind = .national ∧ dollars)) (out : Text) (start stop : Nat) :
    literals.matches' ordinal out start stop = false := by
  rw [← Bool.not_eq_true, NationalLiterals.matches_iff state.sorted state.unbound]
  rintro ⟨-, literal, found, here, -⟩
  obtain early | later := state.others literal found
  · omega
  · have counts := state.counts
    obtain isLiteral | ⟨-, behind⟩ := other
    · rw [records, if_neg (by simp [isLiteral])] at later
      have isString : piece.isString = true := by simp [Piece.isString, isLiteral]
      rw [isString, if_pos rfl] at later
      have := records_le _ _ literal later
      split at counts <;> omega
    · have := records_le _ _ literal later
      rw [if_pos behind] at counts
      omega

theorem Recorded.matches_iff (state : Recorded literals false ordinal counted (piece :: others))
    (national : piece.kind = .national) (out : Text) (start stop : Nat) :
    literals.matches' ordinal out start stop ↔ start < stop ∧ piece.output = slice out start stop := by
  have same : ordinal = counted := state.counts
  subst same
  rw [NationalLiterals.matches_iff state.sorted state.unbound]
  have isString : piece.isString = true := by simp [Piece.isString, national]
  have shape : records ordinal (piece :: others) = ⟨piece.output, none, ordinal, none⟩ :: records (ordinal + 1) others := by
    rw [records, if_pos national, isString, if_pos rfl]
  apply and_congr_right
  intro _
  constructor
  · rintro ⟨literal, found, here, bytes⟩
    obtain early | later := state.others literal found
    · omega
    · rw [shape] at later
      cases later with
      | head => exact bytes
      | tail _ later =>
        have := records_le _ _ literal later
        omega
  · intro bytes
    exact ⟨_, state.listed _ (by rw [shape]; exact .head _), rfl, bytes⟩

/-- The state behind a piece over which the passes stay in step. -/
theorem Recorded.next (state : Recorded literals dollars ordinal counted (piece :: others))
    (survived : ¬ (dollars ∧ piece.kind = .national)) :
    Recorded literals (dollars || piece.kind = .dollarQuoted)
      (if piece.kind = .literal ∨ piece.kind = .national then ordinal + 1 else ordinal)
      (if piece.isString then counted + 1 else counted) others where
  sorted := state.sorted
  unbound := state.unbound
  counts := by
    have counts := state.counts
    cases dollars with
    | false =>
      have same : ordinal = counted := counts
      cases kind : piece.kind <;> simp [Piece.isString, kind, same]
    | true =>
      have less : ordinal < counted := counts
      have noNational : piece.kind ≠ .national := by simpa using survived
      cases kind : piece.kind <;> simp [Piece.isString, kind] at noNational ⊢ <;> omega
  listed := fun literal found => state.listed literal (by
    rw [records]
    split
    next => exact .tail _ found
    next => exact found)
  others := fun literal found => by
    have counts := state.counts
    obtain early | later := state.others literal found
    · left
      split <;> omega
    · rw [records] at later
      split at later
      next national =>
        cases later with
        | head =>
          left
          have noDollars : dollars = false := by simpa [national] using survived
          rw [noDollars] at counts
          have same : ordinal = counted := counts
          rw [if_pos (.inr national)]
          dsimp only
          omega
        | tail _ later => exact .inr later
      next => exact .inr later

end records

/-! ## The round trip -/

section roundTrip

variable {literals : NationalLiterals} {sql rest out : Text} {dollars : Bool} {ordinal counted : Nat}

theorem restored_verbatim {kind : PieceKind} {front behind : Text} (other : kind ≠ .national) :
    Piece.restored ⟨kind, front ++ behind, behind⟩ = front := by
  rw [Piece.restored, if_neg other]
  exact before_of_append front behind

theorem restored_head {read : List Piece} (national : startsNational read) :
    ∃ later, read.flatMap Piece.restored = 78 :: later := by
  cases read with
  | nil => cases national
  | cons piece others =>
    rw [startsNational, decide_eq_true_eq] at national
    rw [List.flatMap_cons, Piece.restored, if_pos national]
    exact ⟨_, rfl⟩

theorem spelling_head (body : Text) : ∃ later, spelling body = Byte.quote :: later := by
  rw [spelling, before_cons Byte.quote (behindDoubled_suffix _ _)]
  exact ⟨_, rfl⟩

section literal

variable {piece : Piece} {body : Text}

/-- A literal without a record is not restored as a national one. -/
theorem national_unrestored {found later : Text} (restored : piece.restored = 78 :: spelling body)
    (text : ∃ tail, found = spelling body ++ tail) :
    found ≠ piece.restored ++ later := by
  obtain ⟨tail, rfl⟩ := text
  obtain ⟨letters, shape⟩ := spelling_head body
  rw [restored, shape]
  intro same
  cases same

/-- A literal that touches a national one is restored with the prefix in between, and the postprocessor goes
on with its quote. -/
theorem literal_joined (state : Recorded literals dollars ordinal counted
      (piece :: pieces sql (behindDoubled Byte.quote body)))
    (kind : piece.kind = .literal ∨ piece.kind = .national) (output : piece.output = spelling body)
    (restored : piece.restored = if piece.kind = .national then 78 :: spelling body else spelling body)
    (suffix : spelling body ++ written sql (behindDoubled Byte.quote body) <:+ out)
    (touches : startsNational (pieces sql (behindDoubled Byte.quote body))) :
    postprocessFrom literals out ordinal (spelling body ++ written sql (behindDoubled Byte.quote body)) ≠
      (piece :: pieces sql (behindDoubled Byte.quote body)).flatMap Piece.restored := by
  have present : behindDoubled Byte.quote body ≠ [] := by
    intro atEnd
    rw [atEnd, pieces_nil] at touches
    cases touches
  obtain ⟨tail, quoted⟩ : ∃ tail, written sql (behindDoubled Byte.quote body) = Byte.quote :: tail := by
    obtain ⟨plain, -⟩ | ⟨-, head⟩ := written_head sql (behindDoubled Byte.quote body)
    · rw [plain] at touches
      cases touches
    · exact List.head?_eq_some_iff.mp head
  rw [quoted] at suffix ⊢
  obtain ⟨joined, start, stop, after, text, post⟩ := postprocessFrom_joined literals out ordinal present suffix
  have unmatched : literals.matches' ordinal out start stop = false := by
    obtain literal | national := kind
    · exact state.unmatched (.inl literal) out start stop
    · cases dollars with
      | true => exact state.unmatched (.inr ⟨national, rfl⟩) out start stop
      | false =>
        rw [← Bool.not_eq_true, state.matches_iff national, output, text]
        rintro ⟨-, same⟩
        have := congrArg List.length same
        simp at this
  rw [post, unmatched, if_neg Bool.false_ne_true, List.flatMap_cons]
  obtain literal | national := kind
  · obtain ⟨later, next⟩ := restored_head touches
    rw [restored, if_neg (by simp [literal]), next, List.append_assoc]
    intro same
    cases List.append_cancel_left same
  · rw [if_pos national] at restored
    exact national_unrestored restored ⟨_, List.append_assoc _ _ _⟩

/-- Over a literal the passes stay in step unless it touches a national literal behind it. -/
theorem literal_turn (state : Recorded literals dollars ordinal counted
      (piece :: pieces sql (behindDoubled Byte.quote body)))
    (kind : piece.kind = .literal ∨ piece.kind = .national) (output : piece.output = spelling body)
    (restored : piece.restored = if piece.kind = .national then 78 :: spelling body else spelling body)
    (suffix : spelling body ++ written sql (behindDoubled Byte.quote body) <:+ out)
    (later : ¬ (dollars ∧ piece.kind = .national) →
      (postprocessFrom literals out (ordinal + 1) (written sql (behindDoubled Byte.quote body)) =
          (pieces sql (behindDoubled Byte.quote body)).flatMap Piece.restored ↔
        survives dollars (pieces sql (behindDoubled Byte.quote body)))) :
    postprocessFrom literals out ordinal (spelling body ++ written sql (behindDoubled Byte.quote body)) =
        (piece :: pieces sql (behindDoubled Byte.quote body)).flatMap Piece.restored ↔
      survives dollars (piece :: pieces sql (behindDoubled Byte.quote body)) := by
  cases touches : startsNational (pieces sql (behindDoubled Byte.quote body)) with
  | true =>
    apply iff_of_false (literal_joined state kind output restored suffix touches)
    obtain literal | national := kind
    · simp [survives, touches, literal]
    · simp [survives, touches, national]
  | false =>
    have atEnd : behindDoubled Byte.quote body = [] → written sql (behindDoubled Byte.quote body) = [] := by
      intro ends
      rw [ends, written, pieces_nil]
      rfl
    have single : behindDoubled Byte.quote body ≠ [] →
        (written sql (behindDoubled Byte.quote body)).head? ≠ some Byte.quote := by
      intro present
      obtain ⟨front, -, head, -⟩ := behindDoubled_closed rfl present
      exact written_no_quote touches head
    rw [postprocessFrom_alone literals out ordinal atEnd single, List.flatMap_cons, restored]
    obtain literal | national := kind
    · rw [state.unmatched (.inl literal), if_neg Bool.false_ne_true, if_neg (by simp [literal]),
        List.append_cancel_left_eq, later (by simp [literal])]
      simp [survives, touches, literal]
    · rw [if_pos national]
      cases dollars with
      | true =>
        rw [state.unmatched (.inr ⟨national, rfl⟩), if_neg Bool.false_ne_true]
        rw [if_pos national] at restored
        rw [← restored]
        apply iff_of_false (national_unrestored restored ⟨_, rfl⟩)
        simp [survives, national]
      | false =>
        have text : slice out (offsetOf out (spelling body ++ written sql (behindDoubled Byte.quote body)))
            (offsetOf out (written sql (behindDoubled Byte.quote body))) = spelling body := by
          rw [← before_slice suffix (List.suffix_append _ _), before_of_append]
        have forward : offsetOf out (spelling body ++ written sql (behindDoubled Byte.quote body)) <
            offsetOf out (written sql (behindDoubled Byte.quote body)) := by
          obtain ⟨letters, shape⟩ := spelling_head body
          have := suffix.length_le
          rw [shape, List.length_append, List.length_cons] at this
          rw [offsetOf, offsetOf, shape, List.length_append, List.length_cons]
          omega
        rw [(state.matches_iff national out _ _).mpr ⟨forward, by rw [output, text]⟩, if_pos rfl,
          List.append_cancel_left_eq, later (by simp)]
        simp [survives, touches, national]

end literal

theorem nextPiece_quote (sql body : Text) :
    nextPiece sql Byte.quote body = (.literal, behindDoubled Byte.quote body) := by
  have noNational : isNStringLiteral (Byte.quote :: body) = false := rfl
  simp only [nextPiece, copyVerbatim_quote, noNational, Bool.false_eq_true, and_false, if_false, if_true]

/-- A byte of code is copied, also an `E` before a literal. -/
theorem code_turn {byte : UInt8} {tail : Text} (suffix : byte :: tail <:+ sql) (none : copyVerbatim (byte :: tail) = none)
    (noQuote : byte ≠ Byte.quote) (state : Recorded literals dollars ordinal counted (pieces sql tail)) :
    postprocessFrom literals out ordinal (byte :: written sql tail) =
      byte :: postprocessFrom literals out ordinal (written sql tail) := by
  by_cases escape : byte = 69 ∧ byteAt (written sql tail) 0 = Byte.quote
  · obtain ⟨rfl, quoted⟩ := escape
    obtain ⟨later, shape⟩ : ∃ later, written sql tail = Byte.quote :: later := by
      cases found : written sql tail with
      | nil =>
        rw [found] at quoted
        cases quoted
      | cons first later =>
        rw [found] at quoted
        have isQuote : first = Byte.quote := quoted
        exact ⟨later, by rw [isQuote]⟩
    obtain ⟨body, rfl⟩ : ∃ body, tail = Byte.quote :: body := by
      obtain ⟨-, head⟩ | ⟨national, -⟩ := written_head sql tail
      · rw [shape] at head
        exact List.head?_eq_some_iff.mp head.symm
      · -- no prefix of a literal stands behind a letter
        exfalso
        cases tail with
        | nil =>
          rw [pieces_nil] at national
          cases national
        | cons first body =>
          cases turn : nextPiece sql first body with
          | mk kind behind =>
            rw [pieces_cons, turn, startsNational, decide_eq_true_eq] at national
            dsimp only at national
            subst national
            obtain copied | ⟨-, ⟨-, -, -, begins⟩ | ⟨literal, -⟩ | ⟨code, -⟩⟩ := nextPiece_cases turn
            · obtain verbatim | verbatim | verbatim := copyVerbatim_kind copied <;> cases verbatim
            · rw [byteAt_before suffix, offsetOf_cons suffix] at begins
              obtain start | noLetter := begins
              · omega
              · cases noLetter
            · cases literal
            · cases code
    rw [pieces_cons, nextPiece_quote] at state
    rw [shape]
    exact postprocessFrom_escaped (state.unmatched (.inl rfl) out)
  · exact postprocessFrom_code (written_plain none) noQuote fun isE quote => escape ⟨isE, quote⟩

/-- The postprocessor restores what is left of the text exactly when its national literals survive. -/
theorem postprocessFrom_restored_iff (suffix : rest <:+ sql) (outSuffix : written sql rest <:+ out)
    (state : Recorded literals dollars ordinal counted (pieces sql rest)) :
    postprocessFrom literals out ordinal (written sql rest) = (pieces sql rest).flatMap Piece.restored ↔
      survives dollars (pieces sql rest) := by
  fun_induction pieces sql rest generalizing dollars ordinal counted with
  | case1 =>
    rw [written, pieces_nil, List.flatMap_nil, postprocessFrom]
    exact iff_of_true rfl rfl
  | case2 byte tail kind behind turn inductionHypothesis =>
    have behindSuffix := nextPiece_suffix turn
    have tailSuffix : tail <:+ sql := (List.suffix_cons byte tail).trans suffix
    have inText : behind <:+ sql := behindSuffix.trans tailSuffix
    have next (survived : ¬ (dollars ∧ kind = .national)) := state.next survived
    have outLater : written sql behind <:+ out := by
      rw [written_cons turn] at outSuffix
      exact (List.suffix_append _ _).trans outSuffix
    -- what the preprocessor read here: a piece it copies, a national literal, a plain one, or a byte of code
    obtain copied | ⟨none, ⟨rfl, letter, rfl, -⟩ | ⟨rfl, rfl, rfl⟩ | ⟨rfl, noQuote, rfl, -⟩⟩ := nextPiece_cases turn
    · have noNational : kind ≠ .national := by
        obtain rfl | rfl | rfl := copyVerbatim_kind copied <;> nofun
      have noLiteral : kind ≠ .literal := by
        obtain rfl | rfl | rfl := copyVerbatim_kind copied <;> nofun
      have state := next fun fails => noNational fails.2
      rw [if_neg (by simp [noNational, noLiteral])] at state
      obtain ⟨front, rfl⟩ := behindSuffix
      -- the postprocessor ends the copied piece where the preprocessor did
      have again : copyVerbatim (byte :: (front ++ written sql behind)) = some (kind, written sql behind) := by
        by_cases ends : behind = []
        · subst ends
          rw [written, pieces_nil]
          exact copied
        · obtain ⟨before, last, whole, -, -, head, closes⟩ := copyVerbatim_closed copied ends
          have split : byte :: front = before ++ [last] := by
            apply @List.append_cancel_right _ _ behind
            rw [List.append_assoc]
            exact whole
          have found := closes (written sql behind) fun identifier => by
            obtain ⟨-, same⟩ | ⟨-, quote⟩ := written_head sql behind
            · rw [same]
              exact head identifier
            · rw [quote]
              decide
          rwa [List.append_cons, ← split, List.cons_append] at found
      have output : Piece.output ⟨kind, byte :: (front ++ behind), behind⟩ = byte :: front :=
        @output_verbatim behind kind (byte :: front) noNational
      have restored : Piece.restored ⟨kind, byte :: (front ++ behind), behind⟩ = byte :: front :=
        @restored_verbatim kind (byte :: front) behind noNational
      have text : before (byte :: (front ++ written sql behind)) (written sql behind) = byte :: front :=
        before_of_append (byte :: front) _
      rw [written_cons turn, output, List.cons_append, postprocessFrom_verbatim again, text, List.flatMap_cons, restored,
        List.append_cancel_left_eq, inductionHypothesis inText outLater state]
      simp [survives, noNational, noLiteral]
    · obtain ⟨-, whole⟩ := national_cons letter
      have output : Piece.output ⟨.national, byte :: tail, behindDoubled Byte.quote (tail.drop 1)⟩ =
          spelling (tail.drop 1) := by
        have suffix := nextPiece_suffix turn
        rw [Piece.output, if_pos rfl, Piece.text, before_cons byte suffix, List.drop_one, List.tail_cons, spelling, ← whole]
      rw [written_cons turn, output] at outSuffix ⊢
      apply literal_turn state (.inr rfl) output ?_ outSuffix
      · intro survived
        have state := next survived
        rw [if_pos (.inr rfl)] at state
        have later := inductionHypothesis inText outLater state
        rwa [show (dollars || decide (PieceKind.national = PieceKind.dollarQuoted)) = dollars by simp] at later
      · rw [Piece.restored, if_pos rfl, if_pos rfl, output]
    · have output : Piece.output ⟨.literal, Byte.quote :: tail, behindDoubled Byte.quote tail⟩ = spelling tail := rfl
      rw [written_cons turn, output] at outSuffix ⊢
      apply literal_turn state (.inl rfl) output rfl outSuffix
      intro survived
      have state := next survived
      rw [if_pos (.inl rfl)] at state
      have later := inductionHypothesis inText outLater state
      rwa [show (dollars || decide (PieceKind.literal = PieceKind.dollarQuoted)) = dollars by simp] at later
    · have state := next (by simp)
      rw [if_neg (by simp), show Piece.isString ⟨.code, byte :: behind, behind⟩ = false from rfl,
        if_neg Bool.false_ne_true, show (dollars || decide (PieceKind.code = PieceKind.dollarQuoted)) = dollars by simp]
        at state
      have restored : Piece.restored ⟨.code, byte :: behind, behind⟩ = [byte] :=
        @restored_verbatim .code [byte] behind nofun
      rw [written_code turn, code_turn suffix none noQuote state, List.flatMap_cons, restored, List.singleton_append,
        List.cons_inj_right, inductionHypothesis inText outLater state]
      simp [survives]

/-- Every removed prefix comes back as an upper-case `N`, and nothing else changes, exactly when no national
literal stands behind a dollar-quoted constant or directly behind another literal. -/
theorem national_round_trip_iff (natives : PgQuery.Natives) (traced : Bool) (sql : Text) :
    postprocessNationalLiterals (preprocessText natives traced {} sql).1 (preprocessText natives traced {} sql).2 =
        (pieces sql sql).flatMap Piece.restored ↔
      survives false (pieces sql sql) := by
  have records : (preprocessText natives traced {} sql).2.items = records 0 (pieces sql sql) := by
    rw [preprocessText_eq_loop, preprocessLoop, foldl_finishPiece]
    rfl
  have text : (preprocessText natives traced {} sql).1 = written sql sql := by
    rw [preprocessText_eq_loop]
    rfl
  rw [text, postprocessNationalLiterals]
  apply postprocessFrom_restored_iff List.suffix_rfl List.suffix_rfl
  have start := Recorded.start (pieces sql sql)
  exact
    { sorted := by rw [records]; exact start.sorted
      unbound := by rw [records]; exact start.unbound
      counts := rfl
      listed := by rw [records]; exact start.listed
      others := by rw [records]; exact start.others }

end roundTrip

/-- The preprocessor counts the dollar-quoted constant and the postprocessor does not, so the prefix is lost. -/
theorem national_lost_behind_dollar :
    (pieces (ascii "SELECT $$x$$, N'a'") (ascii "SELECT $$x$$, N'a'")).flatMap Piece.restored =
        ascii "SELECT $$x$$, N'a'" ∧
      postprocessNationalLiterals
          (preprocessText ⟨fun _ => false, fun _ => true⟩ false {} (ascii "SELECT $$x$$, N'a'")).1
          (preprocessText ⟨fun _ => false, fun _ => true⟩ false {} (ascii "SELECT $$x$$, N'a'")).2 =
        ascii "SELECT $$x$$, 'a'" ∧
      postprocessNationalLiterals
          (preprocessText ⟨fun _ => false, fun _ => true⟩ false {} (ascii "SELECT $$x$$, N'a'")).1
          (preprocessText ⟨fun _ => false, fun _ => true⟩ false {} (ascii "SELECT $$x$$, N'a'")).2 ≠
        (pieces (ascii "SELECT $$x$$, N'a'") (ascii "SELECT $$x$$, N'a'")).flatMap Piece.restored := by
  have restored : (pieces (ascii "SELECT $$x$$, N'a'") (ascii "SELECT $$x$$, N'a'")).flatMap Piece.restored =
      ascii "SELECT $$x$$, N'a'" := by decide +kernel
  have given : postprocessNationalLiterals
      (preprocessText ⟨fun _ => false, fun _ => true⟩ false {} (ascii "SELECT $$x$$, N'a'")).1
      (preprocessText ⟨fun _ => false, fun _ => true⟩ false {} (ascii "SELECT $$x$$, N'a'")).2 =
    ascii "SELECT $$x$$, 'a'" := by decide +kernel
  refine ⟨restored, given, ?_⟩
  rw [restored, given]
  decide +kernel

end SqlParser.Postgresql
