import SqlParser.Core.EscapedQuotes
import SqlParser.Mysql.Quotes

/-! # The quote pass and the public lexer

The quote pass and the public lexer decide by themselves where a quoted item and a
comment end.  For each piece of the quote pass stands here when the two agree.
-/

namespace SqlParser.Mysql

open SqlParser.Core

/-! ## The public lexer in MySQL texts -/

theorem publicSkip_mysql {sql rest : Text} {index : Nat} {byte : UInt8} (located : sql.drop index = byte :: rest) :
    publicSkipQuotedOrComment .mysql sql index =
      if byte = Byte.dash then
        if byteAt rest 0 = Byte.dash ∧ endsDashes (byteAt rest 1) then offsetOf sql (behindLine (rest.drop 1))
        else index
      else if byte = Byte.hash then offsetOf sql (behindLine rest)
      else if byte = Byte.slash then
        if byteAt rest 0 = Byte.star then offsetOf sql (behindFlatComment (rest.drop 1)) else index
      else if byte = Byte.backtick ∨ byte = Byte.quote ∨ byte = Byte.doubleQuote then
        offsetOf sql (behindQuoted byte true rest)
      else index := by
  have first : byteAt sql index = byte := by rw [byteAt_eq_head, located]; rfl
  have behind : sql.drop (index + 1) = rest := by rw [← List.drop_drop, located]; rfl
  have later (offset : Nat) : byteAt sql (index + 1 + offset) = byteAt rest offset := by
    rw [← behind, byteAt_drop]
  have second : byteAt sql (index + 1) = byteAt rest 0 := later 0
  have third : byteAt sql (index + 2) = byteAt rest 1 := later 1
  have behindTwo : sql.drop (index + 2) = rest.drop 1 := by
    rw [← behind, List.drop_drop]
  have noDollar : (Dialect.mysql.usesPostgresqlPlaceholders || Dialect.mysql.isOracleCompatible) = false := rfl
  have noQQuote : publicSkipOracleQQuote .mysql sql index = index := rfl
  have noBrackets : (!Dialect.mysql.isSqlserverCompatible) = true := rfl
  have mysql : Dialect.mysql.isMysqlCompatible = true := rfl
  have flat : publicNestedComments .mysql = false := rfl
  have escapes : publicBackslashEscapes .mysql sql index byte = true := rfl
  unfold publicSkipQuotedOrComment
  simp only [first, second, third, behind, behindTwo, noDollar, noQQuote, noBrackets, mysql, flat, escapes,
    behindBlockComment_flat]
  unfold endsDashes
  -- a byte that opens nothing in MySQL is none of the bytes that are tested behind it
  by_cases dollar : byte = Byte.dollar
  · subst dollar
    rfl
  by_cases letter : byte = 113 ∨ byte = 81 ∨ byte = 110 ∨ byte = 78
  · obtain rfl | rfl | rfl | rfl := letter <;> rfl
  by_cases bracket : byte = Byte.openBracket
  · subst bracket
    rfl
  rw [if_neg dollar, if_neg letter, if_neg bracket]
  by_cases dash : byte = Byte.dash
  · rw [if_pos dash, if_pos dash]
    grind
  rw [if_neg dash, if_neg dash]
  grind

/-- A byte that is not tested opens nothing. -/
theorem publicSkip_plain {sql rest : Text} {index : Nat} {byte : UInt8} (located : sql.drop index = byte :: rest)
    (noDash : byte ≠ Byte.dash) (noHash : byte ≠ Byte.hash) (noSlash : byte ≠ Byte.slash)
    (noBacktick : byte ≠ Byte.backtick) (noQuote : byte ≠ Byte.quote) (noDoubleQuote : byte ≠ Byte.doubleQuote) :
    publicSkipQuotedOrComment .mysql sql index = index := by
  rw [publicSkip_mysql located, if_neg noDash, if_neg noHash, if_neg noSlash,
    if_neg (by simp [noBacktick, noQuote, noDoubleQuote])]

/-! ## String literals -/

theorem copyStringBody_public {quote : UInt8} (plain : quote ≠ Byte.backslash) {body : Text} {copied : CopiedString}
    (found : copyStringBody quote body = some copied) : behindQuoted quote true body = copied.behind := by
  fun_induction copyStringBody quote body generalizing copied with
  | case1 => cases found
  | case2 =>
    cases found
    exact behindQuoted_last _ _ _
  | case3 => cases found
  | case4 next rest inductionHypothesis =>
    obtain ⟨inner, copies, rfl⟩ := Option.map_eq_some_iff.mp found
    rw [behindQuoted_escape]
    exact (inductionHypothesis copies :)
  | case5 rest _ inductionHypothesis =>
    obtain ⟨inner, copies, rfl⟩ := Option.map_eq_some_iff.mp found
    rw [behindQuoted_quote plain, if_pos rfl]
    exact (inductionHypothesis copies :)
  | case6 next rest single _ =>
    cases found
    rw [behindQuoted_quote plain, if_neg single]
  | case7 byte next rest escape other inductionHypothesis =>
    obtain ⟨inner, copies, rfl⟩ := Option.map_eq_some_iff.mp found
    rw [behindQuoted_pass (by simp [stopsQuoted, escape, other])]
    exact (inductionHypothesis copies :)

/-- Backslash escapes and doubled quotes of a string literal mean the same to both. -/
theorem copyStringLiteral_public {quote : UInt8} (plain : quote ≠ Byte.backslash) {body output behind : Text}
    (copied : copyStringLiteral quote body = .ok (output, behind)) : behindQuoted quote true body = behind := by
  unfold copyStringLiteral at copied
  dsimp only at copied
  split at copied
  next fast =>
    cases copied
    obtain ⟨rfl, closes, single⟩ := fast
    have passes : behindQuoted Byte.quote true body = behindQuoted Byte.quote true
        (body.drop (body.takeWhile fun byte => byte ≠ Byte.quote && byte ≠ Byte.backslash).length) := by
      conv_lhs => rw [← List.prefix_iff_eq_append.mp (@List.takeWhile_prefix _ body fun byte =>
        byte ≠ Byte.quote && byte ≠ Byte.backslash)]
      refine behindQuoted_run _ _ fun byte listed => ?_
      have := List.mem_takeWhile_imp listed
      simpa [stopsQuoted] using this
    obtain ⟨rest, located⟩ := cons_of_byteAt closes (by decide)
    rw [passes, located]
    rw [located] at single
    cases rest with
    | nil => exact behindQuoted_last _ _ _
    | cons next tail =>
      have single : next ≠ Byte.quote := single
      rw [behindQuoted_quote (by decide), if_neg single, List.drop_one, List.tail_cons]
  next =>
    split at copied
    next inner found =>
      cases copied
      exact copyStringBody_public plain found
    next => cases copied

/-! ## Backtick identifiers

The quote pass knows no escapes in an identifier.  The public lexer does, and where a
backslash stands before a backtick one of the two ends the identifier in the run of backticks
behind it and the other does not.
-/

/-- Whether no backslash of an identifier, read in pairs, stands before a backtick, unless the odd
run of backticks behind the first such backslash ends the text.  Entered behind the opening backtick. -/
def backtickInStep : Text → Bool
  | [] => true
  | [_] => true
  | byte :: next :: rest =>
    if byte = Byte.backslash then
      if next = Byte.backtick then
        ((next :: rest).takeWhile fun byte => byte = Byte.backtick).length % 2 = 1 &&
          ((next :: rest).dropWhile fun byte => byte = Byte.backtick).isEmpty
      else backtickInStep rest
    else if byte = Byte.backtick then
      if next = Byte.backtick then backtickInStep rest else true
    else backtickInStep (next :: rest)

theorem copyBacktickBody_shorter {body content behind : Text}
    (found : copyBacktickBody body = some (content, behind)) : behind.length < body.length := by
  fun_induction copyBacktickBody body generalizing content with
  | case1 => cases found
  | case2 =>
    cases found
    exact Nat.zero_lt_one
  | case3 => cases found
  | case4 rest inductionHypothesis =>
    obtain ⟨inner, copies, whole⟩ := Option.map_eq_some_iff.mp found
    cases whole
    exact (inductionHypothesis copies).trans (by simp)
  | case5 next rest single =>
    cases found
    simp
  | case6 byte next rest other inductionHypothesis =>
    obtain ⟨inner, copies, whole⟩ := Option.map_eq_some_iff.mp found
    cases whole
    exact (inductionHypothesis copies).trans (by simp)

/-- The quote pass on a run of backticks. -/
theorem copyBacktickBody_backticks {after content behind : Text} (other : after.head? ≠ some Byte.backtick)
    (count : Nat) (found : copyBacktickBody (List.replicate count Byte.backtick ++ after) = some (content, behind)) :
    if count % 2 = 1 then behind = after else ∃ content, copyBacktickBody after = some (content, behind) := by
  induction count using Nat.twoStepInduction generalizing content with
  | zero => exact ⟨content, found⟩
  | one =>
    rw [if_pos rfl]
    cases after with
    | nil =>
      cases found
      rfl
    | cons next rest =>
      have single : next ≠ Byte.backtick := fun same => other (congrArg some same)
      rw [List.replicate_one, List.singleton_append, copyBacktickBody, if_pos rfl, if_neg single] at found
      cases found
      rfl
  | more count inductionHypothesis _ =>
    rw [List.replicate_succ, List.replicate_succ, List.cons_append, List.cons_append, copyBacktickBody,
      if_pos rfl, if_pos rfl] at found
    obtain ⟨inner, copies, whole⟩ := Option.map_eq_some_iff.mp found
    cases whole
    rw [Nat.add_mod_right]
    exact inductionHypothesis copies

/-- An escaped backtick: the run of backticks behind it ends the identifier for one of the two only. -/
theorem escapedBacktick_agrees {rest content behind : Text}
    (found : copyBacktickBody (Byte.backtick :: rest) = some (content, behind)) :
    behindQuoted Byte.backtick true rest = behind ↔
      ((Byte.backtick :: rest).takeWhile fun byte => byte = Byte.backtick).length % 2 = 1 ∧
        ((Byte.backtick :: rest).dropWhile fun byte => byte = Byte.backtick) = [] := by
  generalize counted : ((Byte.backtick :: rest).takeWhile fun byte => byte = Byte.backtick).length = count
  generalize located : ((Byte.backtick :: rest).dropWhile fun byte => byte = Byte.backtick) = after
  have whole := replicate_append_dropWhile Byte.backtick (Byte.backtick :: rest)
  have other := dropWhile_head Byte.backtick (Byte.backtick :: rest)
  rw [counted, located] at whole
  rw [located] at other
  cases count with
  | zero => simp at counted
  | succ count =>
    rw [← whole] at found
    rw [List.replicate_succ, List.cons_append, List.cons_inj_right] at whole
    have ends := copyBacktickBody_backticks other (count + 1) found
    rw [← whole, behindQuoted_quotes (by decide) other]
    obtain even | odd := Nat.mod_two_eq_zero_or_one count
    · -- an odd run ends the identifier of the quote pass, the public lexer goes on
      have parity : (count + 1) % 2 = 1 := by omega
      rw [if_pos parity] at ends
      subst ends
      rw [if_neg (by omega)]
      constructor
      · intro agrees
        refine ⟨parity, ?_⟩
        by_contra present
        exact absurd (behindQuoted_shorter Byte.backtick true present) (by rw [agrees]; exact lt_irrefl _)
      · rintro ⟨-, rfl⟩
        exact behindQuoted_nil _ _
    · -- an even run ends the item of the public lexer, the quote pass goes on
      rw [if_neg (by omega)] at ends
      obtain ⟨later, copies⟩ := ends
      have := copyBacktickBody_shorter copies
      rw [if_pos odd]
      constructor
      · rintro rfl
        exact absurd this (lt_irrefl _)
      · rintro ⟨parity, -⟩
        omega

theorem copyBacktickBody_agrees {body content behind : Text}
    (found : copyBacktickBody body = some (content, behind)) :
    behindQuoted Byte.backtick true body = behind ↔ backtickInStep body := by
  fun_induction backtickInStep body generalizing content with
  | case1 => cases found
  | case2 byte =>
    unfold copyBacktickBody at found
    split at found
    next =>
      cases found
      simp [behindQuoted_last]
    next => cases found
  | case3 rest =>
    rw [copyBacktickBody, if_neg (by decide)] at found
    obtain ⟨inner, copies, whole⟩ := Option.map_eq_some_iff.mp found
    cases whole
    rw [behindQuoted_escape, escapedBacktick_agrees copies]
    simp
  | case4 next rest plain inductionHypothesis =>
    rw [copyBacktickBody, if_neg (by decide)] at found
    obtain ⟨inner, copies, whole⟩ := Option.map_eq_some_iff.mp found
    cases whole
    rw [behindQuoted_escape]
    cases rest with
    | nil => 
      rw [copyBacktickBody, if_neg plain] at copies
      cases copies
    | cons second tail =>
      rw [copyBacktickBody, if_neg plain] at copies
      obtain ⟨innermost, copiesBehind, whole⟩ := Option.map_eq_some_iff.mp copies
      cases whole
      exact (inductionHypothesis copiesBehind :)
  | case5 rest _ inductionHypothesis =>
    rw [copyBacktickBody, if_pos rfl, if_pos rfl] at found
    obtain ⟨inner, copies, whole⟩ := Option.map_eq_some_iff.mp found
    cases whole
    rw [behindQuoted_quote (by decide), if_pos rfl]
    exact inductionHypothesis copies
  | case6 next rest single =>
    rw [copyBacktickBody, if_pos rfl, if_neg single] at found
    cases found
    rw [behindQuoted_quote (by decide), if_neg single]
    simp
  | case7 byte next rest escape other inductionHypothesis =>
    rw [copyBacktickBody, if_neg other] at found
    obtain ⟨inner, copies, whole⟩ := Option.map_eq_some_iff.mp found
    cases whole
    rw [behindQuoted_pass (by simp [stopsQuoted, escape, other])]
    exact inductionHypothesis copies

end SqlParser.Mysql
