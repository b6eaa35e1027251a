import SqlParser.Core.PublicLexer

/-! # Quoted items with and without backslash escapes

The public lexer reads some quoted items with backslash escapes that another reader of
the same text takes for plain bytes.  Where a backslash stands before a quote one of the
two ends the item in the run of quotes behind it and the other does not.
-/

namespace SqlParser.Core

/-! ## Runs of quotes -/

/-- A run of some byte and what stands behind it. -/
theorem replicate_append_dropWhile (byte : UInt8) (text : Text) :
    List.replicate (text.takeWhile fun other => other = byte).length byte ++
        (text.dropWhile fun other => other = byte) = text := by
  have run : text.takeWhile (fun other => other = byte) =
      List.replicate (text.takeWhile fun other => other = byte).length byte :=
    List.eq_replicate_of_mem fun other listed => by simpa using List.mem_takeWhile_imp listed
  rw [← run]
  exact List.takeWhile_append_dropWhile

theorem dropWhile_head (byte : UInt8) (text : Text) :
    (text.dropWhile fun other => other = byte).head? ≠ some byte := by
  induction text with
  | nil => exact nofun
  | cons first rest inductionHypothesis =>
    rw [List.dropWhile_cons]
    split
    next => exact inductionHypothesis
    next other =>
      intro same
      cases same
      exact other (decide_eq_true rfl)

/-! ## Where the readings agree -/

/-- Whether no backslash of an item, read in pairs, stands before a quote, unless the run of
quotes behind the first such backslash ends the text.  Entered behind the opening quote. -/
def escapesInStep (quote : UInt8) : Text → Bool
  | [] => true
  | [_] => true
  | byte :: next :: rest =>
    if byte = Byte.backslash then
      if next = quote then ((next :: rest).dropWhile fun byte => byte = quote).isEmpty
      else escapesInStep quote rest
    else if byte = quote then
      if next = quote then escapesInStep quote rest else true
    else escapesInStep quote (next :: rest)

section readings

variable {quote : UInt8}

/-- No reading ends an item where it begins, unless the text ends there. -/
theorem behindQuoted_eq_self {escapes : Bool} {rest : Text} : behindQuoted quote escapes rest = rest ↔ rest = [] := by
  constructor
  · intro same
    by_contra present
    have shorter := behindQuoted_shorter quote escapes present
    rw [same] at shorter
    exact lt_irrefl _ shorter
  · rintro rfl
    exact behindQuoted_nil _ _

/-- An escaped quote: the run of quotes behind the backslash ends the item for one reading only. -/
theorem escapedQuote_agrees (plain : quote ≠ Byte.backslash) (rest : Text) :
    behindQuoted quote true rest = behindQuoted quote false (quote :: rest) ↔
      ((quote :: rest).dropWhile fun byte => byte = quote) = [] := by
  generalize counted : (rest.takeWhile fun byte => byte = quote).length = count
  generalize located : (rest.dropWhile fun byte => byte = quote) = after
  have whole := replicate_append_dropWhile quote rest
  have other := dropWhile_head quote rest
  rw [counted, located] at whole
  rw [located] at other
  have behind : ((quote :: rest).dropWhile fun byte => byte = quote) = after := by
    rw [List.dropWhile_cons_of_pos (by simp), located]
  have escaped := @behindQuoted_quotes quote true plain after other count
  have doubled := @behindQuoted_quotes quote false plain after other (count + 1)
  rw [whole] at escaped
  rw [List.replicate_succ, List.cons_append, whole] at doubled
  rw [behind, escaped, doubled]
  obtain even | odd := Nat.mod_two_eq_zero_or_one count
  · -- the escaped quote ends the item of the plain reading
    rw [if_neg (by omega), if_pos (by omega)]
    exact behindQuoted_eq_self
  · -- the escaped quote is doubled in the plain reading
    rw [if_pos odd, if_neg (by omega), eq_comm]
    exact behindQuoted_eq_self

/-- Both readings end an item at the same place exactly when its escapes are in step. -/
theorem behindQuoted_escapes_iff (plain : quote ≠ Byte.backslash) (body : Text) :
    behindQuoted quote true body = behindQuoted quote false body ↔ escapesInStep quote body := by
  fun_induction escapesInStep quote body with
  | case1 => simp [behindQuoted_nil]
  | case2 byte => simp [behindQuoted_last]
  | case3 rest =>
    rw [behindQuoted_escape, behindQuoted_pass (by simp [stopsQuoted, plain.symm]), escapedQuote_agrees plain]
    simp
  | case4 next rest other inductionHypothesis =>
    rw [behindQuoted_escape, behindQuoted_pass (by simp [stopsQuoted, plain.symm]),
      behindQuoted_pass (by simp [stopsQuoted, other])]
    exact inductionHypothesis
  | case5 rest _ inductionHypothesis =>
    rw [behindQuoted_quote plain, behindQuoted_quote plain, if_pos rfl, if_pos rfl]
    exact inductionHypothesis
  | case6 next rest single _ =>
    rw [behindQuoted_quote plain, behindQuoted_quote plain, if_neg single, if_neg single]
    simp
  | case7 byte next rest noEscape noQuote inductionHypothesis =>
    have passes (escapes : Bool) : behindQuoted quote escapes (byte :: next :: rest) =
        behindQuoted quote escapes (next :: rest) :=
      behindQuoted_pass (by simp [stopsQuoted, noEscape, noQuote]) _
    rw [passes, passes]
    exact inductionHypothesis

end readings

end SqlParser.Core
