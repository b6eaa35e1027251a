import SqlParser.Sqlserver.Scanner

/-! # Lines that separate batches

A line that holds the word `GO`, a count and comments.  The test looks back to the
begin of the line and ahead to its end.
-/

namespace SqlParser.Sqlserver

open SqlParser.Core

def isLineBreak (byte : UInt8) : Bool :=
  byte = Byte.carriageReturn || byte = Byte.lineFeed

/-- The first loop of `sqlparser_sqlserver_line_is_go`, from the begin of the line to the word, behind which `size`
bytes of the text are left: there are only blanks and block comments. -/
def goPrefixed (size : Nat) (rest : Text) : Bool :=
  match rest with
  | [] => size = 0
  | byte :: tail =>
    if size < (byte :: tail).length then
      if isSpace byte then goPrefixed size tail
      else if _opens : byte = Byte.slash ∧ byteAt tail 0 = Byte.star then
        let scan := scanNonCodeSpan (byte :: tail)
        if scan.failure.isSome ∨ scan.behind.length < size then false else goPrefixed size scan.behind
      else false
    else size = (byte :: tail).length
termination_by rest.length
decreasing_by
  · exact Nat.lt_succ_self _
  · exact Nat.lt_succ_of_le (scanNonCodeSpan_suffix (by simp [opensNonCode, _opens])).length_le

/-- The second loop: the rest from the line end on, behind blanks, digits and comments of the line. -/
def behindGoLine (rest : Text) : Option Text :=
  match rest with
  | [] => some []
  | byte :: tail =>
    if isLineBreak byte then some (byte :: tail)
    else if isSpace byte || isDigit byte then behindGoLine tail
    else if byte = Byte.dash ∧ byteAt tail 0 = Byte.dash then some (tail.dropWhile (!isLineBreak ·))
    else if _opens : byte = Byte.slash ∧ byteAt tail 0 = Byte.star then
      let scan := scanNonCodeSpan (byte :: tail)
      let comment := (byte :: tail).take ((byte :: tail).length - scan.behind.length)
      if scan.failure.isSome ∨ comment.any isLineBreak then none else behindGoLine scan.behind
    else none
termination_by rest.length
decreasing_by
  · exact Nat.lt_succ_self _
  · exact Nat.lt_succ_of_le (scanNonCodeSpan_suffix (by simp [opensNonCode, _opens])).length_le

/-- `sqlparser_sqlserver_line_is_go`, with the offset behind the line. -/
def lineIsGo (text : Text) (pos : Nat) : Option Nat :=
  let lineStart := pos - ((text.take pos).reverse.takeWhile (!isLineBreak ·)).length
  if asciiWordEqual text pos "go" && goPrefixed (text.length - pos) (text.drop lineStart) then
    match behindGoLine (text.drop (pos + 2)) with
    | none => none
    | some rest => some (offsetOf text (rest.dropWhile isLineBreak))
  else none

theorem behindGoLine_suffix {rest behind : Text} (found : behindGoLine rest = some behind) : behind <:+ rest := by
  fun_induction behindGoLine rest with
  | case1 =>
    cases found
    exact List.suffix_rfl
  | case2 byte tail ends =>
    cases found
    exact List.suffix_rfl
  | case3 byte tail _ blank inductionHypothesis => exact (inductionHypothesis found).trans (List.suffix_cons _ _)
  | case4 byte tail _ _ line =>
    cases found
    exact (List.dropWhile_suffix _).trans (List.suffix_cons _ _)
  | case5 => cases found
  | case6 byte tail _ _ _ opens scan comment inLine inductionHypothesis =>
    have nonCode : opensNonCode (byte :: tail) := by simp [opensNonCode, opens]
    have behind := scanNonCodeSpan_suffix nonCode
    exact (inductionHypothesis found).trans (behind.trans (List.suffix_cons _ _))
  | case7 => cases found

theorem lineIsGo_forward {text : Text} {pos next : Nat} (inside : pos < text.length)
    (found : lineIsGo text pos = some next) : pos < next ∧ next ≤ text.length := by
  simp only [lineIsGo] at found
  split at found
  next =>
    split at found
    next => cases found
    next rest ends =>
      cases found
      have ahead : text.drop (pos + 2) <:+ text.drop (pos + 1) := by
        rw [← List.drop_drop (i := 1) (j := pos + 1)]
        exact List.drop_suffix _ _
      exact le_offsetOf ((List.dropWhile_suffix _).trans ((behindGoLine_suffix ends).trans ahead)) inside
  next => cases found

end SqlParser.Sqlserver
