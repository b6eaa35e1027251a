import SqlParser.Core.Bytes
import SqlParser.Library.LowerBound

/-! # National literal records

The records that `sqlparser_dialect_national_literal.c` keeps of the literals which a
preprocessor rewrites, by their position among the string literals of the text.
-/

namespace SqlParser.Core

open SqlParser.Library.LowerBound

/-- `sqlparser_dialect_national_literal_t`; an owner is the address of an AST node. -/
structure NationalLiteral where
  sql : Text
  surfaceSql : Option Text
  ordinal : Nat
  owner : Option Nat
  deriving DecidableEq, Repr

/-- `sqlparser_dialect_national_literals_t`; its count is the number of items. -/
structure NationalLiterals where
  items : List NationalLiteral := []
  literalCount : Nat := 0
  fragmentStart : Nat := 0
  fragmentLiteralBase : Nat := 0
  deriving DecidableEq, Repr

namespace NationalLiterals

/-- `sqlparser_dialect_national_literals_append` -/
def append (literals : NationalLiterals) (literalSql : Text) (ordinal : Nat) : NationalLiterals :=
  { literals with items := literals.items ++ [⟨literalSql, none, ordinal, none⟩] }

/-- `sqlparser_dialect_national_literals_append_surface` -/
def appendSurface (literals : NationalLiterals) (literalSql surfaceSql : Text) (ordinal : Nat) : NationalLiterals :=
  { literals with items := literals.items ++ [⟨literalSql, some surfaceSql, ordinal, none⟩] }

/-- `sqlparser_dialect_national_literals_find`: the record of an ordinal, which an unbound record only
answers for its own bytes. -/
def find (literals : NationalLiterals) (ordinal : Nat) (sql : Text) (start stop : Nat) : Option NationalLiteral :=
  if stop ≤ start then none
  else
    match lookup NationalLiteral.ordinal literals.items ordinal with
    | none => none
    | some literal =>
      if literal.owner = none ∧ literal.sql ≠ slice sql start stop then none else some literal

/-- `sqlparser_dialect_national_literals_match` -/
def matches' (literals : NationalLiterals) (ordinal : Nat) (sql : Text) (start stop : Nat) : Bool :=
  (literals.find ordinal sql start stop).isSome

/-- Among records in strict order of their ordinals, without owners, a match is a record with the bytes. -/
theorem matches_iff {literals : NationalLiterals}
    (sorted : literals.items.Pairwise fun left right => left.ordinal < right.ordinal)
    (unbound : ∀ literal ∈ literals.items, literal.owner = none) {ordinal start stop : Nat} {sql : Text} :
    literals.matches' ordinal sql start stop ↔
      start < stop ∧ ∃ literal ∈ literals.items, literal.ordinal = ordinal ∧ literal.sql = slice sql start stop := by
  rw [matches', find]
  split
  next empty => simp [Nat.not_lt.mpr empty]
  next inside =>
    split
    next missing =>
      have none_listed (literal : NationalLiteral) (listed : literal ∈ literals.items) : literal.ordinal ≠ ordinal := by
        intro same
        have found := (lookup_eq_some_iff sorted).mpr ⟨listed, same⟩
        rw [missing] at found
        cases found
      simp only [Option.isSome_none, Bool.false_eq_true, false_iff, not_and, not_exists]
      exact fun _ literal listed same _ => none_listed literal listed same
    next literal found =>
      obtain ⟨listed, same⟩ := lookup_mem found
      have free := unbound literal listed
      by_cases bytes : literal.sql = slice sql start stop
      · simp only [bytes, ne_eq, not_true, and_false, if_false, Option.isSome_some, true_iff]
        exact ⟨Nat.lt_of_not_le inside, literal, listed, same, bytes⟩
      · simp only [free, bytes, ne_eq, not_false_iff, and_self, if_true, Option.isSome_none, Bool.false_eq_true,
          false_iff, not_and, not_exists]
        intro _ other otherListed otherSame otherBytes
        have otherFound := (lookup_eq_some_iff sorted).mpr ⟨otherListed, otherSame⟩
        rw [found] at otherFound
        cases otherFound
        exact bytes otherBytes

end NationalLiterals

end SqlParser.Core
