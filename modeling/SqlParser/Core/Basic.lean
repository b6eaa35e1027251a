import Mathlib

/-! # Shared vocabulary: bytes, machine bounds, statuses and dialects -/

namespace SqlParser.Core

/-- A C string without its terminating NUL, or a counted byte range. -/
abbrev Text := List UInt8

/-- `SIZE_MAX` of the 64-bit targets. -/
def sizeMax : Nat := 2 ^ 64 - 1

/-- `INT32_MAX`, which is also `INT_MAX`. -/
def int32Max : Nat := 2 ^ 31 - 1

/-- `sqlparser_status_t` -/
inductive Status where
  | ok
  | invalidArgument
  | noMemory
  | parseError
  | internalError
  | unsupported
  | resourceLimit
  deriving DecidableEq, Repr

/-- The code and the message that `sqlparser_error_set_message` stores. -/
structure Error where
  code : Status
  message : String
  deriving DecidableEq, Repr

def outOfMemory : Error := ⟨.noMemory, "out of memory"⟩

theorem ok_of_map {α β : Type} {f : α → β} {value : Except Error α} {result : β}
    (mapped : value.map f = .ok result) : ∃ inner, value = .ok inner ∧ f inner = result := by
  cases value with
  | error error => cases mapped
  | ok inner =>
    cases mapped
    exact ⟨inner, rfl, rfl⟩

/-- `sqlparser_dialect_t` -/
inductive Dialect where
  | postgresql
  | mysql
  | oracle
  | sqlserver
  | dameng
  | vastbaseOracle
  | vastbaseMysql
  | vastbasePostgresql
  | vastbaseSqlserver
  | kingbaseOracle
  | kingbaseMysql
  | kingbasePostgresql
  | kingbaseSqlserver
  deriving DecidableEq, Repr

/-- The bytes of a string constant. -/
def ascii (constant : String) : Text :=
  constant.toUTF8.data.toList

end SqlParser.Core
