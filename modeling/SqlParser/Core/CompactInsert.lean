import SqlParser.Core.AstRebase

/-! # Edits of a compact INSERT

A handle can hold a scalar INSERT as the positions of its names and cells in the source alone.
`sqlparser_compact_insert_apply_edits` derives the next such object from the edits of its strings,
and `sqlparser_handle_commit_compact_insert` puts it in the place of the old one.
-/

namespace SqlParser.Core

/-- `PgQueryCompactScalarKind` -/
inductive CompactScalarKind where
  | integer
  | string
  | float
  | valueFunction
  deriving DecidableEq

/-- `PgQueryCompactScalarCell` -/
structure CompactScalarCell where
  textOffset : Nat
  textLength : Nat
  location : Int
  integer : Int
  kind : CompactScalarKind
  deriving DecidableEq

/-- `PgQueryCompactScalarName` -/
structure CompactScalarName where
  offset : Nat
  length : Nat
  deriving DecidableEq

/-- `PgQueryCompactScalarInsert`: catalog, schema, relation and columns, and the cells row by row. -/
structure CompactScalarInsert where
  sql : Text
  sqlLength : Nat
  rowCount : Nat
  columnCount : Nat
  stringCount : Nat
  textBytes : Nat
  rawLength : Nat
  names : List CompactScalarName
  cells : List CompactScalarCell
  deriving DecidableEq

def sizeofCompactScalarInsert : Nat := 72

def sizeofCompactScalarName : Nat := 8

def sizeofCompactScalarCell : Nat := 20

/-! ## The next object -/

/-- A cell behind the edits so far, unless its positions leave their type. -/
def compactShiftedCell (delta : Int) (before : CompactScalarCell) : Option CompactScalarCell :=
  let location := before.location + delta
  let offset := (before.textOffset : Int) + delta
  if before.location < 0 ∨ location < 0 ∨ location > int32Max ∨ offset < 0 ∨ offset > int32Max then none
  else some { before with location := location, textOffset := offset.toNat }

/-- The next edit must not stand in front of the cell, and replaces the cell's literal if it stands on it. -/
def compactEditedCell (delta : Int) (before after : CompactScalarCell) :
    List SourceEdit → Option (CompactScalarCell × List SourceEdit × Int)
  | [] => some (after, [], delta)
  | edit :: edits =>
    if edit.sourceStart < before.location.toNat then none
    else if edit.sourceStart = before.location.toNat then
      if before.kind ≠ .string ∨ before.textOffset ≠ before.location.toNat + 1 ∨
          edit.sourceEnd ≠ before.location.toNat + before.textLength + 2 ∨
          edit.replacementLength < 2 ∨ edit.replacementLength > int32Max then none
      else
        some ({ after with
                textLength := edit.replacementLength - 2
                textOffset := after.location.toNat + 1 },
          edits, delta + rebaseEditDelta edit)
    else some (after, edit :: edits, delta)

/-- The loop over the cells: the new cells, the edits that are left and the sum of the deltas. -/
def compactCells (length : Nat) :
    Int → List SourceEdit → List CompactScalarCell → Option (List CompactScalarCell × List SourceEdit × Int)
  | delta, edits, [] => some ([], edits, delta)
  | delta, edits, before :: cells =>
    match compactShiftedCell delta before with
    | none => none
    | some shifted =>
      match compactEditedCell delta before shifted edits with
      | none => none
      | some (after, edits, delta) =>
        if after.textOffset > length ∨ after.textLength > length - after.textOffset then none
        else (compactCells length delta edits cells).map fun done => (after :: done.1, done.2)

/-- `old->raw_length`, moved by the sum of the deltas if it is set. -/
def compactRawLength (old : CompactScalarInsert) (delta : Int) : Option Nat :=
  if old.rawLength ≠ 0 then
    let rawLength := (old.rawLength : Int) + delta
    if rawLength ≤ 0 ∨ rawLength > int32Max then none else some rawLength.toNat
  else some 0

/-- The next object, if no check refuses the edits. -/
def compactInsertNext (old : CompactScalarInsert) (sql : Text) (length : Nat) (edits : List SourceEdit) :
    Option CompactScalarInsert :=
  match edits with
  | [] => none
  | first :: _ =>
    -- Only strings of VALUES are edited, so that all names stand in front of the first edit.
    if old.names.any fun name => name.offset > first.sourceStart || name.length > first.sourceStart - name.offset then none
    else
      match compactCells length 0 edits old.cells with
      | none => none
      | some (cells, rest, delta) =>
        if rest ≠ [] ∨ (old.sqlLength : Int) + delta ≠ length ∨ (old.textBytes : Int) + delta < 0 ∨
            (old.textBytes : Int) + delta > int32Max then none
        else
          (compactRawLength old delta).map fun rawLength =>
            { old with
              sql := sql
              sqlLength := length
              textBytes := ((old.textBytes : Int) + delta).toNat
              rawLength := rawLength
              cells := cells }

/-- The bytes of the one allocation that holds the object, unless they overflow. -/
def compactInsertSize (old : CompactScalarInsert) : Option Nat :=
  if old.columnCount = 0 ∨ old.columnCount > sizeMax - 3 ∨ old.rowCount > sizeMax / old.columnCount then none
  else
    let names := old.columnCount + 3
    let count := old.rowCount * old.columnCount
    if names > (sizeMax - sizeofCompactScalarInsert) / sizeofCompactScalarName then none
    else
      let bytes := sizeofCompactScalarInsert + names * sizeofCompactScalarName
      if count > (sizeMax - bytes) / sizeofCompactScalarCell then none
      else some (bytes + count * sizeofCompactScalarCell)

/-- `sqlparser_compact_insert_apply_edits`, where `malloc` answers for the bytes it is asked for. -/
def compactInsertApplyEdits (malloc : Nat → Bool) (old : CompactScalarInsert) (sql : Text) (length : Nat)
    (edits : List SourceEdit) : Except Status CompactScalarInsert :=
  if edits = [] ∨ old.sqlLength > int32Max ∨ length > int32Max ∨ old.textBytes > int32Max then .error .unsupported
  else
    match compactInsertSize old with
    | none => .error .unsupported
    | some bytes =>
      if malloc bytes then
        match compactInsertNext old sql length edits with
        | none => .error .unsupported
        | some next => .ok next
      else .error .noMemory

/-! ## The commit -/

/-- `sqlparser_handle_representation_t` -/
inductive Representation where
  | empty
  | legacyWire
  | legacyAst
  | compactInsert
  | ownedAst
  deriving DecidableEq

/-- The fields of the handle that the commit reads, and those that it sets again once the contents are released. -/
structure CompactHandle where
  representation : Representation
  generation : Nat
  compactGeneration : Nat
  compactInsert : Option CompactScalarInsert
  sql : Text
  parserSql : Text
  statementCount : Nat
  surfaceSourceComplete : Bool
  deriving DecidableEq

/-- `handle->generation + 1UL` -/
def nextGeneration (generation : Nat) : Nat :=
  (generation + 1) % 2 ^ 64

/-- What the commit demands of the handle, together with the object it holds. -/
def CompactHandle.current (handle : CompactHandle) : Option CompactScalarInsert :=
  if handle.representation ≠ .compactInsert ∨ handle.compactGeneration ≠ handle.generation then none
  else handle.compactInsert.filter fun compact => compact.sql = handle.sql ∧ compact.sqlLength = handle.sql.length

/-- `sqlparser_handle_commit_compact_insert`: the status, the handle and the text that the caller still owns. -/
def commitCompactInsert (malloc : Nat → Bool) (handle : CompactHandle) (ownedSql : Text) (edits : List SourceEdit) :
    Status × CompactHandle × Option Text :=
  match handle.current with
  | none => (.unsupported, handle, some ownedSql)
  | some compact =>
    match compactInsertApplyEdits malloc compact ownedSql ownedSql.length edits with
    | .error status => (status, handle, some ownedSql)
    | .ok next =>
      (.ok,
        { representation := .compactInsert
          generation := nextGeneration handle.generation
          compactGeneration := nextGeneration handle.generation
          compactInsert := some next
          sql := ownedSql
          parserSql := ownedSql
          statementCount := 1
          surfaceSourceComplete := true },
        none)

end SqlParser.Core
