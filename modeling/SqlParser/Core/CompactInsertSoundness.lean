import SqlParser.Core.CompactInsert
import SqlParser.Core.InsertEdits
import SqlParser.Library.MarkedText

/-! # A compact INSERT describes its source

A scalar INSERT is a text of names and cells with what stands between them.  A compact object
describes such a text when it holds the positions at which the text is laid out.  Edits of the
strings lead from the object of one text to the object of the spliced text.
-/

namespace SqlParser.Core

open SqlParser.Library.Splice SqlParser.Library.MarkedText

/-! ## The described text -/

/-- A text that ends at the first quote behind it. -/
abbrev StringContent : Type :=
  {content : Text // (39 : UInt8) ∉ content}

inductive CellLiteral where
  | integer (digits : Text) (value : Int)
  | string (content : StringContent)
  | float (digits : Text)
  | valueFunction (word : Text)

namespace CellLiteral

def kind : CellLiteral → CompactScalarKind
  | .integer _ _ => .integer
  | .string _ => .string
  | .float _ => .float
  | .valueFunction _ => .valueFunction

/-- The bytes that a cell denotes. -/
def text : CellLiteral → Text
  | .integer digits _ => digits
  | .string content => content.1
  | .float digits => digits
  | .valueFunction word => word

def value : CellLiteral → Int
  | .integer _ value => value
  | _ => 0

/-- The bytes in front of the text: the quote of a string. -/
def opening : CellLiteral → Text
  | .string _ => [39]
  | _ => []

def spelling (literal : CellLiteral) : Text :=
  literal.opening ++ literal.text ++ literal.opening

/-- What a reader of the graph stores: all texts but those of integers, each with a NUL. -/
def bytes : CellLiteral → Nat
  | .integer _ _ => 0
  | literal => literal.text.length + 1

end CellLiteral

/-- A cell with the punctuation and the blanks in front of it. -/
structure CellPart where
  before : Text
  literal : CellLiteral
  gap : before ≠ []

/-- A name with what stands in front of it. -/
structure NamePart where
  before : Text
  name : Text
  gap : before ≠ []
  named : name ≠ []

def CellPart.piece (part : CellPart) : Piece UInt8 :=
  ⟨part.before, part.literal.spelling⟩

def NamePart.piece (part : NamePart) : Piece UInt8 :=
  ⟨part.before, part.name⟩

structure InsertDocument where
  catalog : Option NamePart
  schema : Option NamePart
  relation : NamePart
  columns : List NamePart
  rows : Nat
  cells : List CellPart
  /-- What stands behind the last cell, up to the semicolon if there is one. -/
  closing : Text
  /-- What stands behind the semicolon. -/
  behind : Option Text
  hasColumns : columns ≠ []
  shape : cells.length = rows * columns.length

namespace InsertDocument

def names (document : InsertDocument) : List (Option NamePart) :=
  document.catalog :: document.schema :: some document.relation :: document.columns.map some

def header (document : InsertDocument) : Text :=
  spell (document.names.reduceOption.map NamePart.piece)

def body (document : InsertDocument) : Text :=
  spell (document.cells.map CellPart.piece)

def ending (document : InsertDocument) : Text :=
  document.closing ++ (document.behind.elim [] fun behind => 59 :: behind)

def text (document : InsertDocument) : Text :=
  document.header ++ document.body ++ document.ending

end InsertDocument

/-! ## The object that describes it -/

def layoutNames : Nat → List (Option NamePart) → List CompactScalarName
  | _, [] => []
  | cursor, none :: names => ⟨0, 0⟩ :: layoutNames cursor names
  | cursor, some part :: names =>
    ⟨cursor + part.before.length, part.name.length⟩ :: layoutNames (cursor + part.piece.spell.length) names

/-- The cell of a part that starts at a position. -/
def CellPart.cell (part : CellPart) (cursor : Nat) : CompactScalarCell where
  textOffset := cursor + part.before.length + part.literal.opening.length
  textLength := part.literal.text.length
  location := (cursor + part.before.length : Nat)
  integer := part.literal.value
  kind := part.literal.kind

def layoutCells : Nat → List CellPart → List CompactScalarCell
  | _, [] => []
  | cursor, part :: parts => part.cell cursor :: layoutCells (cursor + part.piece.spell.length) parts

namespace InsertDocument

def textBytes (document : InsertDocument) : Nat :=
  (document.names.reduceOption.map fun part => part.name.length + 1).sum +
    (document.cells.map fun part => part.literal.bytes).sum

def rawLength (document : InsertDocument) : Nat :=
  document.behind.elim 0 fun _ => (document.header ++ document.body ++ document.closing).length

def compact (document : InsertDocument) : CompactScalarInsert where
  sql := document.text
  sqlLength := document.text.length
  rowCount := document.rows
  columnCount := document.columns.length
  stringCount := document.cells.countP fun part => part.literal.kind = .string
  textBytes := document.textBytes
  rawLength := document.rawLength
  names := layoutNames 0 document.names
  cells := layoutCells document.header.length document.cells

end InsertDocument

/-- The object holds the layout of the text, whose positions fit their type. -/
structure Describes (compact : CompactScalarInsert) (document : InsertDocument) : Prop where
  layout : compact = document.compact
  short : document.text.length ≤ int32Max

/-! ## Edits of the strings -/

/-- The replacement is one quoted string. -/
def QuotedBy (edit : SourceEdit) (content : StringContent) : Prop :=
  edit.replacement = some (CellLiteral.string content).spelling

/-- The edits that the patches certify before they are applied. -/
structure CompactEdits (edits : List SourceEdit) : Prop where
  nonempty : edits ≠ []
  ordered : Ordered 0 (edits.map SourceEdit.spliceEdit)
  quoted : ∀ edit ∈ edits, ∃ content, QuotedBy edit content

/-- The interval of the edit is the literal of the cell, its quotes included. -/
structure CompactScalarCell.IsLiteral (cell : CompactScalarCell) (edit : SourceEdit) : Prop where
  string : cell.kind = .string
  start : (edit.sourceStart : Int) = cell.location
  stop : (edit.sourceEnd : Int) = cell.location + cell.textLength + 2

/-- The edits in text order give some of the strings another content. -/
inductive CellsRevised : Nat → List CellPart → List SourceEdit → List CellPart → Prop
  | nil {cursor : Nat} : CellsRevised cursor [] [] []
  | keep {cursor : Nat} {part : CellPart} {parts revised : List CellPart} {edits : List SourceEdit}
      (rest : CellsRevised (cursor + part.piece.spell.length) parts edits revised) :
      CellsRevised cursor (part :: parts) edits (part :: revised)
  | revise {cursor : Nat} {before : Text} {content replaced : StringContent} {gap : before ≠ []}
      {parts revised : List CellPart} {edit : SourceEdit} {edits : List SourceEdit}
      (literal : (CellPart.cell ⟨before, .string content, gap⟩ cursor).IsLiteral edit)
      (quoted : QuotedBy edit replaced)
      (rest : CellsRevised (cursor + (CellPart.piece ⟨before, .string content, gap⟩).spell.length) parts edits revised) :
      CellsRevised cursor (⟨before, .string content, gap⟩ :: parts) (edit :: edits)
        (⟨before, .string replaced, gap⟩ :: revised)

/-- All but the contents of the strings is the same in both texts. -/
structure InsertDocument.Revised (document : InsertDocument) (edits : List SourceEdit) (revised : InsertDocument) :
    Prop where
  catalog : revised.catalog = document.catalog
  schema : revised.schema = document.schema
  relation : revised.relation = document.relation
  columns : revised.columns = document.columns
  rows : revised.rows = document.rows
  closing : revised.closing = document.closing
  behind : revised.behind = document.behind
  cells : CellsRevised document.header.length document.cells edits revised.cells

/-! ## The lengths of the parts -/

theorem CellLiteral.spelling_length (literal : CellLiteral) :
    literal.spelling.length = literal.text.length + 2 * literal.opening.length := by
  simp only [CellLiteral.spelling, List.length_append]
  omega

theorem CellLiteral.string_spelling_length (content : StringContent) :
    (CellLiteral.string content).spelling.length = content.1.length + 2 := by
  rw [CellLiteral.spelling_length]
  rfl

theorem CellLiteral.string_bytes (content : StringContent) : (CellLiteral.string content).bytes = content.1.length + 1 := rfl

theorem CellPart.spell_length (part : CellPart) :
    part.piece.spell.length = part.before.length + part.literal.spelling.length :=
  List.length_append

theorem CellPart.gap_length (part : CellPart) : 0 < part.before.length :=
  List.length_pos_of_ne_nil part.gap

/-- A text and its NUL fit in the part, as one byte of it at least stands in front of the text. -/
theorem CellPart.bytes_le (part : CellPart) : part.literal.bytes ≤ part.piece.spell.length := by
  have gap := part.gap_length
  rw [part.spell_length, part.literal.spelling_length]
  cases part.literal <;> simp only [CellLiteral.bytes, CellLiteral.text] <;> omega

theorem NamePart.bytes_le (part : NamePart) : part.name.length + 1 ≤ part.piece.spell.length := by
  have gap := List.length_pos_of_ne_nil part.gap
  simp only [NamePart.piece, Piece.spell, List.length_append]
  omega

theorem sum_le_spell {β : Type} (parts : List β) (piece : β → Piece UInt8) (bytes : β → Nat)
    (each : ∀ part, bytes part ≤ (piece part).spell.length) :
    (parts.map bytes).sum ≤ (spell (parts.map piece)).length := by
  induction parts with
  | nil => exact Nat.zero_le _
  | cons part parts inductionHypothesis =>
    have := each part
    simp only [List.map_cons, List.sum_cons, spell_cons, List.length_append]
    omega

/-! ## The edits of a row of parts -/

section CellsRevised

variable {cursor : Nat} {parts revised : List CellPart} {edits : List SourceEdit}

/-- The edit of a literal as an edit of the piece. -/
theorem IsLiteral.spliceEdit_eq {before : Text} {content replaced : StringContent} {gap : before ≠ []} {edit : SourceEdit}
    (literal : (CellPart.cell ⟨before, .string content, gap⟩ cursor).IsLiteral edit) (quoted : QuotedBy edit replaced) :
    edit.spliceEdit = ⟨cursor + before.length, cursor + (before ++ (CellLiteral.string content).spelling).length,
      (CellLiteral.string replaced).spelling⟩ := by
  have start := literal.start
  have stop := literal.stop
  simp only [CellPart.cell, CellLiteral.text] at start stop
  rw [SourceEdit.spliceEdit, quoted, List.length_append, CellLiteral.string_spelling_length]
  congr 1 <;> omega

theorem CellsRevised.revises (cells : CellsRevised cursor parts edits revised) :
    Revises cursor (parts.map CellPart.piece) (edits.map SourceEdit.spliceEdit) (revised.map CellPart.piece) := by
  induction cells with
  | nil => exact .nil
  | keep rest inductionHypothesis => exact .keep inductionHypothesis
  | revise literal quoted rest inductionHypothesis =>
    rw [List.map_cons, List.map_cons, List.map_cons, IsLiteral.spliceEdit_eq literal quoted]
    exact .revise (by simp [CellLiteral.spelling, CellLiteral.opening]) inductionHypothesis

theorem CellsRevised.stringCount_eq (cells : CellsRevised cursor parts edits revised) :
    (revised.countP fun part => part.literal.kind = .string) = parts.countP fun part => part.literal.kind = .string := by
  induction cells with
  | nil => rfl
  | keep rest inductionHypothesis => rw [List.countP_cons, List.countP_cons, inductionHypothesis]
  | revise literal quoted rest inductionHypothesis =>
    rw [List.countP_cons, List.countP_cons, inductionHypothesis]
    rfl

theorem CellsRevised.length (cells : CellsRevised cursor parts edits revised) : revised.length = parts.length := by
  simpa using cells.revises.length

/-- Edits stand behind the gap of the first part. -/
theorem CellsRevised.start_gt (cells : CellsRevised cursor parts edits revised) {edit : SourceEdit} (member : edit ∈ edits) :
    cursor < edit.sourceStart := by
  induction cells with
  | nil => cases member
  | keep rest inductionHypothesis =>
    have := inductionHypothesis member
    omega
  | @revise cursor before content replaced gap _ _ _ _ literal quoted rest inductionHypothesis =>
    cases member with
    | head =>
      have start := literal.start
      have positive := List.length_pos_of_ne_nil gap
      simp only [CellPart.cell] at start
      omega
    | tail _ member =>
      have := inductionHypothesis member
      omega

/-- The texts that a reader stores grow with the text. -/
theorem CellsRevised.bytes_eq (cells : CellsRevised cursor parts edits revised) :
    (revised.map fun part => part.literal.bytes).sum + (spell (parts.map CellPart.piece)).length =
      (parts.map fun part => part.literal.bytes).sum + (spell (revised.map CellPart.piece)).length := by
  induction cells with
  | nil => rfl
  | keep rest inductionHypothesis =>
    simp only [List.map_cons, List.sum_cons, spell_cons, List.length_append]
    omega
  | revise literal quoted rest inductionHypothesis =>
    simp only [List.map_cons, List.sum_cons, spell_cons, List.length_append, CellPart.spell_length,
      CellLiteral.string_spelling_length, CellLiteral.string_bytes]
    omega

end CellsRevised

/-! ## The loop over the cells -/

section Loop

variable {length cursor target : Nat} {parts revised : List CellPart} {edits : List SourceEdit}

/-- A cell of a text that is laid out at another position. -/
theorem compactShiftedCell_eq (part : CellPart) (cursor : Nat)
    (bound : target + part.before.length + part.literal.opening.length ≤ int32Max) :
    compactShiftedCell ((target : Int) - cursor) (part.cell cursor) = some (part.cell target) := by
  rw [compactShiftedCell, if_neg (by simp only [CellPart.cell]; omega)]
  simp only [CellPart.cell]
  congr 2 <;> omega

theorem compactEditedCell_keep (part : CellPart) {delta : Int} {after : CompactScalarCell}
    (behind : ∀ edit ∈ edits, cursor + part.piece.spell.length < edit.sourceStart) :
    compactEditedCell delta (part.cell cursor) after edits = some (after, edits, delta) := by
  cases edits with
  | nil => rfl
  | cons edit edits =>
    have later := behind edit List.mem_cons_self
    have spelled := part.spell_length
    rw [compactEditedCell, if_neg (by simp only [CellPart.cell]; omega), if_neg (by simp only [CellPart.cell]; omega)]

theorem compactEditedCell_revise {before : Text} {content replaced : StringContent} {gap : before ≠ []} {edit : SourceEdit}
    (literal : (CellPart.cell ⟨before, .string content, gap⟩ cursor).IsLiteral edit) (quoted : QuotedBy edit replaced)
    (short : replaced.1.length + 2 ≤ int32Max) (delta : Int) :
    compactEditedCell delta (CellPart.cell ⟨before, .string content, gap⟩ cursor)
        (CellPart.cell ⟨before, .string content, gap⟩ target) (edit :: edits) =
      some (CellPart.cell ⟨before, .string replaced, gap⟩ target, edits,
        delta + replaced.1.length - content.1.length) := by
  have start := literal.start
  have stop := literal.stop
  have size : edit.replacementLength = replaced.1.length + 2 := by
    rw [SourceEdit.replacementLength, quoted, Option.getD_some, CellLiteral.string_spelling_length]
  simp only [CellPart.cell, CellLiteral.text] at start stop
  rw [compactEditedCell, rebaseEditDelta, size, if_neg (by simp only [CellPart.cell]; omega),
    if_pos (by simp only [CellPart.cell]; omega),
    if_neg (by
      simp only [CellPart.cell, CellLiteral.kind, CellLiteral.opening, CellLiteral.text, List.length_singleton, ne_eq,
        not_true_eq_false, false_or]
      omega)]
  simp only [CellPart.cell, CellLiteral.text, CellLiteral.opening, List.length_singleton, Int.toNat_natCast,
    Nat.add_sub_cancel]
  congr 3
  omega

/-- Strings that are edited in order pass the loop, as long as the new text is not too long. -/
theorem compactCells_revised (cells : CellsRevised cursor parts edits revised)
    (bound : target + (spell (revised.map CellPart.piece)).length ≤ length) (short : length ≤ int32Max) :
    compactCells length ((target : Int) - cursor) edits (layoutCells cursor parts) =
      some (layoutCells target revised, [], (target + (spell (revised.map CellPart.piece)).length : Int) -
        (cursor + (spell (parts.map CellPart.piece)).length)) := by
  induction cells generalizing target with
  | nil => simp [compactCells, layoutCells]
  | @keep cursor part parts revised edits rest inductionHypothesis =>
    simp only [List.map_cons, spell_cons, List.length_append] at bound
    have next := @inductionHypothesis (target + part.piece.spell.length) (by omega)
    have spelled := part.spell_length
    have literal := part.literal.spelling_length
    rw [layoutCells, compactCells, compactShiftedCell_eq part cursor (by omega)]
    simp only [compactEditedCell_keep part (fun edit member => rest.start_gt member)]
    rw [if_neg (by simp only [CellPart.cell]; omega),
      show (target : Int) - cursor =
        (target + part.piece.spell.length : Nat) - (cursor + part.piece.spell.length : Nat) by omega, next]
    simp only [Option.map_some, layoutCells, List.map_cons, spell_cons, List.length_append]
    congr 3
    push_cast
    omega
  | @revise cursor before content replaced gap parts revised edit edits literal quoted rest inductionHypothesis =>
    simp only [List.map_cons, spell_cons, List.length_append] at bound
    have oldLength := (CellPart.mk before (.string content) gap).spell_length
    have newLength := (CellPart.mk before (.string replaced) gap).spell_length
    simp only [CellLiteral.string_spelling_length] at oldLength newLength
    have next := @inductionHypothesis (target + (CellPart.piece ⟨before, .string replaced, gap⟩).spell.length) (by omega)
    -- The old literal need not fit at the new position, but its two quotes do.
    rw [layoutCells, compactCells, compactShiftedCell_eq _ cursor
      (by simp only [CellLiteral.opening, List.length_singleton]; omega)]
    simp only [compactEditedCell_revise literal quoted (by omega)]
    rw [if_neg (by simp only [CellPart.cell, CellLiteral.text, CellLiteral.opening, List.length_singleton]; omega),
      show (target : Int) - cursor + replaced.1.length - content.1.length =
        (target + (CellPart.piece ⟨before, .string replaced, gap⟩).spell.length : Nat) -
          (cursor + (CellPart.piece ⟨before, .string content, gap⟩).spell.length : Nat) by omega, next]
    simp only [Option.map_some, layoutCells, List.map_cons, spell_cons, List.length_append]
    congr 3
    push_cast
    omega

/-- An edit that is consumed at a cell replaces the literal of the cell. -/
theorem compactEditedCell_cases {delta delta' : Int} {before after after' : CompactScalarCell} {rest : List SourceEdit}
    (placed : 0 ≤ before.location) (merged : compactEditedCell delta before after edits = some (after', rest, delta')) :
    rest = edits ∨ ∃ edit, edits = edit :: rest ∧ before.IsLiteral edit := by
  cases edits with
  | nil =>
    cases merged
    exact .inl rfl
  | cons edit edits =>
    rw [compactEditedCell] at merged
    split_ifs at merged with early here refused
    · cases merged
      simp only [not_or, not_not] at refused
      exact .inr ⟨edit, rfl, refused.1, by omega, by omega⟩
    · cases merged
      exact .inl rfl

/-- A loop that uses up all edits has read each of them as a string. -/
theorem revised_of_compactCells {delta final : Int} {cells : List CompactScalarCell}
    (quoted : ∀ edit ∈ edits, ∃ content, QuotedBy edit content)
    (accepted : compactCells length delta edits (layoutCells cursor parts) = some (cells, [], final)) :
    ∃ revised, CellsRevised cursor parts edits revised := by
  induction parts generalizing cursor delta edits cells with
  | nil =>
    cases accepted
    exact ⟨[], .nil⟩
  | cons part parts inductionHypothesis =>
    rw [layoutCells, compactCells] at accepted
    split at accepted
    next => cases accepted
    next shifted _ =>
      split at accepted
      next => cases accepted
      next after rest delta' merged =>
        split_ifs at accepted
        obtain ⟨done, loop, same⟩ := Option.map_eq_some_iff.mp accepted
        obtain ⟨cells', rest', final'⟩ := done
        cases same
        cases compactEditedCell_cases (by simp only [CellPart.cell]; omega) merged with
        | inl kept =>
          subst kept
          obtain ⟨revised, cells⟩ := inductionHypothesis quoted loop
          exact ⟨part :: revised, .keep cells⟩
        | inr consumed =>
          obtain ⟨edit, rfl, literal⟩ := consumed
          obtain ⟨revised, cells⟩ := inductionHypothesis (fun edit member => quoted edit (List.mem_cons_of_mem _ member)) loop
          obtain ⟨replaced, quotedBy⟩ := quoted edit List.mem_cons_self
          obtain ⟨before, partLiteral, gap⟩ := part
          cases partLiteral with
          | string content => exact ⟨⟨before, .string replaced, gap⟩ :: revised, .revise literal quotedBy cells⟩
          | integer digits value => cases literal.string
          | float digits => cases literal.string
          | valueFunction word => cases literal.string

theorem layoutCells_location {cell : CompactScalarCell} (member : cell ∈ layoutCells cursor parts) :
    (cursor : Int) < cell.location := by
  induction parts generalizing cursor with
  | nil => cases member
  | cons part parts inductionHypothesis =>
    cases member with
    | head =>
      have positive := part.gap_length
      simp only [CellPart.cell]
      omega
    | tail _ member =>
      have := inductionHypothesis member
      omega

/-- Ordered edits of literals of the cells give some of the strings another content. -/
theorem revised_of_literals {lower : Nat} (ordered : Ordered lower (edits.map SourceEdit.spliceEdit))
    (quoted : ∀ edit ∈ edits, ∃ content, QuotedBy edit content)
    (literals : ∀ edit ∈ edits, ∃ cell ∈ layoutCells cursor parts, cell.IsLiteral edit) :
    ∃ revised, CellsRevised cursor parts edits revised := by
  induction parts generalizing cursor lower edits with
  | nil =>
    cases edits with
    | nil => exact ⟨[], .nil⟩
    | cons edit edits =>
      obtain ⟨cell, member, _⟩ := literals edit List.mem_cons_self
      cases member
  | cons part parts inductionHypothesis =>
    by_cases here : ∃ edit rest, edits = edit :: rest ∧ (part.cell cursor).IsLiteral edit
    · obtain ⟨edit, rest, rfl, literal⟩ := here
      obtain ⟨replaced, quotedBy⟩ := quoted edit List.mem_cons_self
      have later : ∀ other ∈ rest, ∃ cell ∈ layoutCells (cursor + part.piece.spell.length) parts, cell.IsLiteral other := by
        intro other member
        obtain ⟨cell, cellMember, otherLiteral⟩ := literals other (List.mem_cons_of_mem _ member)
        cases cellMember with
        | head =>
          have order := ordered.2.2.le_start (List.mem_map_of_mem member)
          have := literal.start
          have := literal.stop
          have := otherLiteral.start
          simp only [spliceEdit_start, spliceEdit_stop] at order
          omega
        | tail _ cellMember => exact ⟨cell, cellMember, otherLiteral⟩
      obtain ⟨revised, cells⟩ := inductionHypothesis ordered.2.2
        (fun other member => quoted other (List.mem_cons_of_mem _ member)) later
      obtain ⟨before, partLiteral, gap⟩ := part
      cases partLiteral with
      | string content => exact ⟨⟨before, .string replaced, gap⟩ :: revised, .revise literal quotedBy cells⟩
      | integer digits value => cases literal.string
      | float digits => cases literal.string
      | valueFunction word => cases literal.string
    · have later : ∀ other ∈ edits, ∃ cell ∈ layoutCells (cursor + part.piece.spell.length) parts, cell.IsLiteral other := by
        cases edits with
        | nil => simp
        | cons edit edits =>
          -- No later edit stands on this cell, as the first one stands behind it already.
          have behind : ((part.cell cursor).location : Int) < edit.sourceStart := by
            obtain ⟨cell, cellMember, literal⟩ := literals edit List.mem_cons_self
            cases cellMember with
            | head => exact absurd ⟨edit, edits, rfl, literal⟩ here
            | tail _ cellMember =>
              have := layoutCells_location cellMember
              have := literal.start
              have := part.spell_length
              simp only [CellPart.cell]
              omega
          intro other member
          obtain ⟨cell, cellMember, literal⟩ := literals other member
          cases cellMember with
          | head =>
            have := literal.start
            cases member with
            | head => omega
            | tail _ member =>
              have order := ordered.2.2.le_start (List.mem_map_of_mem member)
              have proper := ordered.2.1
              simp only [spliceEdit_start, spliceEdit_stop] at order proper
              omega
          | tail _ cellMember => exact ⟨cell, cellMember, literal⟩
      obtain ⟨revised, cells⟩ := inductionHypothesis ordered quoted later
      exact ⟨part :: revised, .keep cells⟩

end Loop

/-! ## The bounds of a document -/

theorem layoutNames_within (cursor : Nat) {names : List (Option NamePart)} {name : CompactScalarName}
    (member : name ∈ layoutNames cursor names) :
    name.offset + name.length ≤ cursor + (spell (names.reduceOption.map NamePart.piece)).length := by
  induction names generalizing cursor with
  | nil => cases member
  | cons part names inductionHypothesis =>
    cases part with
    | none =>
      cases member with
      | head => exact Nat.zero_le _
      | tail _ member => exact inductionHypothesis cursor member
    | some part =>
      simp only [List.reduceOption_cons_of_some, List.map_cons, spell_cons, List.length_append]
      cases member with
      | head =>
        have : part.piece.spell.length = part.before.length + part.name.length := List.length_append
        dsimp only
        omega
      | tail _ member =>
        have := inductionHypothesis _ member
        omega

namespace InsertDocument

variable {document revised : InsertDocument} {edits : List SourceEdit}

theorem text_length (document : InsertDocument) :
    document.text.length = document.header.length + document.body.length + document.ending.length := by
  simp only [text, List.length_append]

theorem ending_length (document : InsertDocument) : document.closing.length ≤ document.ending.length := by
  simp only [ending, List.length_append]
  omega

theorem nameBytes_le (document : InsertDocument) :
    (document.names.reduceOption.map fun part => part.name.length + 1).sum ≤ document.header.length :=
  sum_le_spell _ _ _ NamePart.bytes_le

theorem textBytes_le (document : InsertDocument) : document.textBytes ≤ document.text.length := by
  have names := document.nameBytes_le
  have cells : (document.cells.map fun part => part.literal.bytes).sum ≤ document.body.length :=
    sum_le_spell _ _ _ CellPart.bytes_le
  rw [text_length, textBytes]
  omega

theorem header_length (document : InsertDocument) : document.columns.length + 1 ≤ document.header.length := by
  have counted : (document.names.reduceOption.map fun _ => 1).sum ≤ document.header.length :=
    sum_le_spell _ _ _ fun part => (Nat.le_add_left _ _).trans part.bytes_le
  have columns : (document.columns.map some).reduceOption = document.columns := by
    rw [List.reduceOption, List.filterMap_map, Function.id_comp, List.filterMap_some]
  have atLeast : document.columns.length + 1 ≤ document.names.reduceOption.length := by
    rw [names]
    cases document.catalog <;> cases document.schema <;>
      simp only [List.reduceOption_cons_of_none, List.reduceOption_cons_of_some, List.length_cons, columns] <;> omega
  rw [List.map_const', List.sum_replicate, smul_eq_mul, mul_one] at counted
  omega

theorem cells_length (document : InsertDocument) : document.cells.length ≤ document.body.length := by
  have counted : (document.cells.map fun _ => 1).sum ≤ document.body.length := by
    apply sum_le_spell
    intro part
    have := part.gap_length
    have := part.spell_length
    omega
  rw [List.map_const', List.sum_replicate, smul_eq_mul, mul_one] at counted
  exact counted

/-- The object of a short text fits in memory. -/
theorem compactInsertSize_isSome (document : InsertDocument) (short : document.text.length ≤ int32Max) :
    (compactInsertSize document.compact).isSome := by
  have columns := document.header_length
  have cells := document.cells_length
  have lengths := document.text_length
  have positive := List.length_pos_of_ne_nil document.hasColumns
  have shape := document.shape
  have rows : document.rows ≤ sizeMax / document.columns.length := by
    rw [Nat.le_div_iff_mul_le positive, ← shape]
    simp only [sizeMax, int32Max] at short ⊢
    omega
  simp only [compactInsertSize]
  rw [if_neg (by simp only [compact, sizeMax, int32Max] at rows short ⊢; omega), if_neg, if_neg]
  · rfl
  · rw [not_lt, Nat.le_div_iff_mul_le (by simp [sizeofCompactScalarCell])]
    simp only [compact, ← shape, sizeMax, int32Max, sizeofCompactScalarInsert, sizeofCompactScalarName,
      sizeofCompactScalarCell] at short ⊢
    omega
  · rw [not_lt, Nat.le_div_iff_mul_le (by simp [sizeofCompactScalarName])]
    simp only [compact, sizeMax, int32Max, sizeofCompactScalarInsert, sizeofCompactScalarName] at short ⊢
    omega

/-! ## The revised document -/

theorem exists_revised {cells : List CellPart} (revises : CellsRevised document.header.length document.cells edits cells) :
    ∃ revised, document.Revised edits revised ∧ revised.cells = cells :=
  ⟨{ document with cells := cells, shape := by rw [revises.length, document.shape] },
    ⟨rfl, rfl, rfl, rfl, rfl, rfl, rfl, revises⟩,
    rfl⟩

theorem Revised.names_eq (revision : document.Revised edits revised) : revised.names = document.names := by
  rw [names, names, revision.catalog, revision.schema, revision.relation, revision.columns]

theorem Revised.header_eq (revision : document.Revised edits revised) : revised.header = document.header := by
  rw [header, header, revision.names_eq]

theorem Revised.ending_eq (revision : document.Revised edits revised) : revised.ending = document.ending := by
  rw [ending, ending, revision.closing, revision.behind]

/-- The new text is the spliced text. -/
theorem Revised.text_eq (revision : document.Revised edits revised) :
    revised.text = splice document.text 0 (edits.map SourceEdit.spliceEdit) := by
  have revises := revision.cells.revises
  have behind : document.text.drop document.header.length = spell (document.cells.map CellPart.piece) ++ document.ending := by
    rw [text, List.append_assoc, List.drop_left' rfl]
    rfl
  have front : document.text.take document.header.length = document.header := by
    rw [text, List.append_assoc, List.take_left' rfl]
  rw [splice_copied document.text _ (Nat.zero_le _) (fun edit member => revises.start_ge member), front, List.drop_zero,
    revises.splice_eq behind, text, revision.header_eq, revision.ending_eq, body, List.append_assoc]

theorem Revised.textBytes_eq (revision : document.Revised edits revised) :
    revised.textBytes + document.body.length = document.textBytes + revised.body.length := by
  have := revision.cells.bytes_eq
  rw [textBytes, textBytes, revision.names_eq, body, body]
  omega

theorem Revised.rawLength_eq (revision : document.Revised edits revised) (fits : revised.text.length ≤ int32Max) :
    compactRawLength document.compact ((revised.body.length : Int) - document.body.length) = some revised.rawLength := by
  have header := congrArg List.length revision.header_eq
  have positive := document.header_length
  have lengths := revised.text_length
  have closing := revised.ending_length
  have same := congrArg List.length revision.closing
  cases ended : document.behind with
  | none => simp [compactRawLength, compact, rawLength, ended, revision.behind]
  | some behind =>
    simp only [compactRawLength, compact, rawLength, ended, revision.behind, Option.elim_some, List.length_append]
    rw [if_pos (by omega), if_neg (by omega)]
    congr 1
    omega

theorem Revised.compactInsertNext_eq (revision : document.Revised edits revised) (nonempty : edits ≠ [])
    (fits : revised.text.length ≤ int32Max) :
    compactInsertNext document.compact revised.text revised.text.length edits = some revised.compact := by
  have header := congrArg List.length revision.header_eq
  have ending := congrArg List.length revision.ending_eq
  have lengths := document.text_length
  have newLengths := revised.text_length
  have bytes := revision.textBytes_eq
  have newBytes := revised.textBytes_le
  have loop := @compactCells_revised revised.text.length document.header.length document.header.length document.cells
    revised.cells edits revision.cells (by
      change document.header.length + revised.body.length ≤ revised.text.length
      omega) fits
  have raw := revision.rawLength_eq fits
  rw [sub_self] at loop
  cases edits with
  | nil => exact absurd rfl nonempty
  | cons first rest =>
    have names : (document.compact.names.any fun name =>
        name.offset > first.sourceStart || name.length > first.sourceStart - name.offset) = false := by
      rw [List.any_eq_false]
      intro name member
      have within := layoutNames_within 0 member
      have behind := revision.cells.start_gt List.mem_cons_self
      change name.offset + name.length ≤ 0 + document.header.length at within
      simp only [gt_iff_lt, Bool.or_eq_true, decide_eq_true_eq]
      omega
    have total : ((document.header.length : Int) + (spell (revised.cells.map CellPart.piece)).length) -
        (document.header.length + (spell (document.cells.map CellPart.piece)).length) =
          (revised.body.length : Int) - document.body.length := by
      rw [body, body]
      omega
    rw [total] at loop
    rw [compactInsertNext, names, if_neg Bool.false_ne_true]
    simp only [show document.compact.cells = layoutCells document.header.length document.cells from rfl, loop]
    rw [if_neg (by simp only [compact, ne_eq, not_true_eq_false, false_or]; omega), raw, Option.map_some]
    simp only [compact, revision.rows, revision.columns, revision.names_eq, revision.header_eq, Option.some.injEq,
      CompactScalarInsert.mk.injEq, true_and, and_true]
    exact ⟨revision.cells.stringCount_eq.symm, by omega⟩

end InsertDocument

/-! ## The cells one by one -/

/-- The bytes that a cell denotes in a source. -/
def CompactScalarCell.denoted (cell : CompactScalarCell) (sql : Text) : Text :=
  (sql.drop cell.textOffset).take cell.textLength

theorem denoted_layout {cursor index : Nat} {parts : List CellPart} {sql tail : Text} {part : CellPart}
    {cell : CompactScalarCell} (spelled : sql.drop cursor = spell (parts.map CellPart.piece) ++ tail)
    (found : parts[index]? = some part) (placed : (layoutCells cursor parts)[index]? = some cell) :
    cell.denoted sql = part.literal.text := by
  induction parts generalizing cursor index with
  | nil => cases found
  | cons head parts inductionHypothesis =>
    cases index with
    | zero =>
      cases found
      cases placed
      have behind : sql.drop (cursor + part.before.length + part.literal.opening.length) =
          part.literal.text ++ (part.literal.opening ++ (spell (parts.map CellPart.piece) ++ tail)) := by
        rw [← List.drop_drop, ← List.drop_drop, spelled, List.map_cons, spell_cons, Piece.spell, CellPart.piece,
          CellLiteral.spelling]
        simp only [List.append_assoc]
        rw [List.drop_left' rfl, List.drop_left' rfl]
      rw [CompactScalarCell.denoted, CellPart.cell, behind, List.take_left' rfl]
    | succ index =>
      apply @inductionHypothesis (cursor + head.piece.spell.length) index _ found placed
      rw [← List.drop_drop, spelled, List.map_cons, spell_cons, List.append_assoc, List.drop_left' rfl]

/-- What the edits make of one cell: its position moves, and its text is the replacement or the old text. -/
structure FollowsEdits (edits : List SourceEdit) (sql : Text) (cell : CompactScalarCell) (newSql : Text)
    (image : CompactScalarCell) : Prop where
  kind : image.kind = cell.kind
  integer : image.integer = cell.integer
  location : image.location = cell.location + shift (edits.map SourceEdit.spliceEdit) cell.location.toNat
  offset : (image.textOffset : Int) - image.location = cell.textOffset - cell.location
  text : (∃ edit ∈ edits, (edit.sourceStart : Int) = cell.location ∧
      edit.replacement = some (39 :: image.denoted newSql ++ [39])) ∨
    (∀ edit ∈ edits, (edit.sourceStart : Int) ≠ cell.location) ∧ image.denoted newSql = cell.denoted sql

/-- The literals and the cells that stand at an index of both texts. -/
structure RevisedCell (edits : List SourceEdit) (cursor target : Nat) (part part' : CellPart)
    (cell image : CompactScalarCell) : Prop where
  kind : image.kind = cell.kind
  integer : image.integer = cell.integer
  offset : (image.textOffset : Int) - image.location = cell.textOffset - cell.location
  location : image.location - target =
    cell.location - cursor + shift (edits.map SourceEdit.spliceEdit) cell.location.toNat
  literal : (∃ edit ∈ edits, (edit.sourceStart : Int) = cell.location ∧
      edit.replacement = some (39 :: part'.literal.text ++ [39])) ∨
    (∀ edit ∈ edits, (edit.sourceStart : Int) ≠ cell.location) ∧ part' = part

theorem CellsRevised.getElem? {cursor index : Nat} {parts revised : List CellPart} {edits : List SourceEdit}
    (cells : CellsRevised cursor parts edits revised) {cell : CompactScalarCell} (target : Nat)
    (placed : (layoutCells cursor parts)[index]? = some cell) :
    ∃ part part' image, parts[index]? = some part ∧ revised[index]? = some part' ∧
      (layoutCells target revised)[index]? = some image ∧ RevisedCell edits cursor target part part' cell image := by
  induction cells generalizing index target with
  | nil => cases placed
  | @keep cursor part parts revised edits rest inductionHypothesis =>
    cases index with
    | zero =>
      cases placed
      have length := part.spell_length
      have still : shift (edits.map SourceEdit.spliceEdit) (part.cell cursor).location.toNat = 0 :=
        rest.revises.shift_front (by simp only [CellPart.cell]; omega)
      refine ⟨part, part, part.cell target, rfl, rfl, rfl, rfl, rfl, ?_, ?_, .inr ⟨?_, rfl⟩⟩
      · simp only [CellPart.cell]
        omega
      · rw [still]
        simp only [CellPart.cell]
        omega
      · intro edit member
        have := rest.start_gt member
        simp only [CellPart.cell]
        omega
    | succ index =>
      obtain ⟨own, own', image, found, found', imaged, follows⟩ :=
        inductionHypothesis (target + part.piece.spell.length) placed
      have location := follows.location
      exact ⟨own, own', image, found, found', imaged, follows.kind, follows.integer, follows.offset, by omega,
        follows.literal⟩
  | @revise cursor before content replaced gap parts revised edit edits literal quoted rest inductionHypothesis =>
    have start := literal.start
    have stop := literal.stop
    have length := (CellPart.mk before (.string content) gap).spell_length
    have newLength := (CellPart.mk before (.string replaced) gap).spell_length
    rw [CellLiteral.string_spelling_length] at length newLength
    simp only [CellPart.cell, CellLiteral.text] at start stop length newLength
    cases index with
    | zero =>
      cases placed
      refine ⟨_, _, CellPart.cell ⟨before, .string replaced, gap⟩ target, rfl, rfl, rfl, rfl, rfl, ?_, ?_,
        .inl ⟨edit, List.mem_cons_self, literal.start, quoted⟩⟩
      · simp only [CellPart.cell, CellLiteral.opening, List.length_singleton]
        omega
      · rw [List.map_cons, shift_cons, if_neg (by simp only [CellPart.cell, spliceEdit_stop]; omega),
          rest.revises.shift_front (by simp only [CellPart.cell]; omega)]
        simp only [CellPart.cell]
        omega
    | succ index =>
      obtain ⟨own, own', image, found, found', imaged, follows⟩ :=
        inductionHypothesis (target + (CellPart.piece ⟨before, .string replaced, gap⟩).spell.length) placed
      have location := follows.location
      have tail : (layoutCells (cursor + (CellPart.piece ⟨before, .string content, gap⟩).spell.length) parts)[index]? =
        some cell := placed
      have behind := layoutCells_location (List.mem_of_getElem? tail)
      have size : edit.replacementLength = replaced.1.length + 2 := by
        rw [SourceEdit.replacementLength, quoted, Option.getD_some, CellLiteral.string_spelling_length]
      refine ⟨own, own', image, found, found', imaged, follows.kind, follows.integer, follows.offset, ?_, ?_⟩
      · rw [List.map_cons, shift_cons, if_pos (by rw [spliceEdit_stop]; omega), ← rebaseEditDelta_eq (by omega),
          rebaseEditDelta, size]
        omega
      · cases follows.literal with
        | inl edited =>
          obtain ⟨other, member, here, replacement⟩ := edited
          exact .inl ⟨other, List.mem_cons_of_mem _ member, here, replacement⟩
        | inr kept =>
          refine .inr ⟨?_, kept.2⟩
          intro other member
          cases member with
          | head => omega
          | tail _ member => exact kept.1 other member

/-- The cells of the new object follow the edits. -/
theorem InsertDocument.Revised.follows {document revised : InsertDocument} {edits : List SourceEdit}
    (revision : document.Revised edits revised) {index : Nat} {cell : CompactScalarCell}
    (placed : document.compact.cells[index]? = some cell) :
    ∃ image, revised.compact.cells[index]? = some image ∧
      FollowsEdits edits document.text cell revised.text image := by
  obtain ⟨part, part', image, found, found', imaged, follows⟩ :=
    revision.cells.getElem? revised.header.length placed
  have header := congrArg List.length revision.header_eq
  have spelled : ∀ described : InsertDocument, described.text.drop described.header.length =
      spell (described.cells.map CellPart.piece) ++ described.ending := by
    intro described
    rw [InsertDocument.text, List.append_assoc, List.drop_left' rfl]
    rfl
  have oldText := denoted_layout (spelled document) found placed
  have newText := denoted_layout (spelled revised) found' imaged
  have location := follows.location
  refine ⟨image, imaged, follows.kind, follows.integer, by omega, follows.offset, ?_⟩
  rw [newText, oldText]
  cases follows.literal with
  | inl edited => exact .inl edited
  | inr kept => exact .inr ⟨kept.1, by rw [kept.2]⟩

/-! ## The whole edit -/

section Apply

variable {malloc : Nat → Bool} {compact : CompactScalarInsert} {document : InsertDocument} {edits : List SourceEdit}
  {sql : Text}

/-- The shifted end of the text, which bounds all other positions, leaves its range. -/
def EndOverflows (sqlLength : Nat) (edits : List SourceEdit) : Prop :=
  (int32Max : Int) < sqlLength + shift (edits.map SourceEdit.spliceEdit) sqlLength

theorem InsertDocument.Revised.endOverflows_iff {revised : InsertDocument} (revision : document.Revised edits revised)
    (ordered : Ordered 0 (edits.map SourceEdit.spliceEdit)) :
    EndOverflows document.text.length edits ↔ int32Max < revised.text.length := by
  have ended : ∀ edit ∈ edits.map SourceEdit.spliceEdit, edit.stop ≤ document.text.length := by
    intro edit member
    have stop := revision.cells.revises.stop_le member
    have lengths := document.text_length
    rw [InsertDocument.body] at lengths
    omega
  have length := splice_length document.text ordered (Nat.zero_le _) ended
  rw [EndOverflows, shift_eq_sum ended, revision.text_eq]
  omega

/-- What an accepted list of edits makes of the object. -/
structure UpdatedCompact (compact : CompactScalarInsert) (document : InsertDocument) (edits : List SourceEdit) (sql : Text)
    (next : CompactScalarInsert) : Prop where
  described : ∃ revised, document.Revised edits revised ∧ Describes next revised
  source : next.sql = sql
  cells : ∀ (index : Nat) (cell : CompactScalarCell), compact.cells[index]? = some cell →
    ∃ image, next.cells[index]? = some image ∧ FollowsEdits edits compact.sql cell sql image

theorem exists_revised_of_ok (valid : CompactEdits edits) {length : Nat} {next : CompactScalarInsert}
    (accepted : compactInsertNext document.compact sql length edits = some next) :
    ∃ revised, document.Revised edits revised := by
  rw [compactInsertNext.eq_def] at accepted
  split at accepted
  next => cases accepted
  next first rest =>
    split at accepted
    next => cases accepted
    next =>
      split at accepted
      next => cases accepted
      next cells left final loop =>
        split_ifs at accepted with refused
        simp only [not_or, not_not] at refused
        obtain ⟨rfl, -⟩ := refused
        obtain ⟨cells, revises⟩ := revised_of_compactCells valid.quoted loop
        obtain ⟨revised, revision, -⟩ := InsertDocument.exists_revised revises
        exact ⟨revised, revision⟩

/-- Edits of strings lead to the object of the spliced text, unless the text gets too long. -/
theorem compactInsertApplyEdits_revised (short : document.text.length ≤ int32Max) (valid : CompactEdits edits)
    {revised : InsertDocument} (revision : document.Revised edits revised) :
    compactInsertApplyEdits malloc document.compact revised.text revised.text.length edits =
      if int32Max < revised.text.length then .error .unsupported
      else if (compactInsertSize document.compact).any malloc then .ok revised.compact
      else .error .noMemory := by
  obtain ⟨bytes, size⟩ := Option.isSome_iff_exists.mp (document.compactInsertSize_isSome short)
  have stored := document.textBytes_le
  rw [compactInsertApplyEdits]
  by_cases long : int32Max < revised.text.length
  · rw [if_pos (.inr (.inr (.inl long))), if_pos long]
  · have guard : ¬ (edits = [] ∨ document.compact.sqlLength > int32Max ∨ revised.text.length > int32Max ∨
        document.compact.textBytes > int32Max) := by
      rintro (empty | tooLong | tooLong | tooLong)
      · exact valid.nonempty empty
      · exact absurd short (Nat.not_le.mpr tooLong)
      · exact long tooLong
      · exact absurd (stored.trans short) (Nat.not_le.mpr tooLong)
    rw [if_neg guard, if_neg long, size, revision.compactInsertNext_eq valid.nonempty (Nat.not_lt.mp long)]
    rfl

theorem compactInsertApplyEdits_ok {old next : CompactScalarInsert} {length : Nat}
    (applied : compactInsertApplyEdits malloc old sql length edits = .ok next) :
    compactInsertNext old sql length edits = some next := by
  rw [compactInsertApplyEdits] at applied
  split_ifs at applied
  split at applied
  next => cases applied
  next bytes _ =>
    split_ifs at applied
    split at applied
    next => cases applied
    next made =>
      cases applied
      exact made

theorem compactInsertApplyEdits_error {old : CompactScalarInsert} {length : Nat} {status : Status}
    (refused : compactInsertApplyEdits malloc old sql length edits = .error status) :
    status = .unsupported ∨ status = .noMemory ∧ (compactInsertSize old).any malloc = false := by
  rw [compactInsertApplyEdits] at refused
  split_ifs at refused
  · cases refused
    exact .inl rfl
  · split at refused
    next =>
      cases refused
      exact .inl rfl
    next bytes size =>
      split_ifs at refused with given
      · split at refused
        next =>
          cases refused
          exact .inl rfl
        next => cases refused
      · cases refused
        exact .inr ⟨rfl, by simpa [size] using given⟩

theorem compactInsertNext_source {old next : CompactScalarInsert} {length : Nat}
    (made : compactInsertNext old sql length edits = some next) : next.sql = sql ∧ next.sqlLength = length := by
  rw [compactInsertNext.eq_def] at made
  split at made
  next => cases made
  next first rest =>
    split at made
    next => cases made
    next =>
      split at made
      next => cases made
      next cells left final loop =>
        split_ifs at made
        obtain ⟨rawLength, -, same⟩ := Option.map_eq_some_iff.mp made
        rw [← same]
        exact ⟨rfl, rfl⟩

/-- For every object that describes its source and every list of edits, the new object describes the spliced source, and
the old one stays in place unless there is a new one.  Edits of strings are refused only if the text gets too long. -/
theorem compact_insert_faithful (malloc : Nat → Bool) (compact : CompactScalarInsert) (document : InsertDocument)
    (describes : Describes compact document) (edits : List SourceEdit) (valid : CompactEdits edits) (sql : Text)
    (spliced : sql = splice compact.sql 0 (edits.map SourceEdit.spliceEdit)) :
    (∀ next, compactInsertApplyEdits malloc compact sql sql.length edits = .ok next →
      UpdatedCompact compact document edits sql next) ∧
    (compactInsertApplyEdits malloc compact sql sql.length edits = .error .unsupported →
      (∃ edit ∈ edits, ∀ cell ∈ compact.cells, ¬ cell.IsLiteral edit) ∨ EndOverflows compact.sql.length edits) ∧
    (∀ status, compactInsertApplyEdits malloc compact sql sql.length edits = .error status → status ≠ .unsupported →
      status = .noMemory ∧ (compactInsertSize compact).any malloc = false) ∧
    ∀ handle : CompactHandle, handle.current = some compact →
      match compactInsertApplyEdits malloc compact sql sql.length edits with
      | .ok next => ∃ after, commitCompactInsert malloc handle sql edits = (.ok, after, none) ∧ after.current = some next
      | .error status => commitCompactInsert malloc handle sql edits = (status, handle, some sql) := by
  obtain ⟨rfl, short⟩ := describes
  refine ⟨?_, ?_, ?_, ?_⟩
  · intro next applied
    obtain ⟨revised, revision⟩ := exists_revised_of_ok valid (compactInsertApplyEdits_ok applied)
    have text : sql = revised.text := spliced.trans revision.text_eq.symm
    subst text
    rw [compactInsertApplyEdits_revised short valid revision] at applied
    split_ifs at applied with long
    cases applied
    exact ⟨⟨revised, revision, rfl, Nat.not_lt.mp long⟩, rfl, fun index cell placed => revision.follows placed⟩
  · intro refused
    by_cases literals : ∀ edit ∈ edits, ∃ cell ∈ document.compact.cells, cell.IsLiteral edit
    · obtain ⟨cells, revises⟩ := revised_of_literals valid.ordered valid.quoted literals
      obtain ⟨revised, revision, -⟩ := InsertDocument.exists_revised revises
      have text : sql = revised.text := spliced.trans revision.text_eq.symm
      subst text
      rw [compactInsertApplyEdits_revised short valid revision] at refused
      split_ifs at refused with long
      · exact .inr ((revision.endOverflows_iff valid.ordered).mpr long)
      · cases refused
    · push Not at literals
      exact .inl literals
  · intro status refused other
    exact (compactInsertApplyEdits_error refused).resolve_left other
  · intro handle current
    rw [commitCompactInsert, current]
    cases applied : compactInsertApplyEdits malloc document.compact sql sql.length edits with
    | error status => simp only [applied]
    | ok next =>
      obtain ⟨source, length⟩ := compactInsertNext_source (compactInsertApplyEdits_ok applied)
      simp only [applied]
      exact ⟨_, rfl, by simp [CompactHandle.current, source, length]⟩

end Apply

/-- `INSERT INTO t(a, b) VALUES ('x', 7), ('it', 1.5);` -/
def twoRowDocument : InsertDocument where
  catalog := none
  schema := none
  relation := ⟨ascii "INSERT INTO ", ascii "t", by decide +kernel, by decide +kernel⟩
  columns := [⟨ascii "(", ascii "a", by decide +kernel, by decide +kernel⟩,
    ⟨ascii ", ", ascii "b", by decide +kernel, by decide +kernel⟩]
  rows := 2
  cells := [⟨ascii ") VALUES (", .string ⟨ascii "x", by decide +kernel⟩, by decide +kernel⟩,
    ⟨ascii ", ", .integer (ascii "7") 7, by decide +kernel⟩,
    ⟨ascii "), (", .string ⟨ascii "it", by decide +kernel⟩, by decide +kernel⟩,
    ⟨ascii ", ", .float (ascii "1.5"), by decide +kernel⟩]
  closing := ascii ")"
  behind := some []
  hasColumns := by decide +kernel
  shape := rfl

/-- One string gets longer and the other one shorter, and the cells behind them move. -/
theorem compact_insert_faithful_longer :
    ∃ next, UpdatedCompact twoRowDocument.compact twoRowDocument [⟨28, 31, some (ascii "'xyz'")⟩, ⟨38, 42, some (ascii "''")⟩]
        (ascii "INSERT INTO t(a, b) VALUES ('xyz', 7), ('', 1.5);") next ∧
      twoRowDocument.compact.cells.map CompactScalarCell.location = [28, 33, 38, 44] ∧
      next.cells.map CompactScalarCell.location = [28, 35, 40, 44] :=
  ⟨_, (compact_insert_faithful (fun _ => true) twoRowDocument.compact twoRowDocument ⟨rfl, by decide +kernel⟩
    [⟨28, 31, some (ascii "'xyz'")⟩, ⟨38, 42, some (ascii "''")⟩]
    ⟨List.cons_ne_nil _ _, ⟨by decide, by decide, by decide, by decide, trivial⟩, by
      intro edit member
      rcases List.mem_pair.mp member with rfl | rfl
      · exact ⟨⟨ascii "xyz", by decide +kernel⟩, rfl⟩
      · exact ⟨⟨[], by decide +kernel⟩, rfl⟩⟩
    (ascii "INSERT INTO t(a, b) VALUES ('xyz', 7), ('', 1.5);") (by decide +kernel)).1 _ rfl, rfl, rfl⟩

/-- Edits that pass the check of the patches replace by quoted strings. -/
theorem compactEdits_of_certifyInsertEdits {handle : InsertHandle} {edits : List SourceEdit} {stringCount rawLength : Nat}
    (accepted : certifyInsertEdits handle edits stringCount false rawLength = true) : CompactEdits edits := by
  have certified := certifyInsertEdits_certified accepted
  obtain ⟨nonempty, plain⟩ := certifyInsertEdits_plain accepted
  refine ⟨nonempty, certified.ordered, fun edit member => ?_⟩
  obtain ⟨text, given, -⟩ := certified.given edit member
  obtain ⟨content, spelled, bytes⟩ := plainAsciiString_content (plain rfl edit member)
  rw [given, Option.getD_some] at spelled
  refine ⟨⟨content, fun quote => ?_⟩, by rw [QuotedBy, given, spelled]; rfl⟩
  simpa [isPlainStringByte] using bytes 39 quote

end SqlParser.Core
