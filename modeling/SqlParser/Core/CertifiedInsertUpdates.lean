import SqlParser.Core.CertifiedInsertSoundness

/-! # Updates of a certified INSERT in sequence

An update of the strings of a certified INSERT consumes every edit and leaves the tree that the
certificate accepts for the spliced text. So it may be followed by another one.
-/

namespace SqlParser.Core

open SqlParser.PgQuery
open SqlParser.Library.Splice

/-! ## Cells at their places -/

theorem certifiedCells_each {sql : Text} {cells : List (Option InsertAst.CellNode)} {rest after : Text}
    {strings total : Nat} (suffix : rest <:+ sql) (read : certifiedCells sql cells (rest, strings) = some (after, total)) :
    ∀ node ∈ cells, ∃ here behind cell unknownFields gap body string, here <:+ sql ∧
      node = some ⟨.aConst (some cell), unknownFields⟩ ∧ CellRead sql here behind cell gap body string := by
  induction cells generalizing rest strings with
  | nil => simp
  | cons node cells inductionHypothesis =>
    simp only [certifiedCells, Option.bind_eq_bind, Option.bind_eq_some_iff, Prod.exists] at read
    obtain ⟨middle, string, cellRead, next, marked, behind⟩ := read
    obtain ⟨cell, unknownFields, gap, body, rfl, held⟩ := certifiedCell_piece cellRead
    have middleSuffix : middle <:+ sql := by
      rw [held.split] at suffix
      exact (List.suffix_append _ _).trans suffix
    obtain ⟨nextSuffix, _⟩ := mark_place middleSuffix marked (cellMark_plain _).1 (cellMark_plain _).2
    intro other member
    cases member with
    | head => exact ⟨rest, middle, cell, unknownFields, gap, body, string, suffix, rfl, held⟩
    | tail _ member => exact inductionHypothesis nextSuffix behind other member

theorem certifiedRows_each {sql : Text} (short : sql.length ≤ int32Max) {rows : List (Option InsertAst.RowNode)}
    {rest after : Text} {strings total : Nat} (suffix : rest <:+ sql)
    (read : certifiedRowsOf sql rows (rest, strings) = some (after, total)) :
    ∀ row ∈ rows, ∀ node ∈ certifiedRowItems row, ∃ here behind cell unknownFields gap body string, here <:+ sql ∧
      node = some ⟨.aConst (some cell), unknownFields⟩ ∧ CellRead sql here behind cell gap body string := by
  induction rows generalizing rest strings with
  | nil => simp
  | cons row rows inductionHypothesis =>
    simp only [certifiedRowsOf, Option.bind_eq_bind, Option.bind_eq_some_iff, Prod.exists] at read
    obtain ⟨front, opened, middle, count, cellsRead, next, separated, behind⟩ := read
    obtain ⟨frontSuffix, _⟩ := mark_place suffix opened (by decide) (by decide)
    obtain ⟨middleSuffix, _⟩ := cellSpans_read short frontSuffix cellsRead
    have nextSuffix : next <:+ sql := by
      rw [certifiedSeparator] at separated
      split at separated
      next =>
        cases separated
        exact middleSuffix
      next => exact (mark_place middleSuffix separated (by decide) (by decide)).1
    intro other member
    cases member with
    | head => exact certifiedCells_each frontSuffix cellsRead
    | tail _ member => exact inductionHypothesis nextSuffix behind other member

/-- A cell of a certified tree: its location is in the text, and a string is the interior of the literal there. -/
structure CellAgrees (sql : Text) (cell : InsertAst.AConst) : Prop where
  natural : 0 ≤ cell.location.toInt
  within : cell.location.toInt.toNat ≤ sql.length
  literal : ∀ constant, cell.val = .sval (some constant) → ∃ text, constant.sval = some text ∧
    (sql.drop cell.location.toInt.toNat).take (text.length + 2) = 39 :: text ++ [39]

theorem CellRead.agrees {sql here behind : Text} {cell : InsertAst.AConst} {gap body : Text} {string : Nat}
    (short : sql.length ≤ int32Max) (suffix : here <:+ sql) (held : CellRead sql here behind cell gap body string) :
    CellAgrees sql cell := by
  have located := held.place short suffix
  have bodySuffix : body ++ behind <:+ sql := by
    apply List.IsSuffix.trans _ suffix
    exact ⟨gap, by rw [held.split, List.append_assoc]⟩
  refine ⟨by rw [located.location]; omega, ?_, ?_⟩
  · rw [located.location, Int.toNat_natCast]
    exact Nat.sub_le _ _
  · intro constant isString
    rw [located.location, Int.toNat_natCast, drop_place bodySuffix]
    have value := held.value
    rw [isString] at value
    cases value with
    | string content =>
      refine ⟨content, rfl, ?_⟩
      rw [List.take_append_of_le_length (by simp), List.take_of_length_le (by simp)]

theorem certifiedWalk_agrees {sql : Text} (short : sql.length ≤ int32Max) {parts : SourceParts} {strings : Nat}
    (walk : certifiedWalk sql parts = some strings) :
    ∀ row ∈ parts.rows, ∀ cell unknownFields,
      some ⟨.aConst (some cell), unknownFields⟩ ∈ certifiedRowItems row → CellAgrees sql cell := by
  simp only [certifiedWalk, Option.bind_eq_bind, Option.bind_eq_some_iff, Prod.exists] at walk
  obtain ⟨_, insertRead, _, intoRead, _, relationRead, _, opened, _, columnsRead, _, valuesRead, _, _, rowsRead, _⟩ := walk
  obtain ⟨suffix, _⟩ := word_place (List.suffix_refl sql) insertRead
  obtain ⟨suffix, _⟩ := word_place suffix intoRead
  obtain ⟨suffix, _⟩ := name_place suffix relationRead
  obtain ⟨suffix, _⟩ := mark_place suffix opened (by decide) (by decide)
  obtain ⟨suffix, _⟩ := columns_place suffix columnsRead
  obtain ⟨suffix, _⟩ := word_place suffix valuesRead
  intro row rowMember cell unknownFields cellMember
  obtain ⟨here, behind, other, _, gap, body, string, hereSuffix, same, held⟩ :=
    certifiedRows_each short suffix rowsRead row rowMember _ cellMember
  cases same
  exact held.agrees short hereSuffix

/-! ## The tree behind an update -/

theorem insertValuesShape_moved (edits : List SourceEdit) (columns : List (Option InsertAst.ColumnNode))
    (rows : List (Option InsertAst.RowNode)) :
    insertValuesShape columns (rows.map (movedRow edits)) = insertValuesShape columns rows := by
  have each (row : Option InsertAst.RowNode) : hasCells columns.length (movedRow edits row) = hasCells columns.length row := by
    obtain ⟨items, listUnknown, unknownFields, rfl⟩ | ⟨_, same, _⟩ := row_cases row
    · simp only [movedRow, hasCells, List.length_map]
    · rw [same]
  rw [insertValuesShape, insertValuesShape, List.all_map]
  simp only [Function.comp_def, each, ne_eq, List.map_eq_nil_iff]

/-- The parts of a statement are its rows and its length, and other rows of the same shape may take their place. -/
theorem sourceParts_withRows {raw : InsertAst.RawStmt} {parts : SourceParts} (found : sourceParts raw = some parts) :
    rowsOf raw = parts.rows ∧ parts.stmtLen = raw.stmtLen ∧
    ∀ edits stmtLen, 0 ≤ Int32.toInt stmtLen →
      rowsOf (withRows raw (parts.rows.map (movedRow edits)) stmtLen) = parts.rows.map (movedRow edits) ∧
      sourceParts (withRows raw (parts.rows.map (movedRow edits)) stmtLen) =
        some { parts with rows := parts.rows.map (movedRow edits), stmtLen := stmtLen } := by
  obtain ⟨stmt, stmtLocation, oldLength, rawUnknown⟩ := raw
  rw [sourceParts.eq_def] at found
  simp only [] at found
  split at found
  next _ relation columns values sourceUnknown onConflict returning withClause override unknown nodeUnknown =>
    split at found
    next => cases found
    next rows isRows =>
      rw [Option.ite_none_left_eq_some] at found
      obtain ⟨accepted, equal⟩ := found
      cases equal
      refine ⟨by simp only [rowsOf, isRows, Option.getD_some], rfl, fun edits stmtLen natural => ⟨rfl, ?_⟩⟩
      simp only [withRows, Option.map_some, sourceParts]
      refine if_neg ?_
      simp only [not_or] at accepted ⊢
      obtain ⟨atStart, _, shape, simple, plain, relationFine, defaults⟩ := accepted
      refine ⟨atStart, not_lt.mpr natural, ?_, simple, plain, relationFine, defaults⟩
      rw [insertValuesShape_moved]
      exact shape
  next => cases found

/-! ## Updates -/

/-- An update of a certified handle: edits that the second certificate accepts, each of them the literal of a
string cell. The caller looked at the replacements itself if it says that all of them are plain. -/
structure InsertUpdate (handle : InsertSource) (strings : Nat) where
  sql : Text
  raw : InsertAst.RawStmt
  version : Int32
  unknownFields : Text
  edits : List SourceEdit
  state : InsertHandle
  allRawPlain : Bool
  text : handle.sql = some sql
  tree : handle.ast = some ⟨version, some [some raw], unknownFields⟩
  length : state.sqlLength = sql.length
  accepted : certifyInsertEdits state edits strings allRawPlain (InsertAst.uint32 raw.stmtLen) = true
  targets : ∀ edit ∈ edits, interval edit ∈ rowSpans (rowsOf raw)
  promised : allRawPlain = true → ∀ edit ∈ edits, plainAsciiString (edit.replacement.getD []) = true

namespace InsertUpdate

variable {handle : InsertSource} {strings : Nat}

def consumed (update : InsertUpdate handle strings) : InsertAst.RawStmt × ConsumeState :=
  consumeInsertStrings update.raw update.edits

def spliced (update : InsertUpdate handle strings) : Text :=
  splice update.sql 0 (update.edits.map SourceEdit.spliceEdit)

/-- The handle with the spliced text and the updated tree. -/
def after (update : InsertUpdate handle strings) : InsertSource :=
  { handle with
    sql := some update.spliced
    parserSql := some update.spliced
    ast := some ⟨update.version, some [some update.consumed.1], update.unknownFields⟩ }

theorem certifiedEdits (update : InsertUpdate handle strings) : CertifiedInsertEdits update.edits update.sql.length := by
  rw [← update.length]
  exact certifyInsertEdits_certified update.accepted

theorem plain (update : InsertUpdate handle strings) : ∀ edit ∈ update.edits, ∃ content,
    edit.replacement = some (39 :: content ++ [39]) ∧ PlainContent content := by
  intro edit member
  have string : plainAsciiString (edit.replacement.getD []) = true := by
    cases raw : update.allRawPlain with
    | false => exact (certifyInsertEdits_plain update.accepted).2 raw edit member
    | true => exact update.promised raw edit member
  obtain ⟨text, given, _⟩ := update.certifiedEdits.given edit member
  rw [given, Option.getD_some] at string
  obtain ⟨content, rfl, bytes⟩ := plainAsciiString_content string
  refine ⟨content, given, fun byte inContent => ?_⟩
  have := bytes byte inContent
  simp only [isPlainStringByte, Bool.and_eq_true, decide_eq_true_eq] at this
  simp only [isLiteralByte, Bool.and_eq_true, decide_eq_true_eq]
  exact ⟨⟨this.1.1, this.2⟩, this.1.2⟩

theorem spliced_short (update : InsertUpdate handle strings) (short : update.sql.length ≤ int32Max) :
    update.spliced.length ≤ int32Max := by
  have certified := update.certifiedEdits
  have given := (certifyInsertEdits_plain update.accepted).1
  have size := splice_length update.sql certified.ordered (Nat.zero_le _) (by
    intro edit member
    obtain ⟨source, inEdits, rfl⟩ := List.mem_map.mp member
    exact certified.within source inEdits)
  have last := certified.lengths update.edits.length (List.length_pos_of_ne_nil given) le_rfl
  have deltas : ((update.edits.map SourceEdit.spliceEdit).map Edit.delta).sum = deltaBefore update.edits update.edits.length := by
    rw [deltaBefore, List.take_length, List.map_map]
    congr 1
    apply List.map_congr_left
    intro edit member
    have := certified.proper edit member
    simp only [Function.comp_apply, Edit.delta, SourceEdit.spliceEdit, rebaseEditDelta, SourceEdit.replacementLength]
    omega
  rw [deltas] at size
  rw [spliced]
  omega

/-- What an update does to a handle that the certificate accepts. -/
structure Agrees (update : InsertUpdate handle strings) : Prop where
  /-- Every edit is taken, one after the other, and none is left with its replacement. -/
  consumedEdits : update.consumed.2 = ⟨update.edits.map fun edit => { edit with replacement := none }, update.edits.length,
    deltaOf update.edits⟩
  /-- The cells move and the strings of the edits change, and nothing else does. -/
  consumedTree : update.consumed.1 =
    withRows update.raw ((rowsOf update.raw).map (movedRow update.edits)) (consumedLength update.edits update.raw.stmtLen)
  locations : ∀ row ∈ rowsOf update.raw, ∀ cell unknownFields,
    some ⟨.aConst (some cell), unknownFields⟩ ∈ certifiedRowItems row →
      0 ≤ (shiftedLocation update.edits cell.location).toInt ∧
      (shiftedLocation update.edits cell.location).toInt ≤ int32Max ∧
      (shiftedLocation update.edits cell.location).toInt =
        cell.location.toInt + deltaBefore update.edits (endedEdits update.edits cell.location.toInt.toNat)
  stmtLen : 0 ≤ (consumedLength update.edits update.raw.stmtLen).toInt ∧
    (consumedLength update.edits update.raw.stmtLen).toInt ≤ int32Max ∧
    (consumedLength update.edits update.raw.stmtLen).toInt = update.raw.stmtLen.toInt +
      deltaBefore update.edits (endedEdits update.edits update.raw.stmtLen.toInt.toNat)
  literals : ∀ row ∈ rowsOf update.consumed.1, ∀ cell unknownFields,
    some ⟨.aConst (some cell), unknownFields⟩ ∈ certifiedRowItems row → CellAgrees update.spliced cell
  certified : certifyInsertSource update.after = some strings

theorem agrees (update : InsertUpdate handle strings) (certified : certifyInsertSource handle = some strings) :
    update.Agrees := by
  rw [certifyInsertSource, update.text, update.tree] at certified
  cases parser : handle.parserSql with
  | none =>
    rw [parser] at certified
    cases certified
  | some parserSql =>
    rw [parser] at certified
    simp only [Option.ite_none_left_eq_some, not_or, not_not, Bool.not_eq_false, not_lt, gt_iff_lt,
      Option.bind_eq_some_iff] at certified
    obtain ⟨⟨supported, _, short, single, rfl⟩, parts, found, walk⟩ := certified
    obtain ⟨rows, length, withMoved⟩ := sourceParts_withRows found
    have edits := update.certifiedEdits
    have imageShort := update.spliced_short short
    have targets : ∀ edit ∈ update.edits, interval edit ∈ rowSpans parts.rows := by
      rw [← rows]
      exact update.targets
    obtain ⟨consumed, walked, natural, moved⟩ := walk_beside short imageShort walk
      (certifyInsertEdits_plain update.accepted).1 edits.ordered targets edits.proper update.plain
    rw [length] at walked natural moved
    obtain ⟨movedRows, movedParts⟩ := withMoved update.edits (consumedLength update.edits update.raw.stmtLen) natural
    have state : consumedState update.edits [] =
        ⟨update.edits.map fun edit => { edit with replacement := none }, update.edits.length, deltaOf update.edits⟩ := by
      rw [consumedState, List.append_nil]
    have tree : update.consumed = (withRows update.raw (parts.rows.map (movedRow update.edits))
        (consumedLength update.edits update.raw.stmtLen), consumedState update.edits []) := by
      simp only [InsertUpdate.consumed, consumeInsertStrings, rows, consumed]
      rfl
    refine ⟨by rw [tree, state], by rw [tree, rows], ?_, ⟨natural, ?_, moved⟩, ?_, ?_⟩
    · intro row rowMember cell unknownFields cellMember
      rw [rows] at rowMember
      have cellAgrees := certifiedWalk_agrees short walk row rowMember cell unknownFields cellMember
      have range := moved_range edits short cellAgrees.within
      rw [Int.toNat_of_nonneg cellAgrees.natural] at range
      have shifted : (shiftedLocation update.edits cell.location).toInt =
          cell.location.toInt + deltaBefore update.edits (endedEdits update.edits cell.location.toInt.toNat) := by
        rw [int32Max] at range
        rw [shiftedLocation, Int32.toInt_ofInt_of_le (by omega) (by omega)]
      rw [shifted]
      exact ⟨range.1, range.2, rfl⟩
    · have := (consumedLength update.edits update.raw.stmtLen).toInt_lt
      rw [int32Max]
      omega
    · rw [tree, movedRows]
      exact certifiedWalk_agrees imageShort walked
    · have notLong : ¬ update.spliced.length > int32Max := not_lt.mpr imageShort
      simp only [certifyInsertSource, after, supported, single, tree, ne_eq, not_true_eq_false, Bool.true_eq_false,
        notLong, or_self, if_false, movedParts, Option.bind_some]
      exact walked

end InsertUpdate

/-- Strings of a certified INSERT replaced in place are those of its spliced text, however often it is done. -/
theorem certified_updates_agree {handle : InsertSource} {strings : Nat}
    (certified : certifyInsertSource handle = some strings) :
    (∀ update : InsertUpdate handle strings, update.Agrees) ∧
    ∀ last, Relation.ReflTransGen (fun before after => ∃ update : InsertUpdate before strings, after = update.after)
      handle last → certifyInsertSource last = some strings := by
  refine ⟨fun update => update.agrees certified, fun last updates => ?_⟩
  induction updates with
  | refl => exact certified
  | tail _ step inductionHypothesis =>
    obtain ⟨update, rfl⟩ := step
    exact (update.agrees inductionHypothesis).certified

def stringCell (text : String) (location : Int32) : Option InsertAst.CellNode :=
  some ⟨.aConst (some ⟨.sval (some ⟨some (ascii text), 0, []⟩), false, location, []⟩), []⟩

def integerCell (value location : Int32) : Option InsertAst.CellNode :=
  some ⟨.aConst (some ⟨.ival (some ⟨value, []⟩), false, location, []⟩), []⟩

/-- The tree of an INSERT into three columns of `t`. -/
def threeColumns (cells : List (Option InsertAst.CellNode)) (stmtLen : Int32) : InsertAst.RawStmt :=
  let relation : InsertAst.RangeVar := ⟨some [], some [], some (ascii "t"), true, some (ascii "p"), none, 12, []⟩
  let column (name : String) (location : Int32) : Option InsertAst.ColumnNode :=
    some ⟨.resTarget (some ⟨some (ascii name), none, none, location, []⟩), []⟩
  let row : InsertAst.RowNode := ⟨.list (some ⟨some cells, []⟩), []⟩
  let select : InsertAst.SelectStmt :=
    ⟨none, none, none, none, none, none, false, none, none, some [some row], none, none, none, .default, none, none,
      .none, false, none, none, none, none, false, false, .default, []⟩
  let insert : InsertAst.InsertStmt :=
    ⟨some relation, some [column "a" 14, column "b" 16, column "c" 18], some ⟨.selectStmt (some select), []⟩, none, none,
      none, .notSet, []⟩
  ⟨some ⟨.insertStmt (some insert), []⟩, 0, stmtLen, []⟩

def threeColumnsText : Text :=
  ascii "INSERT INTO t(a,b,c) VALUES('x' ,7,/* c */'yy') ;"

def threeColumnsSource : InsertSource :=
  ⟨true, some threeColumnsText, some threeColumnsText, 1,
    some ⟨170004, some [some (threeColumns [stringCell "x" 28, integerCell 7 33, stringCell "yy" 42] 48)], []⟩⟩

/-- One string grows and the other one becomes empty. -/
def threeColumnsUpdate : InsertUpdate threeColumnsSource 2 where
  sql := threeColumnsText
  raw := threeColumns [stringCell "x" 28, integerCell 7 33, stringCell "yy" 42] 48
  version := 170004
  unknownFields := []
  edits := [⟨28, 31, some (ascii "'long one'")⟩, ⟨42, 46, some (ascii "''")⟩]
  state := ⟨false, false, 0, 0, false, 0, false, 0, 0, false, 0, .ok, fun count => count = 2, 49⟩
  allRawPlain := false
  text := rfl
  tree := rfl
  length := by decide
  accepted := by decide +kernel
  targets := by decide +kernel
  promised := by decide

theorem certified_updates_agree_grown :
    certifyInsertSource threeColumnsSource = some 2 ∧ certifyInsertSource threeColumnsUpdate.after = some 2 := by
  have certified : certifyInsertSource threeColumnsSource = some 2 := by decide +kernel
  exact ⟨certified, ((certified_updates_agree certified).1 threeColumnsUpdate).certified⟩

end SqlParser.Core
