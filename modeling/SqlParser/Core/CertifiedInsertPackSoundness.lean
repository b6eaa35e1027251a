import SqlParser.Core.CertifiedInsertPack

/-! # The packer of certified INSERT statements writes the generic encoding

Each measuring function returns the length of a part of the encoding, and the writing function beside
it writes that part wherever there is room for it.
-/

namespace SqlParser.Core

open SqlParser.PgQuery
open SqlParser.Library.ProtobufWire
open SqlParser.Library.BoundedWriter

/-! ## Sizes -/

theorem capped_eq_some {size result : Nat} : capped size = some result ↔ result ≤ uint32Max ∧ size = result := by
  rw [capped]
  split
  next large => exact iff_of_false (by simp) (by omega)
  next small =>
    rw [Option.some.injEq]
    exact ⟨fun equal => ⟨by omega, equal⟩, fun held => held.2⟩

theorem cpVarintSize_eq {value : Nat} (bound : value ≤ uint32Max) : cpVarintSize value = varintSize value := by
  have positive := varintSize_pos value
  have one := varintSize_le_iff value 0
  have two := varintSize_le_iff value 1
  have three := varintSize_le_iff value 2
  have four := varintSize_le_iff value 3
  have five := varintSize_le_iff value 4
  rw [uint32Max] at bound
  norm_num at one two three four five bound
  simp only [cpVarintSize]
  norm_num
  split
  next => omega
  split
  next => omega
  split
  next => omega
  split <;> omega

theorem cpEnvelope_eq {tag size : Nat} {content : Text} (tagBound : tag < 2 ^ 29) (measured : content.length = size)
    (short : size ≤ uint32Max) : cpEnvelope tag size = (encodeEnvelope tag content).length := by
  have header : tag * 8 + 2 ≤ uint32Max := by
    rw [uint32Max]
    omega
  rw [cpEnvelope, cpVarintSize_eq header, cpVarintSize_eq short, encodeEnvelope_length, measured]

theorem cpScalarSize_eq {tag value : Nat} (tagBound : tag < 2 ^ 29) (bound : value ≤ uint32Max) :
    cpScalarSize tag value = (encodeScalar tag value).length := by
  have header : tag * 8 ≤ uint32Max := by
    rw [uint32Max]
    omega
  rw [cpScalarSize, encodeScalar_length]
  split
  next => rfl
  next => rw [cpVarintSize_eq header, cpVarintSize_eq bound]

theorem uint32_le (value : Int32) : InsertAst.uint32 value ≤ uint32Max := by
  have := value.toUInt32.toNat_lt
  rw [InsertAst.uint32, uint32Max]
  omega

/-- The wire of an `int32` that is not negative has the number itself. -/
theorem int32_encode {value : Int32} (natural : 0 ≤ value.toInt) (number : Nat) :
    (InsertAst.int32 value).encode number = encodeScalar number (InsertAst.uint32 value) := by
  have same : (value.toInt % 2 ^ 64).toNat = value.toUInt32.toNat := by
    have bound := value.toInt_lt
    have number := Int32.toNat_toUInt32_of_le (x := value) (by simpa [Int32.le_iff_toInt_le] using natural)
    rw [number, Int32.toNatClampNeg]
    omega
  rw [InsertAst.int32, Wire.encode, InsertAst.uint32, same]

/-! ## Writing -/

theorem writeVarint_writes (value : Nat) : Writes (writeVarint · value) (encodeVarint value) := by
  induction value using encodeVarint.induct with
  | case1 value small =>
    intro writer room
    rw [encodeVarint, if_pos small] at room ⊢
    have unfilled : writer.full = false := by
      rw [Writer.full, decide_eq_false_iff_not]
      simp only [List.length_singleton] at room
      omega
    simp only []
    rw [writeVarint, unfilled]
    simp [show ¬ 128 ≤ value by omega, show value / 128 = 0 by omega, Nat.mod_eq_of_lt small]
  | case2 value large inductionHypothesis =>
    intro writer room
    rw [encodeVarint, if_neg large] at room ⊢
    rw [List.length_cons] at room
    have unfilled : writer.full = false := by
      rw [Writer.full, decide_eq_false_iff_not]
      omega
    simp only []
    rw [writeVarint, unfilled, if_neg Bool.false_ne_true, if_pos (show 128 ≤ value by omega),
      if_neg (show ¬ value / 128 = 0 by omega)]
    have behind := inductionHypothesis (writer.append [UInt8.ofNat (value % 128 + 128)])
      (by rw [Writer.append_written, Writer.append_capacity, List.length_append, List.length_singleton]; omega)
    simp only [] at behind
    rw [behind, Writer.append_append, List.singleton_append]

theorem writeHeader_writes (tag payload : Nat) : Writes (writeHeader · tag payload) (encodeHeader tag payload) :=
  (writeVarint_writes (tag * 8 + 2)).comp (writeVarint_writes payload)

theorem writeScalar_writes (tag value : Nat) : Writes (writeScalar · tag value) (encodeScalar tag value) := by
  rw [encodeScalar]
  by_cases zero : value = 0
  · simp only [writeScalar, if_pos zero]
    exact Writes.nothing
  · simp only [writeScalar, if_neg zero]
    exact (writeVarint_writes (tag * 8)).comp (writeVarint_writes value)

theorem writePacked_writes {message : Wire} {size : Nat} (measured : message.payload.length = size) :
    Writes (writePacked · message size) message.payload := by
  intro writer room
  simp only [writePacked]
  rw [if_neg (by omega)]

theorem writeGeneric_writes (tag : Nat) {message : Wire} (short : packedSize message ≤ uint32Max) :
    Writes (writeGeneric · tag message) (encodeEnvelope tag message.payload) := by
  simp only [writeGeneric, if_neg (not_lt.mpr short)]
  exact (writeHeader_writes tag _).comp (writePacked_writes rfl)

/-- A message stands behind a header that announces its size. -/
theorem writes_enveloped {write : Writer → Writer} {content : Text} (written : Writes write content) (tag : Nat)
    {size : Nat} (measured : content.length = size) :
    Writes (fun writer => write (writeHeader writer tag size)) (encodeEnvelope tag content) := by
  rw [encodeEnvelope, measured]
  exact (writeHeader_writes tag size).comp written

theorem encode_repeated {α : Type} (toWire : α → Wire) (number : Nat) (items : List (Option α)) :
    encodeFields (InsertAst.repeated number (some (items.map (Option.map toWire)))) =
      items.flatMap fun item => (InsertAst.element (item.map toWire)).encode number := by
  rw [InsertAst.repeated, List.map_map]
  exact encodeFields_map (fun item => InsertAst.element (item.map toWire)) number items

/-! ## Cells -/

theorem encode_false (number : Nat) : (InsertAst.bool false).encode number = [] := by
  rw [InsertAst.bool, Wire.encode]
  rfl

theorem encode_zero (number : Nat) : (InsertAst.int32 0).encode number = [] := by
  rw [InsertAst.int32, Wire.encode]
  rfl

/-- The encoding of a constant that is not NULL and has a location. -/
theorem AConst_payload {constant : InsertAst.AConst} {number : Nat} (message : Wire) (isMessage : message.isMessage = true)
    (known : constant.unknownFields = []) (present : constant.isnull = false) (located : 0 ≤ constant.location.toInt)
    (value : constant.val.wire = [(number, message)]) :
    constant.toWire.payload =
      encodeEnvelope number message.payload ++
        encodeScalar 11 (InsertAst.uint32 constant.location) := by
  rw [InsertAst.AConst.toWire, Wire.payload, known, present, value, List.append_nil, encodeFields_append,
    encodeFields_cons, encodeFields_nil, encode_isMessage message isMessage, List.append_nil, encodeFields_cons, encodeFields_cons,
    encodeFields_nil, encode_false, int32_encode located, List.nil_append, List.append_nil]

/-- What the measured sizes of a constant are. -/
structure CellSizes.Measures (sizes : CellSizes) (constant : InsertAst.AConst) : Prop where
  specialized : sizes.generic = false
  constantSize : constant.toWire.payload.length = sizes.constant
  nodeSize : (encodeEnvelope 268 constant.toWire.payload).length = sizes.node
  nodeBound : sizes.node ≤ uint32Max
  writes : Writes (fun writer => writeScalar (writeValue writer constant sizes) 11 (InsertAst.uint32 constant.location))
    constant.toWire.payload

theorem cellSizes_measures {constant : InsertAst.AConst} {number stringLength : Nat} {sizes : CellSizes}
    (message : Wire) (isMessage : message.isMessage = true)
    (known : constant.unknownFields = [])
    (present : constant.isnull = false) (located : 0 ≤ constant.location.toInt) (numberBound : number < 2 ^ 29)
    (value : constant.val.wire = [(number, message)])
    (measured : cellSizes constant number message.payload.length stringLength = some sizes)
    (writes : sizes.value = message.payload.length → sizes.stringLength = stringLength →
      Writes (writeValue · constant sizes) (encodeEnvelope number message.payload)) :
    sizes.Measures constant := by
  simp only [cellSizes, Option.bind_eq_bind, Option.bind_eq_some_iff, capped_eq_some, Option.pure_def,
    Option.some.injEq] at measured
  obtain ⟨_, ⟨valueBound, rfl⟩, _, ⟨constantBound, rfl⟩, _, ⟨nodeBound, rfl⟩, rfl⟩ := measured
  have payload := AConst_payload message isMessage known present located value
  have constantSize : constant.toWire.payload.length =
      cpEnvelope number message.payload.length +
        cpScalarSize 11 (InsertAst.uint32 constant.location) := by
    rw [payload, List.length_append, cpEnvelope_eq numberBound rfl valueBound,
      cpScalarSize_eq (by decide) (uint32_le constant.location)]
  refine ⟨rfl, constantSize, ?_, nodeBound, ?_⟩
  · rw [cpEnvelope_eq (by decide) constantSize constantBound]
  · rw [payload]
    exact (writes rfl rfl).comp (writeScalar_writes 11 _)

theorem measureConstant_measures {constant : InsertAst.AConst} {sizes : CellSizes}
    (measured : measureConstant constant = some sizes) : sizes.Measures constant := by
  rw [measureConstant, Option.ite_none_left_eq_some] at measured
  obtain ⟨accepted, measured⟩ := measured
  rw [not_or, not_or, not_not, Bool.not_eq_true, not_lt] at accepted
  obtain ⟨known, present, located⟩ := accepted
  split at measured
  next integer isInteger =>
    rw [Option.ite_none_left_eq_some, not_or, not_not, not_lt] at measured
    obtain ⟨⟨integerKnown, natural⟩, measured⟩ := measured
    have payload : integer.toWire.payload = encodeScalar 1 (InsertAst.uint32 integer.ival) := by
      rw [InsertAst.Integer.toWire, Wire.payload, integerKnown, encodeFields_cons, encodeFields_nil, List.append_nil,
        List.append_nil, int32_encode natural]
    rw [cpScalarSize_eq (by decide) (uint32_le integer.ival), ← payload] at measured
    apply cellSizes_measures integer.toWire rfl known present located (by decide)
      (by rw [isInteger, InsertAst.ConstValue.wire, Option.map_some, InsertAst.optional]) measured
    intro valueSize _
    simp only [writeValue, isInteger]
    have inner : Writes (writeScalar · 1 (InsertAst.uint32 integer.ival)) integer.toWire.payload := by
      rw [payload]
      exact writeScalar_writes 1 _
    exact writes_enveloped inner 1 valueSize.symm
  next text location unknownFields isText =>
    rw [Option.ite_none_left_eq_some, not_or, not_or, not_not, not_not, not_lt] at measured
    obtain ⟨⟨rfl, rfl, short⟩, measured⟩ := measured
    have payload : (InsertAst.PgString.mk (some text) 0 []).toWire.payload =
        if text = [] then [] else encodeEnvelope 1 text := by
      rw [InsertAst.PgString.toWire, Wire.payload, encodeFields_cons, encodeFields_cons, encodeFields_nil,
        List.append_nil, List.append_nil, encode_zero, List.append_nil, InsertAst.string, Option.getD_some, Wire.encode]
    have size : (if text.length = 0 then 0 else cpEnvelope 1 text.length) =
        (InsertAst.PgString.mk (some text) 0 []).toWire.payload.length := by
      rw [payload]
      by_cases empty : text = []
      · rw [if_pos (List.length_eq_zero_iff.mpr empty), if_pos empty, List.length_nil]
      · rw [if_neg (mt List.length_eq_zero_iff.mp empty), if_neg empty, cpEnvelope_eq (by decide) rfl short]
    rw [size] at measured
    apply cellSizes_measures (InsertAst.PgString.toWire ⟨some text, 0, []⟩) rfl known present located (by decide)
      (by rw [isText, InsertAst.ConstValue.wire, Option.map_some, InsertAst.optional]) measured
    intro valueSize lengthSize
    simp only [writeValue, isText, lengthSize, List.length_eq_zero_iff]
    have inner : Writes (fun writer => if text = [] then writer else (writeHeader writer 1 text.length).copy text)
        (InsertAst.PgString.mk (some text) 0 []).toWire.payload := by
      rw [payload]
      by_cases empty : text = []
      · simp only [if_pos empty]
        exact Writes.nothing
      · simp only [if_neg empty]
        exact writes_enveloped (Writes.copy text) 1 rfl
    exact writes_enveloped inner 4 valueSize.symm
  next => cases measured

/-- A cell as an element of its row. -/
def cellContent (cell : Option InsertAst.CellNode) : Text :=
  (InsertAst.element (cell.map InsertAst.CellNode.toWire)).encode 1

theorem cellContent_some (node : InsertAst.CellNode) :
    cellContent (some node) = encodeEnvelope 1 (InsertAst.CellNode.toWire node).payload :=
  encode_isMessage (InsertAst.CellNode.toWire node) rfl 1

theorem measureCell_measures {cell : Option InsertAst.CellNode} {sizes : CellSizes}
    (measured : measureCell cell = some sizes) :
    cpEnvelope 1 sizes.node = (cellContent cell).length ∧ Writes (writeCell · cell) (cellContent cell) := by
  cases cell with
  | none => cases measured
  | some node =>
    simp only [writeCell, measured]
    rw [cellContent_some]
    rw [measureCell] at measured
    split at measured
    next =>
      obtain ⟨size, fits, rfl⟩ := Option.map_eq_some_iff.mp measured
      obtain ⟨short, rfl⟩ := capped_eq_some.mp fits
      refine ⟨cpEnvelope_eq (by decide) rfl short, ?_⟩
      simp only [if_true]
      exact writes_enveloped (writePacked_writes rfl) 1 rfl
    next =>
      rw [Option.ite_none_left_eq_some, not_not] at measured
      obtain ⟨known, measured⟩ := measured
      split at measured
      next constant isConstant =>
        have measures := measureConstant_measures measured
        have payload : (InsertAst.CellNode.toWire node).payload = encodeEnvelope 268 constant.toWire.payload := by
          rw [InsertAst.CellNode.toWire, Wire.payload, known, List.append_nil, isConstant, InsertAst.CellArm.wire,
            Option.map_some, InsertAst.optional, encodeFields_cons, encodeFields_nil, List.append_nil,
            encode_isMessage constant.toWire rfl]
        have nodeSize := measures.nodeSize
        rw [← payload] at nodeSize
        refine ⟨cpEnvelope_eq (by decide) nodeSize measures.nodeBound, ?_⟩
        simp only [measures.specialized, isConstant, Bool.false_eq_true, if_false]
        have inner := writes_enveloped measures.writes 268 measures.constantSize
        rw [← payload] at inner
        exact writes_enveloped inner 1 nodeSize
      next => cases measured

/-! ## Rows -/

theorem measureCells_measures {start size : Nat} {cells : List (Option InsertAst.CellNode)}
    (measured : measureCells start cells = some size) :
    size = start + (cells.flatMap cellContent).length ∧ (start ≤ uint32Max → size ≤ uint32Max) ∧
      Writes (cells.foldl writeCell ·) (cells.flatMap cellContent) := by
  induction cells generalizing start with
  | nil =>
    cases measured
    exact ⟨rfl, id, Writes.nothing⟩
  | cons cell cells inductionHypothesis =>
    simp only [measureCells, Option.bind_eq_bind, Option.bind_eq_some_iff, capped_eq_some] at measured
    obtain ⟨sizes, cellMeasured, _, ⟨short, rfl⟩, behind⟩ := measured
    obtain ⟨cellSize, cellWrites⟩ := measureCell_measures cellMeasured
    obtain ⟨size, bound, writes⟩ := inductionHypothesis behind
    rw [List.flatMap_cons, List.length_append]
    exact ⟨by omega, fun _ => bound short, cellWrites.comp writes⟩

/-- A row as an element of the VALUES. -/
def rowContent (row : Option InsertAst.RowNode) : Text :=
  (InsertAst.element (row.map InsertAst.RowNode.toWire)).encode 10

theorem PgList_payload (cells : List (Option InsertAst.CellNode)) :
    (InsertAst.PgList.mk (some cells) []).toWire.payload = cells.flatMap cellContent := by
  rw [InsertAst.PgList.toWire, Wire.payload, List.append_nil, Option.map_some, encode_repeated]
  rfl

theorem rowContent_list (cells : List (Option InsertAst.CellNode)) :
    rowContent (some ⟨.list (some ⟨some cells, []⟩), []⟩) =
      encodeEnvelope 10 (encodeEnvelope 265 (cells.flatMap cellContent)) := by
  have payload : (InsertAst.RowNode.toWire ⟨.list (some ⟨some cells, []⟩), []⟩).payload =
      encodeEnvelope 265 (cells.flatMap cellContent) := by
    rw [InsertAst.RowNode.toWire, Wire.payload, List.append_nil, InsertAst.RowArm.wire, Option.map_some,
      InsertAst.optional, encodeFields_cons, encodeFields_nil, List.append_nil, encode_isMessage _ rfl, PgList_payload]
  rw [rowContent, Option.map_some, InsertAst.element, encode_isMessage _ rfl, payload]

theorem rowCells_eq_some {columns : Nat} {row : Option InsertAst.RowNode} {cells : List (Option InsertAst.CellNode)}
    (found : rowCells columns row = some cells) : row = some ⟨.list (some ⟨some cells, []⟩), []⟩ := by
  rw [rowCells.eq_def] at found
  split at found
  next items listUnknown unknownFields =>
    rw [Option.ite_none_left_eq_some, not_or, not_or, not_not, not_not] at found
    obtain ⟨⟨rfl, rfl, _⟩, equal⟩ := found
    cases equal
    rfl
  next => cases found

theorem measureRows_measures {columns start size : Nat} {rows : List (Option InsertAst.RowNode)} {rowSizes : List Nat}
    (measured : measureRows columns start rows = some (rowSizes, size)) :
    size = start + (rows.flatMap rowContent).length ∧
      Writes (writeRows · rows rowSizes) (rows.flatMap rowContent) := by
  induction rows generalizing start rowSizes with
  | nil =>
    cases measured
    exact ⟨rfl, Writes.nothing⟩
  | cons row rows inductionHypothesis =>
    simp only [measureRows, Option.bind_eq_bind, Option.bind_eq_some_iff, capped_eq_some, Option.pure_def,
      Option.some.injEq, Prod.mk.injEq, Prod.exists] at measured
    obtain ⟨cells, found, rowSize, cellsMeasured, _, ⟨nodeShort, rfl⟩, _, ⟨short, rfl⟩, behindSizes, behindSize,
      behind, rfl, rfl⟩ := measured
    obtain rfl := rowCells_eq_some found
    obtain ⟨cellsSize, cellsBound, cellsWrites⟩ := measureCells_measures cellsMeasured
    obtain ⟨total, writes⟩ := inductionHypothesis behind
    rw [Nat.zero_add] at cellsSize
    have rowBound := cellsBound (Nat.zero_le _)
    have nodeSize := (cpEnvelope_eq (show 265 < 2 ^ 29 by decide) cellsSize.symm rowBound).symm
    have fits : cpEnvelope 265 rowSize % 2 ^ 32 = cpEnvelope 265 rowSize := by
      rw [uint32Max] at nodeShort
      exact Nat.mod_eq_of_lt (by omega)
    have rowWrites : Writes
        (writeRow · rowSize (some ⟨.list (some ⟨some cells, []⟩), []⟩))
        (rowContent (some ⟨.list (some ⟨some cells, []⟩), []⟩)) := by
      rw [rowContent_list]
      simp only [writeRow, fits]
      exact writes_enveloped (writes_enveloped cellsWrites 265 cellsSize.symm) 10 nodeSize
    rw [List.flatMap_cons, List.length_append]
    refine ⟨?_, rowWrites.comp writes⟩
    rw [total, rowContent_list, cpEnvelope_eq (show 10 < 2 ^ 29 by decide) nodeSize nodeShort, Nat.add_assoc]

/-! ## Columns -/

/-- A column as an element of the INSERT. -/
def columnContent (column : Option InsertAst.ColumnNode) : Text :=
  (InsertAst.element (column.map InsertAst.ColumnNode.toWire)).encode 2

theorem measureColumns_measures {start size : Nat} {columns : List (Option InsertAst.ColumnNode)}
    (measured : measureColumns start columns = some size) :
    size = start + (columns.flatMap columnContent).length ∧
      Writes (columns.foldl writeColumn ·) (columns.flatMap columnContent) := by
  induction columns generalizing start with
  | nil =>
    cases measured
    exact ⟨rfl, Writes.nothing⟩
  | cons column columns inductionHypothesis =>
    cases column with
    | none => cases measured
    | some column =>
      simp only [measureColumns, Option.bind_eq_bind, Option.bind_eq_some_iff, capped_eq_some] at measured
      obtain ⟨_, ⟨packedShort, rfl⟩, _, ⟨short, rfl⟩, behind⟩ := measured
      obtain ⟨size, writes⟩ := inductionHypothesis behind
      have content : columnContent (some column) = encodeEnvelope 2 (InsertAst.ColumnNode.toWire column).payload :=
        encode_isMessage (InsertAst.ColumnNode.toWire column) rfl 2
      have columnWrites : Writes (writeColumn · (some column)) (columnContent (some column)) := by
        rw [content]
        exact writeGeneric_writes 2 packedShort
      rw [List.flatMap_cons, List.length_append]
      refine ⟨?_, columnWrites.comp writes⟩
      rw [size, content, packedSize, cpEnvelope_eq (show 2 < 2 ^ 29 by decide) rfl packedShort, Nat.add_assoc]

/-! ## The statement -/

theorem SelectStmt_payload {select : InsertAst.SelectStmt} {rows : List (Option InsertAst.RowNode)}
    (known : select.unknownFields = []) (defaults : select.valuesDefaults = true) (listed : select.valuesLists = some rows) :
    select.toWire.payload = rows.flatMap rowContent ++ encodeScalar 14 select.limitOption.number ++
      encodeScalar 17 select.op.number := by
  simp only [InsertAst.SelectStmt.valuesDefaults, Bool.and_eq_true, Bool.not_eq_true', Option.isNone_iff_eq_none,
    decide_eq_true_eq] at defaults
  have styleOmitted : (Wire.varint InsertAst.LimitClauseStyle.default.number).encode 25 = [] := by
    rw [Wire.encode]
    rfl
  rw [InsertAst.SelectStmt.toWire, Wire.payload, known, listed, Option.map_some]
  simp only [defaults, InsertAst.Messages.wire, InsertAst.optional_none, InsertAst.repeated_none, Option.map_none,
    List.append_nil, List.nil_append, encodeFields_append, encodeFields_cons, encodeFields_nil, encode_false,
    styleOmitted, encode_repeated]
  rw [Wire.encode, Wire.encode]
  rfl

/-- The clauses of an INSERT that the packer accepts. -/
theorem InsertStmt_payload {insert : InsertAst.InsertStmt} {relation : InsertAst.RangeVar}
    {columns : List (Option InsertAst.ColumnNode)} {select : InsertAst.SelectStmt} (known : insert.unknownFields = [])
    (found : certifiedClauses insert = some (relation, columns, select)) :
    select.unknownFields = [] ∧
    insert.toWire.payload = encodeEnvelope 1 relation.toWire.payload ++ columns.flatMap columnContent ++
      encodeEnvelope 3 (encodeEnvelope 136 select.toWire.payload) ++ encodeScalar 7 insert.override.number := by
  rw [certifiedClauses, Option.ite_none_left_eq_some] at found
  obtain ⟨plain, found⟩ := found
  simp only [not_or, Bool.not_eq_true, Option.isSome_eq_false_iff, Option.isNone_iff_eq_none] at plain
  obtain ⟨noConflict, noReturning, noWith, _⟩ := plain
  split at found
  next first second third isRelation isColumns isSource =>
    rw [Option.ite_none_left_eq_some, not_or, not_or, not_not, not_not] at found
    obtain ⟨⟨_, rfl, selectKnown⟩, equal⟩ := found
    cases equal
    have source : (InsertAst.SourceNode.toWire ⟨.selectStmt (some select), []⟩).payload =
        encodeEnvelope 136 select.toWire.payload := by
      rw [InsertAst.SourceNode.toWire, Wire.payload, List.append_nil, InsertAst.SourceArm.wire, Option.map_some,
        InsertAst.optional, encodeFields_cons, encodeFields_nil, List.append_nil, encode_isMessage select.toWire rfl]
    refine ⟨selectKnown, ?_⟩
    rw [InsertAst.InsertStmt.toWire, Wire.payload, known, isRelation, isColumns, isSource, noConflict, noReturning, noWith]
    simp only [Option.map_some, Option.map_none, InsertAst.Messages.wire, InsertAst.optional_none,
      InsertAst.optional_some, InsertAst.repeated_none, List.append_nil, encodeFields_append, encodeFields_cons,
      encodeFields_nil, encode_repeated, encode_isMessage relation.toWire rfl,
      encode_isMessage (InsertAst.SourceNode.toWire ⟨.selectStmt (some select), []⟩) rfl, source]
    rw [Wire.encode]
    rfl
  next => cases found

theorem RawStmt_payload {raw : InsertAst.RawStmt} {insert : InsertAst.InsertStmt} (known : raw.unknownFields = [])
    (atStart : raw.stmtLocation = 0) (natural : 0 ≤ raw.stmtLen.toInt) (found : certifiedStatement raw = some insert) :
    insert.unknownFields = [] ∧
    raw.toWire.payload = encodeEnvelope 1 (encodeEnvelope 132 insert.toWire.payload) ++
      encodeScalar 3 (InsertAst.uint32 raw.stmtLen) := by
  rw [certifiedStatement] at found
  split at found
  next held unknownFields isInsert =>
    rw [Option.ite_none_left_eq_some, not_or, not_not, not_not] at found
    obtain ⟨⟨rfl, insertKnown⟩, equal⟩ := found
    cases equal
    have statement : (InsertAst.StatementNode.toWire ⟨.insertStmt (some insert), []⟩).payload =
        encodeEnvelope 132 insert.toWire.payload := by
      rw [InsertAst.StatementNode.toWire, Wire.payload, List.append_nil, InsertAst.StatementArm.wire, Option.map_some,
        InsertAst.optional_some, encodeFields_cons, encodeFields_nil, List.append_nil, encode_isMessage insert.toWire rfl]
    refine ⟨insertKnown, ?_⟩
    rw [InsertAst.RawStmt.toWire, Wire.payload, known, isInsert, atStart, Option.map_some, InsertAst.optional_some,
      List.append_nil, encodeFields_append, encodeFields_cons, encodeFields_nil, List.append_nil, encodeFields_cons,
      encodeFields_cons, encodeFields_nil, List.append_nil, encode_zero, List.nil_append, int32_encode natural,
      encode_isMessage (InsertAst.StatementNode.toWire ⟨.insertStmt (some insert), []⟩) rfl, statement]
  next => cases found

theorem ParseResult_packed {machine : PackMachine} {ast : InsertAst.ParseResult} {raw : InsertAst.RawStmt}
    (found : certifiedRaw machine ast = some raw) :
    raw.unknownFields = [] ∧ raw.stmtLocation = 0 ∧ 0 ≤ raw.stmtLen.toInt ∧
    ast.packed = encodeScalar 1 (InsertAst.uint32 ast.version) ++ encodeEnvelope 2 raw.toWire.payload := by
  rw [certifiedRaw, Option.ite_none_left_eq_some, not_or, not_or, not_not, not_lt] at found
  obtain ⟨⟨_, known, natural⟩, found⟩ := found
  split at found
  next single isSingle =>
    rw [Option.ite_none_left_eq_some, not_or, not_or, not_not, not_not, not_lt] at found
    obtain ⟨⟨rawKnown, atStart, lengthNatural⟩, equal⟩ := found
    cases equal
    refine ⟨rawKnown, atStart, lengthNatural, ?_⟩
    rw [InsertAst.ParseResult.packed, InsertAst.ParseResult.toWire, Wire.payload, known, isSingle, Option.map_some,
      List.append_nil, encodeFields_append, encodeFields_cons, encodeFields_nil, List.append_nil, encode_repeated,
      List.flatMap_singleton, Option.map_some, InsertAst.element, encode_isMessage raw.toWire rfl, int32_encode natural]
  next => cases found

/-! ## The packer -/

theorem certifiedRows_eq_some {machine : PackMachine} {select : InsertAst.SelectStmt}
    {rows : List (Option InsertAst.RowNode)} (found : certifiedRows machine select = some rows) :
    select.valuesDefaults = true ∧ select.valuesLists = some rows := by
  rw [certifiedRows, Option.ite_none_left_eq_some, Bool.not_eq_false] at found
  obtain ⟨defaults, found⟩ := found
  split at found
  next => cases found
  next listed isListed =>
    rw [Option.ite_none_left_eq_some] at found
    obtain ⟨_, equal⟩ := found
    cases equal
    exact ⟨defaults, isListed⟩

theorem measureInsert_measures {machine : PackMachine} {ast : InsertAst.ParseResult} {parts : InsertParts}
    {sizes : InsertSizes} (found : insertParts machine ast = some parts)
    (measured : measureInsert machine parts = some sizes) :
    sizes.total = ast.packed.length ∧ Writes (writeInsert parts sizes) ast.packed := by
  simp only [insertParts, Option.bind_eq_bind, Option.bind_eq_some_iff, Option.pure_def, Option.some.injEq,
    Prod.exists] at found
  obtain ⟨raw, rawFound, insert, insertFound, relation, columns, select, clausesFound, rows, rowsFound, rfl⟩ := found
  obtain ⟨rawKnown, atStart, natural, packed⟩ := ParseResult_packed rawFound
  obtain ⟨insertKnown, rawPayload⟩ := RawStmt_payload rawKnown atStart natural insertFound
  obtain ⟨selectKnown, insertPayload⟩ := InsertStmt_payload insertKnown clausesFound
  obtain ⟨defaults, listed⟩ := certifiedRows_eq_some rowsFound
  have selectPayload := SelectStmt_payload selectKnown defaults listed
  simp only [measureInsert, measureValues, Option.bind_eq_bind, Option.bind_eq_some_iff, capped_eq_some, Option.pure_def,
    Option.ite_none_right_eq_some, Option.ite_none_left_eq_some, Option.some.injEq, Prod.exists] at measured
  obtain ⟨_, ⟨relationShort, rfl⟩, prefixSize, columnsMeasured, rowSizes, values, ⟨_, rowsMeasured⟩, selectSize,
    ⟨selectShort, selectSum⟩, selectNode, ⟨selectNodeShort, selectNodeSum⟩, insertSize, ⟨insertShort, insertSum⟩,
    insertNode, ⟨insertNodeShort, insertNodeSum⟩, rawSize, ⟨rawShort, rawSum⟩, total, ⟨_, totalSum⟩, _, rfl⟩ := measured
  obtain ⟨columnsSize, columnsWrite⟩ := measureColumns_measures columnsMeasured
  obtain ⟨rowsSize, rowsWrite⟩ := measureRows_measures rowsMeasured
  -- the sizes from the inside out, each of them the length of the content that it announces
  have limitSize : cpScalarSize 14 select.limitOption.number = (encodeScalar 14 select.limitOption.number).length :=
    cpScalarSize_eq (by decide) (by cases select.limitOption <;> decide)
  have opSize : cpScalarSize 17 select.op.number = (encodeScalar 17 select.op.number).length :=
    cpScalarSize_eq (by decide) (by cases select.op <;> decide)
  have overrideSize : cpScalarSize 7 insert.override.number = (encodeScalar 7 insert.override.number).length :=
    cpScalarSize_eq (by decide) (by cases insert.override <;> decide)
  have selectLength : select.toWire.payload.length = selectSize := by
    rw [selectPayload, List.length_append, List.length_append, ← limitSize, ← opSize]
    omega
  have selectNodeLength : (encodeEnvelope 136 select.toWire.payload).length = selectNode := by
    rw [← selectNodeSum, cpEnvelope_eq (by decide) selectLength selectShort]
  have insertLength : insert.toWire.payload.length = insertSize := by
    rw [insertPayload, List.length_append, List.length_append, List.length_append, ← overrideSize, ← insertSum,
      cpEnvelope_eq (by decide) selectNodeLength selectNodeShort, columnsSize, packedSize,
      cpEnvelope_eq (by decide) rfl relationShort]
  have insertNodeLength : (encodeEnvelope 132 insert.toWire.payload).length = insertNode := by
    rw [← insertNodeSum, cpEnvelope_eq (by decide) insertLength insertShort]
  have rawLength : raw.toWire.payload.length = rawSize := by
    rw [rawPayload, List.length_append, ← rawSum, cpEnvelope_eq (by decide) insertNodeLength insertNodeShort,
      cpScalarSize_eq (by decide) (uint32_le raw.stmtLen)]
  constructor
  · rw [packed, List.length_append, ← totalSum, cpEnvelope_eq (by decide) rawLength rawShort,
      cpScalarSize_eq (by decide) (uint32_le ast.version)]
  · have selectWrites := (rowsWrite.comp (writeScalar_writes 14 select.limitOption.number)).comp
      (writeScalar_writes 17 select.op.number)
    rw [← selectPayload] at selectWrites
    have sourceWrites := writes_enveloped (writes_enveloped selectWrites 136 selectLength) 3 selectNodeLength
    have insertWrites := (((writeGeneric_writes 1 relationShort).comp columnsWrite).comp sourceWrites).comp
      (writeScalar_writes 7 insert.override.number)
    rw [← insertPayload] at insertWrites
    have rawWrites := (writes_enveloped (writes_enveloped insertWrites 132 insertLength) 1 insertNodeLength).comp
      (writeScalar_writes 3 (InsertAst.uint32 raw.stmtLen))
    rw [← rawPayload] at rawWrites
    have whole := (writeScalar_writes 1 (InsertAst.uint32 ast.version)).comp (writes_enveloped rawWrites 2 rawLength)
    rw [← packed] at whole
    exact whole

/-- The packer returns the canonical encoding of each tree that it measures in a buffer of exactly its size, and declines
every other tree and returns nothing. The exit for a size that is wrong is not reached. -/
theorem packCertifiedInsert_canonical (machine : PackMachine) (ast : InsertAst.ParseResult) :
    (∀ parts sizes, insertParts machine ast = some parts → measureInsert machine parts = some sizes →
      sizes.total = ast.packed.length ∧
      writeInsert parts sizes ⟨[], sizes.total, false⟩ = ⟨ast.packed, sizes.total, false⟩) ∧
    ((packCertifiedInsert machine ast).handled = true ↔
      ∃ parts sizes, insertParts machine ast = some parts ∧ measureInsert machine parts = some sizes) ∧
    ((packCertifiedInsert machine ast).handled = true →
      packCertifiedInsert machine ast = ⟨.ok, true, some ast.packed, ast.packed.length⟩ ∨
      packCertifiedInsert machine ast = ⟨.noMemory, true, none, 0⟩ ∧ machine.output ast.packed.length = false) ∧
    ((packCertifiedInsert machine ast).handled = false → packCertifiedInsert machine ast = ⟨.ok, false, none, 0⟩) ∧
    (packCertifiedInsert machine ast).status ≠ .internalError := by
  have passes (parts : InsertParts) (sizes : InsertSizes) (found : insertParts machine ast = some parts)
      (measured : measureInsert machine parts = some sizes) : sizes.total = ast.packed.length ∧
        writeInsert parts sizes ⟨[], sizes.total, false⟩ = ⟨ast.packed, sizes.total, false⟩ := by
    obtain ⟨size, writes⟩ := measureInsert_measures found measured
    rw [size]
    exact ⟨rfl, writes.fills⟩
  refine ⟨passes, ?_⟩
  cases found : insertParts machine ast with
  | none =>
    have result : packCertifiedInsert machine ast = declined := by rw [packCertifiedInsert, found]
    rw [result]
    simp [declined]
  | some parts =>
    cases measured : measureInsert machine parts with
    | none =>
      have result : packCertifiedInsert machine ast = declined := by simp only [packCertifiedInsert, found, measured]
      rw [result]
      simp [declined, measured]
    | some sizes =>
      obtain ⟨size, written⟩ := passes parts sizes found measured
      rw [size] at written
      cases served : machine.output ast.packed.length with
      | false =>
        have result : packCertifiedInsert machine ast = ⟨.noMemory, true, none, 0⟩ := by
          simp only [packCertifiedInsert, found, measured, size, served, if_true]
        rw [result]
        simp [measured]
      | true =>
        have result : packCertifiedInsert machine ast = ⟨.ok, true, some ast.packed, ast.packed.length⟩ := by
          simp only [packCertifiedInsert, found, measured, size, served, written, Writer.full]
          simp
        rw [result]
        simp [measured]

/-- The tree of `INSERT INTO t(a) VALUES('x')`. -/
def packedExample : InsertAst.ParseResult :=
  let relation : InsertAst.RangeVar := ⟨some [], some [], some (ascii "t"), true, some (ascii "p"), none, 12, []⟩
  let column : InsertAst.ColumnNode := ⟨.resTarget (some ⟨some (ascii "a"), none, none, 14, []⟩), []⟩
  let cell : InsertAst.CellNode := ⟨.aConst (some ⟨.sval (some ⟨some (ascii "x"), 0, []⟩), false, 24, []⟩), []⟩
  let row : InsertAst.RowNode := ⟨.list (some ⟨some [some cell], []⟩), []⟩
  let select : InsertAst.SelectStmt :=
    ⟨none, none, none, none, none, none, false, none, none, some [some row], none, none, none, .default, none, none,
      .none, false, none, none, none, none, false, false, .default, []⟩
  let insert : InsertAst.InsertStmt :=
    ⟨some relation, some [some column], some ⟨.selectStmt (some select), []⟩, none, none, none, .notSet, []⟩
  ⟨170004, some [some ⟨some ⟨.insertStmt (some insert), []⟩, 0, 0, []⟩], []⟩

theorem packCertifiedInsert_canonical_one_cell :
    let machine : PackMachine := ⟨fun _ => true, fun _ => true, 2 ^ 64 - 1, 2 ^ 63 - 1, true⟩
    packCertifiedInsert machine packedExample = ⟨.ok, true, some packedExample.packed, 62⟩ := by
  intro machine
  have handled : (packCertifiedInsert machine packedExample).handled = true := by decide +kernel
  have length : packedExample.packed.length = 62 := by decide +kernel
  rw [← length]
  exact ((packCertifiedInsert_canonical machine packedExample).2.2.1 handled).resolve_right fun refused => nomatch refused.2

end SqlParser.Core
