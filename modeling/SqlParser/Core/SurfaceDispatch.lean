import SqlParser.Core.AstSurface

/-! # The dispatch of the surface traversal on a Node

`sqlparser_dialect_ast_surface_visit_generic` takes the active alternative of a Node by its
number where the scan of the descriptor goes over all its fields. A visitor may change the
messages while they are visited, so the traversal is a function of the memory, and both loops
read the discriminator again after each child.
-/

namespace SqlParser.Core.SurfaceDispatch

/-! ## Descriptors -/

/-- `ProtobufCIntRange` -/
structure IntRange where
  startValue : Int
  origIndex : Nat
  deriving DecidableEq, Repr

/-- `int_range_lookup` -/
def intRangeLookup (ranges : Nat → IntRange) (value : Int) (start n : Nat) : Int :=
  if 1 < n then
    let mid := start + n / 2
    let size : Int := (ranges (mid + 1)).origIndex - (ranges mid).origIndex
    if value < (ranges mid).startValue then
      intRangeLookup ranges value start (mid - start)
    else if (ranges mid).startValue + size ≤ value then
      intRangeLookup ranges value (mid + 1) (start + n - (mid + 1))
    else
      value - (ranges mid).startValue + (ranges mid).origIndex
  else if 0 < n then
    let size : Int := (ranges (start + 1)).origIndex - (ranges start).origIndex
    if (ranges start).startValue ≤ value ∧ value < (ranges start).startValue + size then
      value - (ranges start).startValue + (ranges start).origIndex
    else
      -1
  else
    -1
termination_by n
decreasing_by all_goals omega

/-- The types that a field has for the traversal: `PROTOBUF_C_TYPE_MESSAGE` and the other ones. -/
inductive FieldType where
  | message
  | scalar
  deriving DecidableEq, Repr

/-- `ProtobufCLabel` -/
inductive Label where
  | required
  | optional
  | repeated
  | none
  deriving DecidableEq, Repr

/-- A place in a message. The alternatives of a oneof share theirs. -/
inductive Offset where
  | field (name : Field)
  | count (name : Field)
  | nodeCase
  | valCase
  | other (offset : Nat)
  deriving DecidableEq, Repr

/-- `ProtobufCFieldDescriptor` -/
structure FieldDescriptor where
  id : BitVec 32
  label : Label
  type : FieldType
  quantifierOffset : Offset
  offset : Offset
  oneof : Bool
  deriving DecidableEq, Repr

/-- `ProtobufCMessageDescriptor`, with the lookup of a field by its number. -/
structure MessageDescriptor where
  fields : List FieldDescriptor
  /-- `protobuf_c_message_descriptor_get_field`, with the index of the field -/
  getField : BitVec 32 → Option Nat
  getField_eq_some : ∀ value index,
    getField value = some index ↔ ∃ field, fields[index]? = some field ∧ field.id = value

/-- `pg_query__node__descriptor`: message-valued alternatives of one oneof. -/
structure NodeDescriptor extends MessageDescriptor where
  alternative : ∀ field ∈ fields,
    field.type = .message ∧ field.label ≠ .repeated ∧ field.oneof = true ∧ field.quantifierOffset = .nodeCase

/-- The generated descriptors, which are told by their addresses. -/
inductive DescriptorName where
  | node
  | aConst
  | paramRef
  | rangeVar
  | rangeSubselect
  | selectStmt
  | insertStmt
  | updateStmt
  | deleteStmt
  | mergeStmt
  | joinExpr
  | resTarget
  | viewStmt
  | createTableAsStmt
  | other (number : Nat)
  deriving DecidableEq, Repr

structure Schema where
  node : NodeDescriptor
  others : DescriptorName → MessageDescriptor

def Schema.descriptor (schema : Schema) : DescriptorName → MessageDescriptor
  | .node => schema.node.toMessageDescriptor
  | name => schema.others name

/-! ## Memory and visitors -/

abbrev Address := Nat

/-- The messages and arrays that the traversal reads. -/
structure Memory where
  descriptor : Address → Option DescriptorName
  /-- The discriminator of a oneof -/
  word : Address → Offset → BitVec 32
  count : Address → Offset → Nat
  pointer : Address → Offset → Option Address
  /-- `items[index]` -/
  element : Address → Nat → Option Address
  op : Address → SetOperation
  limitClauseStyle : Address → LimitClauseStyle

/-- The memory together with the context of the visitor. -/
structure World (σ : Type) where
  memory : Memory
  context : σ

/-- A part of the traversal, which may not return. -/
abbrev Walk (σ : Type) := World σ → Option (World σ)

abbrev Callback (σ : Type) := Address → Nat → World σ → World σ

/-- `sqlparser_dialect_ast_surface_visitor_t` -/
structure Visitor (σ : Type) where
  stringLiteral : Option (Callback σ)
  paramRef : Option (Callback σ)
  relation : Option (Callback σ)
  derivedRelation : Option (Callback σ)
  insertRelation : Option (Callback σ)
  join : Option (Callback σ)
  selectLimit : Option (Callback σ)
  setOperation : Option (Callback σ)

variable {σ : Type}

/-- The call of a callback that is there. -/
def call (callback : Option (Callback σ)) (message : Address) (statementIndex : Nat) : Walk σ :=
  fun world => some (callback.elim world fun callback => callback message statementIndex world)

/-! ## The traversal

The visit of a child is a parameter of the parts that call it. -/

section parts

variable (visit : Option Address → Walk σ)

/-- The visit of the message in a field -/
def visitField (message : Address) (field : Field) : Walk σ :=
  fun world => visit (world.memory.pointer message (.field field)) world

/-- The elements from an index on -/
def visitItems (items : Option Address) : (index left : Nat) → Walk σ
  | _, 0 => some
  | index, left + 1 =>
    (fun world => visit (items.bind (world.memory.element · index)) world) >=> visitItems items (index + 1) left

/-- `sqlparser_dialect_ast_surface_visit_node_array`, on the array in a field -/
def visitNodeArray (message : Address) (field : Field) : Walk σ :=
  fun world =>
    visitItems visit (world.memory.pointer message (.field field)) 0 (world.memory.count message (.count field)) world

/-- One turn of the scan of the fields -/
def visitFieldDescriptor (message : Address) (field : FieldDescriptor) : Walk σ :=
  fun world =>
    if field.type ≠ .message then
      some world
    else if field.label = .repeated then
      visitItems visit (world.memory.pointer message field.offset) 0 (world.memory.count message field.quantifierOffset)
        world
    else if field.oneof ∧ (world.memory.word message field.quantifierOffset).toInt ≠ field.id.toInt then
      some world
    else
      visit (world.memory.pointer message field.offset) world

/-- The scan of the fields of a descriptor -/
def scanFields (message : Address) : List FieldDescriptor → Walk σ
  | [] => some
  | field :: fields => visitFieldDescriptor visit message field >=> scanFields message fields

/-- The loop of a Node, from an alternative that is not before `nextField` -/
def dispatchNode (descriptor : MessageDescriptor) (node : Address) (nextField : Nat) (nodeCase : BitVec 32) : Walk σ :=
  fun world =>
    match found : descriptor.getField nodeCase with
    | none => some world
    | some selectedField =>
      if selectedField < nextField then
        some world
      else
        have inside : selectedField < descriptor.fields.length := by
          obtain ⟨field, listed, -⟩ := (descriptor.getField_eq_some nodeCase selectedField).mp found
          exact (List.getElem?_eq_some_iff.mp listed).1
        (visit (world.memory.pointer node descriptor.fields[selectedField].offset) world).bind fun world =>
          if world.memory.word node .nodeCase = nodeCase then
            some world
          else
            dispatchNode descriptor node (selectedField + 1) (world.memory.word node .nodeCase) world
termination_by descriptor.fields.length - nextField

/-- `sqlparser_dialect_ast_surface_visit_generic`; `dispatch` is that `SQLPARSER_DISABLE_SURFACE_NODE_DISPATCH` is not
defined. -/
def visitGeneric (schema : Schema) (dispatch : Bool) (message : Address) : Walk σ :=
  fun world =>
    match world.memory.descriptor message with
    | none => some world
    | some name =>
      if dispatch ∧ name = .node then
        dispatchNode visit (schema.descriptor name) message 0 (world.memory.word message .nodeCase) world
      else
        scanFields visit message (schema.descriptor name).fields world

end parts

section statements

variable (visit : Option Address → Walk σ) (generic : Address → Walk σ) (visitor : Visitor σ) (statementIndex : Nat)

/-- `sqlparser_dialect_ast_surface_visit_select` -/
def visitSelect (select : Address) : Walk σ :=
  visitField visit select .withClause >=>
  (fun world =>
    if world.memory.op select ≠ .none then
      (visitField visit select .larg >=>
        call visitor.setOperation select statementIndex >=>
        visitField visit select .rarg) world
    else
      (visitNodeArray visit select .distinctClause >=>
        visitNodeArray visit select .targetList >=>
        visitField visit select .intoClause >=>
        visitNodeArray visit select .fromClause >=>
        visitField visit select .whereClause >=>
        visitField visit select .startWithClause >=>
        visitField visit select .connectByClause >=>
        visitNodeArray visit select .groupClause >=>
        visitField visit select .havingClause >=>
        visitNodeArray visit select .windowClause >=>
        visitNodeArray visit select .valuesLists) world) >=>
  visitNodeArray visit select .sortClause >=>
  (fun world =>
    if world.memory.pointer select (.field .limitCount) ≠ none ∧ world.memory.limitClauseStyle select = .limit then
      call visitor.selectLimit select statementIndex world
    else
      some world) >=>
  visitField visit select .limitCount >=>
  visitField visit select .limitOffset >=>
  visitNodeArray visit select .lockingClause

/-- The relation of an INSERT, which is announced by its own call and read again behind it. -/
def visitInsertRelation (insert : Address) : Walk σ :=
  fun world =>
    match world.memory.pointer insert (.field .relation) with
    | none => some world
    | some relation =>
      (call visitor.insertRelation relation statementIndex >=>
        fun world => (world.memory.pointer insert (.field .relation)).elim (some world) (generic · world)) world

/-- `sqlparser_dialect_ast_surface_visit_insert` -/
def visitInsert (insert : Address) : Walk σ :=
  visitField visit insert .withClause >=>
  visitInsertRelation generic visitor statementIndex insert >=>
  visitNodeArray visit insert .cols >=>
  visitField visit insert .selectStmt >=>
  visitField visit insert .onConflictClause >=>
  visitNodeArray visit insert .returningList

/-- `sqlparser_dialect_ast_surface_visit_update` -/
def visitUpdate (update : Address) : Walk σ :=
  visitField visit update .withClause >=>
  visitField visit update .relation >=>
  visitNodeArray visit update .targetList >=>
  visitNodeArray visit update .fromClause >=>
  visitField visit update .whereClause >=>
  visitNodeArray visit update .returningList

/-- `sqlparser_dialect_ast_surface_visit_delete` -/
def visitDelete (deleteStmt : Address) : Walk σ :=
  visitField visit deleteStmt .withClause >=>
  visitField visit deleteStmt .relation >=>
  visitNodeArray visit deleteStmt .usingClause >=>
  visitField visit deleteStmt .whereClause >=>
  visitNodeArray visit deleteStmt .returningList

/-- `sqlparser_dialect_ast_surface_visit_merge` -/
def visitMerge (merge : Address) : Walk σ :=
  visitField visit merge .withClause >=>
  visitField visit merge .relation >=>
  visitField visit merge .sourceRelation >=>
  visitField visit merge .joinCondition >=>
  visitNodeArray visit merge .mergeWhenClauses >=>
  visitNodeArray visit merge .returningList

/-- `sqlparser_dialect_ast_surface_visit_join` -/
def visitJoin (join : Address) : Walk σ :=
  visitField visit join .larg >=>
  call visitor.join join statementIndex >=>
  visitField visit join .rarg >=>
  visitNodeArray visit join .usingClause >=>
  visitField visit join .joinUsingAlias >=>
  visitField visit join .quals >=>
  visitField visit join .alias

/-- `sqlparser_dialect_ast_surface_visit_res_target` -/
def visitResTarget (target : Address) : Walk σ :=
  visitField visit target .val >=>
  visitNodeArray visit target .indirection

/-- `PG_QUERY__A__CONST__VAL_SVAL` -/
def valSval : BitVec 32 := 4

/-- `PG_QUERY__A__CONST__VAL_BSVAL` -/
def valBsval : BitVec 32 := 5

/-- A literal whose value is a string or a bit string -/
def isStringLiteral (memory : Memory) (literal : Address) : Bool :=
  (memory.word literal .valCase = valSval && (memory.pointer literal (.field .sval)).isSome) ||
    (memory.word literal .valCase = valBsval && (memory.pointer literal (.field .bsval)).isSome)

/-- `sqlparser_dialect_ast_surface_visit_message`, on a message that is there -/
def messageVisit (message : Address) : Walk σ :=
  fun world =>
    match world.memory.descriptor message with
    | some .aConst =>
      if isStringLiteral world.memory message then call visitor.stringLiteral message statementIndex world else some world
    | some .paramRef => call visitor.paramRef message statementIndex world
    | some .rangeVar => (call visitor.relation message statementIndex >=> generic message) world
    | some .rangeSubselect => (call visitor.derivedRelation message statementIndex >=> generic message) world
    | some .selectStmt => visitSelect visit visitor statementIndex message world
    | some .insertStmt => visitInsert visit generic visitor statementIndex message world
    | some .updateStmt => visitUpdate visit message world
    | some .deleteStmt => visitDelete visit message world
    | some .mergeStmt => visitMerge visit message world
    | some .joinExpr => visitJoin visit visitor statementIndex message world
    | some .resTarget => visitResTarget visit message world
    | some .viewStmt =>
      (visitField visit message .view >=>
        visitNodeArray visit message .aliases >=>
        visitField visit message .query >=>
        visitNodeArray visit message .options) world
    | some .createTableAsStmt => (visitField visit message .into >=> visitField visit message .query) world
    | _ => generic message world

end statements

/-- `sqlparser_dialect_ast_surface_visit_message`, down to a depth of the recursion -/
def visitMessage (schema : Schema) (visitor : Visitor σ) (statementIndex : Nat) (dispatch : Bool) :
    (depth : Nat) → Option Address → Walk σ
  | _, none => some
  | 0, some _ => fun _ => none
  | depth + 1, some message =>
    let visit := visitMessage schema visitor statementIndex dispatch depth
    messageVisit visit (visitGeneric visit schema dispatch) visitor statementIndex message

/-! ## The lookup of a number -/

/-- The ranges of the numbers of some fields, with the dummy range behind the last one. -/
structure FieldRanges (fields : List FieldDescriptor) where
  count : Nat
  ranges : Nat → IntRange
  first : (ranges 0).origIndex = 0
  last : (ranges count).origIndex = fields.length
  apart : ∀ index, index + 1 < count →
    (ranges index).startValue + ((ranges (index + 1)).origIndex - (ranges index).origIndex) ≤ (ranges (index + 1)).startValue
  ordered : ∀ index < count, (ranges index).origIndex ≤ (ranges (index + 1)).origIndex
  number : ∀ index < count, ∀ offset, (ranges index).origIndex + offset < (ranges (index + 1)).origIndex →
    ∃ field, fields[(ranges index).origIndex + offset]? = some field ∧
      field.id.toInt = (ranges index).startValue + offset

namespace FieldRanges

variable {fields : List FieldDescriptor} (table : FieldRanges fields) {value : Int} {index start n : Nat}

/-- The number belongs to a range. -/
def Covers (index : Nat) (value : Int) : Prop :=
  (table.ranges index).startValue ≤ value ∧
    value < (table.ranges index).startValue + ((table.ranges (index + 1)).origIndex - (table.ranges index).origIndex)

/-- A range ends before a later one starts. -/
theorem apart_of_lt {later : Nat} (before : index < later) (inside : later < table.count) :
    (table.ranges index).startValue + ((table.ranges (index + 1)).origIndex - (table.ranges index).origIndex) ≤
      (table.ranges later).startValue := by
  induction later with
  | zero => omega
  | succ later inductionHypothesis =>
    have step := table.apart later inside
    obtain rfl | earlier := Nat.lt_succ_iff_lt_or_eq.mp before |>.symm
    · exact step
    · have order := table.ordered later (by omega)
      have := inductionHypothesis earlier (by omega)
      omega

/-- A number belongs to one range. -/
theorem Covers.unique {table : FieldRanges fields} {other : Nat} (covers : table.Covers index value)
    (inside : index < table.count) (otherCovers : table.Covers other value) (otherInside : other < table.count) :
    index = other := by
  obtain ⟨starts, ends⟩ := covers
  obtain ⟨otherStarts, otherEnds⟩ := otherCovers
  obtain before | same | behind := lt_trichotomy index other
  · have := table.apart_of_lt before otherInside
    omega
  · exact same
  · have := table.apart_of_lt behind inside
    omega

theorem Covers.start_le {table : FieldRanges fields} {other : Nat} (covers : table.Covers index value)
    (inside : index < table.count) (notBehind : other ≤ index) : (table.ranges other).startValue ≤ value := by
  obtain ⟨starts, ends⟩ := covers
  obtain rfl | before := notBehind.eq_or_lt
  · exact starts
  · have := table.apart_of_lt before inside
    have := table.ordered other (by omega)
    omega

theorem Covers.lt_end {table : FieldRanges fields} {other : Nat} (covers : table.Covers index value)
    (inside : other < table.count) (notBefore : index ≤ other) :
    value < (table.ranges other).startValue +
      ((table.ranges (other + 1)).origIndex - (table.ranges other).origIndex) := by
  obtain ⟨starts, ends⟩ := covers
  obtain rfl | before := notBefore.eq_or_lt
  · exact ends
  · have := table.apart_of_lt before inside
    have := table.ordered other inside
    omega

theorem intRangeLookup_covers (covers : table.Covers index value) (notBefore : start ≤ index) (below : index < start + n)
    (inside : start + n ≤ table.count) :
    intRangeLookup table.ranges value start n = value - (table.ranges index).startValue + (table.ranges index).origIndex := by
  obtain ⟨starts, ends⟩ := id covers
  induction start, n using intRangeLookup.induct table.ranges value with
  | case1 start n many mid smaller inductionHypothesis =>
    rw [intRangeLookup, if_pos many, if_pos smaller]
    have middle : mid = start + n / 2 := rfl
    refine inductionHypothesis notBefore ?_ (by omega)
    by_contra later
    exact absurd smaller (not_lt.mpr (covers.start_le (by omega) (by omega)))
  | case2 start n many mid size notSmaller larger inductionHypothesis =>
    rw [intRangeLookup, if_pos many, if_neg notSmaller, if_pos larger]
    have middle : mid = start + n / 2 := rfl
    refine inductionHypothesis ?_ (by omega) (by omega)
    by_contra earlier
    exact absurd larger (not_le.mpr (covers.lt_end (by omega) (by omega)))
  | case3 start n many mid size notSmaller notLarger =>
    rw [intRangeLookup, if_pos many, if_neg notSmaller, if_neg notLarger]
    have same : mid = index :=
      Covers.unique ⟨by omega, by omega⟩ (by omega) covers (by omega)
    rw [← same]
  | case4 start n notMany single size found =>
    obtain rfl : start = index := by omega
    rw [intRangeLookup, if_neg notMany, if_pos single, if_pos found]
  | case5 start n notMany single size notFound =>
    obtain rfl : start = index := by omega
    exact absurd ⟨starts, ends⟩ notFound
  | case6 start n notMany notSingle => omega

theorem intRangeLookup_missing (missing : ∀ index < table.count, ¬ table.Covers index value)
    (inside : start + n ≤ table.count) : intRangeLookup table.ranges value start n = -1 := by
  induction start, n using intRangeLookup.induct table.ranges value with
  | case1 start n many mid smaller inductionHypothesis =>
    rw [intRangeLookup, if_pos many, if_pos smaller]
    exact inductionHypothesis (by omega)
  | case2 start n many mid size notSmaller larger inductionHypothesis =>
    rw [intRangeLookup, if_pos many, if_neg notSmaller, if_pos larger]
    exact inductionHypothesis (by omega)
  | case3 start n many mid size notSmaller notLarger =>
    exact absurd ⟨by omega, by omega⟩ (missing mid (by omega))
  | case4 start n notMany single size found => exact absurd found (missing start (by omega))
  | case5 start n notMany single size notFound => rw [intRangeLookup, if_neg notMany, if_pos single, if_neg notFound]
  | case6 start n notMany notSingle => rw [intRangeLookup, if_neg notMany, if_neg notSingle]

/-- Every field belongs to a range. -/
theorem exists_range {field : Nat} (inside : field < fields.length) :
    ∃ index < table.count, (table.ranges index).origIndex ≤ field ∧ field < (table.ranges (index + 1)).origIndex := by
  have upTo : ∀ count ≤ table.count, field < (table.ranges count).origIndex →
      ∃ index < count, (table.ranges index).origIndex ≤ field ∧ field < (table.ranges (index + 1)).origIndex := by
    intro count
    induction count with
    | zero =>
      intro _ below
      rw [table.first] at below
      omega
    | succ count inductionHypothesis =>
      intro bound below
      by_cases here : field < (table.ranges count).origIndex
      · obtain ⟨index, before, found⟩ := inductionHypothesis (by omega) here
        exact ⟨index, by omega, found⟩
      · exact ⟨count, by omega, by omega, below⟩
  exact upTo table.count le_rfl (table.last ▸ inside)

/-- `protobuf_c_message_descriptor_get_field` -/
def getField (value : BitVec 32) : Option Nat :=
  let rv := intRangeLookup table.ranges value.toInt 0 table.count
  if rv < 0 then none else some rv.toNat

/-- The lookup finds the field that has the number. -/
theorem getField_eq_some (value : BitVec 32) (field : Nat) :
    table.getField value = some field ↔ ∃ descriptor, fields[field]? = some descriptor ∧ descriptor.id = value := by
  constructor
  · intro found
    by_cases missing : ∀ index < table.count, ¬ table.Covers index value.toInt
    · rw [getField, table.intRangeLookup_missing missing (by omega)] at found
      cases found
    · push Not at missing
      obtain ⟨index, inside, covers⟩ := missing
      rw [getField, table.intRangeLookup_covers covers (by omega) (by omega) (by omega)] at found
      obtain ⟨starts, ends⟩ := covers
      have place : field = (table.ranges index).origIndex + (value.toInt - (table.ranges index).startValue).toNat := by
        split at found
        next => cases found
        next =>
          have := Option.some.inj found
          omega
      obtain ⟨descriptor, listed, number⟩ :=
        table.number index inside (value.toInt - (table.ranges index).startValue).toNat (by omega)
      exact ⟨descriptor, place ▸ listed, BitVec.eq_of_toInt_eq (by omega)⟩
  · rintro ⟨descriptor, listed, rfl⟩
    obtain ⟨index, inside, notBefore, below⟩ := table.exists_range (List.getElem?_eq_some_iff.mp listed).1
    obtain ⟨other, same, number⟩ := table.number index inside (field - (table.ranges index).origIndex) (by omega)
    rw [Nat.add_sub_cancel' notBefore, listed] at same
    cases same
    have covers : table.Covers index descriptor.id.toInt := ⟨by omega, by omega⟩
    rw [getField, table.intRangeLookup_covers covers (by omega) (by omega) (by omega)]
    rw [if_neg (by omega)]
    exact congrArg some (by omega)

/-- `pg_query__node__number_ranges`: the alternatives of a Node are numbered from one on, in one range. -/
def consecutive (fields : List FieldDescriptor)
    (numbered : ∀ (index : Nat) field, fields[index]? = some field → field.id.toInt = index + 1) : FieldRanges fields where
  count := 1
  ranges
    | 0 => ⟨1, 0⟩
    | _ + 1 => ⟨0, fields.length⟩
  first := rfl
  last := rfl
  apart index inside := by omega
  ordered index inside := by
    obtain rfl : index = 0 := by omega
    exact Nat.zero_le _
  number index inside offset below := by
    obtain rfl : index = 0 := by omega
    rw [Nat.zero_add] at below ⊢
    refine ⟨fields[offset], List.getElem?_eq_getElem below, ?_⟩
    rw [numbered offset _ (List.getElem?_eq_getElem below), Int.add_comm]

/-- A Node with a table of ranges -/
def nodeDescriptor (alternative : ∀ field ∈ fields,
    field.type = .message ∧ field.label ≠ .repeated ∧ field.oneof = true ∧ field.quantifierOffset = .nodeCase) :
    NodeDescriptor where
  fields := fields
  getField := table.getField
  getField_eq_some := table.getField_eq_some
  alternative := alternative

end FieldRanges

/-! ## The two loops of a Node -/

section loops

variable {visit : Option Address → Walk σ} {descriptor : NodeDescriptor} {node : Address} {world after : World σ}
  {nextField : Nat}

/-- The alternative that the discriminator names -/
def activeAlternative (descriptor : MessageDescriptor) (node : Address) (world : World σ) : Option Nat :=
  descriptor.getField (world.memory.word node .nodeCase)

/-- One turn of the scan visits the alternative if it is the active one. -/
theorem visitFieldDescriptor_alternative {field : FieldDescriptor} (listed : field ∈ descriptor.fields) :
    visitFieldDescriptor visit node field world =
      if world.memory.word node .nodeCase = field.id then
        visit (world.memory.pointer node field.offset) world
      else
        some world := by
  obtain ⟨message, single, oneof, discriminator⟩ := descriptor.alternative field listed
  simp [visitFieldDescriptor, message, single, oneof, discriminator, BitVec.toInt_inj]

/-- The scan goes over the alternatives before the active one, or over all of them. -/
theorem scanFields_skip {fields : List FieldDescriptor} (listed : ∀ field ∈ fields, field ∈ descriptor.fields)
    (passive : ∀ field ∈ fields, world.memory.word node .nodeCase ≠ field.id) (rest : List FieldDescriptor) :
    scanFields visit node (fields ++ rest) world = scanFields visit node rest world := by
  induction fields with
  | nil => rfl
  | cons field fields inductionHypothesis =>
    have here : visitFieldDescriptor visit node field world = some world := by
      rw [visitFieldDescriptor_alternative (listed field List.mem_cons_self), if_neg (passive field List.mem_cons_self)]
    show (visitFieldDescriptor visit node field world).bind (scanFields visit node (fields ++ rest)) = _
    rw [here]
    exact inductionHypothesis (fun other member => listed other (List.mem_cons_of_mem _ member))
      (fun other member => passive other (List.mem_cons_of_mem _ member))

/-- Without an active alternative from `nextField` on the scan is at its end. -/
theorem scanFields_done (passed : ∀ index, activeAlternative descriptor.toMessageDescriptor node world = some index →
    index < nextField) : scanFields visit node (descriptor.fields.drop nextField) world = some world := by
  have passive : ∀ field ∈ descriptor.fields.drop nextField, world.memory.word node .nodeCase ≠ field.id := by
    intro field member active
    obtain ⟨offset, inside⟩ := List.mem_iff_getElem?.mp member
    rw [List.getElem?_drop] at inside
    have := passed _ ((descriptor.getField_eq_some _ _).mpr ⟨field, inside, active.symm⟩)
    omega
  rw [← List.append_nil (descriptor.fields.drop nextField)]
  exact scanFields_skip (fun field member => List.mem_of_mem_drop member) passive []

/-- From `nextField` on the scan visits the active alternative first and goes on behind it. -/
theorem scanFields_active {index : Nat} {field : FieldDescriptor}
    (active : activeAlternative descriptor.toMessageDescriptor node world = some index) (later : nextField ≤ index)
    (listed : descriptor.fields[index]? = some field) :
    scanFields visit node (descriptor.fields.drop nextField) world =
      (visit (world.memory.pointer node field.offset) world).bind
        (scanFields visit node (descriptor.fields.drop (index + 1))) := by
  obtain ⟨inside, same⟩ := List.getElem?_eq_some_iff.mp listed
  have split : descriptor.fields.drop nextField =
      (descriptor.fields.drop nextField).take (index - nextField) ++ field :: descriptor.fields.drop (index + 1) := by
    conv_lhs => rw [← List.take_append_drop (index - nextField) (descriptor.fields.drop nextField)]
    rw [List.drop_drop, Nat.add_sub_cancel' later, List.drop_eq_getElem_cons inside, same]
  obtain ⟨activeField, found, number⟩ := (descriptor.getField_eq_some _ _).mp active
  cases listed.symm.trans found
  rw [split, scanFields_skip]
  · show (visitFieldDescriptor visit node field world).bind _ = _
    rw [visitFieldDescriptor_alternative (List.mem_of_getElem? listed), if_pos number.symm]
  · exact fun other member => List.mem_of_mem_drop (List.mem_of_mem_take member)
  · intro other member isActive
    obtain ⟨offset, found⟩ := List.mem_iff_getElem?.mp member
    obtain ⟨below, -⟩ := List.getElem?_eq_some_iff.mp found
    have short := List.length_take_le (index - nextField) (descriptor.fields.drop nextField)
    rw [List.getElem?_take_of_lt (by omega), List.getElem?_drop] at found
    have := (descriptor.getField_eq_some _ _).mpr ⟨other, found, isActive.symm⟩
    rw [activeAlternative, this] at active
    cases active
    omega

/-- The loop of a Node does what the rest of the scan does. -/
theorem dispatchNode_scan : dispatchNode visit descriptor.toMessageDescriptor node nextField
      (world.memory.word node .nodeCase) world =
    scanFields visit node (descriptor.fields.drop nextField) world := by
  induction left : descriptor.fields.length - nextField using Nat.strong_induction_on generalizing nextField world with
  | _ left inductionHypothesis =>
  rw [dispatchNode]
  split
  next noField =>
    refine (scanFields_done fun index active => ?_).symm
    rw [activeAlternative, noField] at active
    cases active
  next selectedField active =>
    split_ifs with passed
    · refine (scanFields_done fun index again => ?_).symm
      rw [activeAlternative, active] at again
      cases again
      exact passed
    · obtain ⟨field, listed, number⟩ := (descriptor.getField_eq_some _ _).mp active
      obtain ⟨inside, same⟩ := List.getElem?_eq_some_iff.mp listed
      rw [scanFields_active active (by omega) listed]
      dsimp only
      rw [same]
      congr 1
      funext between
      split_ifs with unchanged
      · -- the active alternative is the one that has been visited
        refine (scanFields_done fun index again => ?_).symm
        rw [activeAlternative, unchanged, active] at again
        cases again
        exact Nat.lt_succ_self _
      · exact inductionHypothesis _ (by omega) rfl

theorem visitGeneric_node {schema : Schema} (isNode : world.memory.descriptor node = some .node) :
    visitGeneric visit schema true node world =
        dispatchNode visit schema.node.toMessageDescriptor node 0 (world.memory.word node .nodeCase) world ∧
      visitGeneric visit schema false node world = scanFields visit node schema.node.fields world := by
  constructor
  · rw [visitGeneric, isNode]
    exact if_pos ⟨rfl, rfl⟩
  · rw [visitGeneric, isNode]
    exact if_neg fun dispatch => Bool.false_ne_true dispatch.1

/-- `sqlparser_dialect_ast_surface_visit_generic` visits the same with and without the loop of a Node. -/
theorem visitGeneric_dispatch (visit : Option Address → Walk σ) (schema : Schema) :
    visitGeneric visit schema true = visitGeneric visit schema false := by
  funext message world
  simp only [visitGeneric]
  cases world.memory.descriptor message with
  | none => rfl
  | some name =>
    simp only [true_and, Bool.false_eq_true, false_and, if_false]
    split_ifs with isNode
    · subst isNode
      exact dispatchNode_scan
    · rfl

theorem visitMessage_dispatch (schema : Schema) (visitor : Visitor σ) (statementIndex depth : Nat) :
    visitMessage schema visitor statementIndex true depth = visitMessage schema visitor statementIndex false depth := by
  induction depth with
  | zero =>
    funext message
    cases message <;> rfl
  | succ depth inductionHypothesis =>
    funext message
    cases message with
    | none => rfl
    | some message => rw [visitMessage, visitMessage, inductionHypothesis, visitGeneric_dispatch]

/-- The alternatives that are visited: each time the active one, as long as it is behind the last one. -/
inductive Visited (visit : Option Address → Walk σ) (descriptor : MessageDescriptor) (node : Address) :
    Nat → World σ → List Nat → World σ → Prop
  | done {nextField : Nat} {world : World σ}
      (passed : ∀ index, activeAlternative descriptor node world = some index → index < nextField) :
      Visited visit descriptor node nextField world [] world
  | child {nextField index : Nat} {world between after : World σ} {field : FieldDescriptor} {indexes : List Nat}
      (active : activeAlternative descriptor node world = some index) (later : nextField ≤ index)
      (listed : descriptor.fields[index]? = some field)
      (visited : visit (world.memory.pointer node field.offset) world = some between)
      (rest : Visited visit descriptor node (index + 1) between indexes after) :
      Visited visit descriptor node nextField world (index :: indexes) after

theorem Visited.increasing {indexes : List Nat}
    (visited : Visited visit descriptor.toMessageDescriptor node nextField world indexes after) :
    (∀ index ∈ indexes, nextField ≤ index) ∧ indexes.Pairwise (· < ·) := by
  induction visited with
  | done => exact ⟨by simp, .nil⟩
  | @child nextField index world between after field indexes active later listed visited rest inductionHypothesis =>
    obtain ⟨behind, increasing⟩ := inductionHypothesis
    refine ⟨fun other member => ?_, List.pairwise_cons.mpr ⟨fun other member => behind other member, increasing⟩⟩
    obtain rfl | member := List.mem_cons.mp member
    · exact later
    · exact later.trans (Nat.le_of_succ_le (behind other member))

/-- The scan ends where the visits of the active alternatives end. -/
theorem scanFields_iff : scanFields visit node (descriptor.fields.drop nextField) world = some after ↔
    ∃ indexes, Visited visit descriptor.toMessageDescriptor node nextField world indexes after := by
  induction left : descriptor.fields.length - nextField using Nat.strong_induction_on generalizing nextField world with
  | _ left inductionHypothesis =>
  by_cases passed : ∀ index, activeAlternative descriptor.toMessageDescriptor node world = some index → index < nextField
  · rw [scanFields_done passed]
    constructor
    · rintro ⟨⟩
      exact ⟨[], .done passed⟩
    · rintro ⟨indexes, visited⟩
      cases visited with
      | done => rfl
      | child active later => exact absurd (passed _ active) (by omega)
  · push Not at passed
    obtain ⟨index, active, later⟩ := passed
    obtain ⟨field, listed, -⟩ := (descriptor.getField_eq_some _ _).mp active
    have inside := (List.getElem?_eq_some_iff.mp listed).1
    have rest (between : World σ) : scanFields visit node (descriptor.fields.drop (index + 1)) between = some after ↔
        ∃ indexes, Visited visit descriptor.toMessageDescriptor node (index + 1) between indexes after :=
      inductionHypothesis (descriptor.fields.length - (index + 1)) (by omega) rfl
    rw [scanFields_active active later listed, Option.bind_eq_some_iff]
    constructor
    · rintro ⟨between, visited, scanned⟩
      obtain ⟨indexes, behind⟩ := (rest between).mp scanned
      exact ⟨index :: indexes, .child active later listed visited behind⟩
    · rintro ⟨indexes, visited⟩
      cases visited with
      | done passed => exact absurd (passed _ active) (by omega)
      | child again _ same visited behind =>
        cases active.symm.trans again
        cases listed.symm.trans same
        exact ⟨_, visited, (rest _).mpr ⟨_, behind⟩⟩

/-- The scan returns where the visits of the children do. -/
theorem scanFields_isSome (returns : ∀ child world, (visit child world).isSome) (fields : List FieldDescriptor) :
    (scanFields visit node fields world).isSome := by
  have items (array : Option Address) (left : Nat) :
      ∀ index world, (visitItems visit array index left world).isSome := by
    induction left with
    | zero => exact fun _ _ => rfl
    | succ left inductionHypothesis =>
      intro index world
      obtain ⟨between, visited⟩ := Option.isSome_iff_exists.mp (returns (array.bind (world.memory.element · index)) world)
      show ((visit _ world).bind _).isSome
      rw [visited]
      exact inductionHypothesis (index + 1) between
  induction fields generalizing world with
  | nil => rfl
  | cons field fields inductionHypothesis =>
    have turn : (visitFieldDescriptor visit node field world).isSome := by
      simp only [visitFieldDescriptor]
      split_ifs
      · rfl
      · exact items _ _ _ _
      · rfl
      · exact returns _ _
    obtain ⟨between, visited⟩ := Option.isSome_iff_exists.mp turn
    show ((visitFieldDescriptor visit node field world).bind _).isSome
    rw [visited]
    exact inductionHypothesis

end loops

/-! ## The end of the traversal -/

section ends

variable {rank : Address → Nat} {visitor : Visitor σ} {visit : Option Address → Walk σ} {generic : Address → Walk σ}
  {message statementIndex : Nat}

/-- What a message or an array points to is below it. -/
structure Ranked (rank : Address → Nat) (memory : Memory) : Prop where
  pointer : ∀ message offset child, memory.pointer message offset = some child → rank child < rank message
  element : ∀ items index child, memory.element items index = some child → rank child < rank items

/-- The callbacks that are there -/
def Visitor.callbacks (visitor : Visitor σ) : List (Option (Callback σ)) :=
  [visitor.stringLiteral, visitor.paramRef, visitor.relation, visitor.derivedRelation, visitor.insertRelation, visitor.join,
    visitor.selectLimit, visitor.setOperation]

/-- The callbacks keep what is below a message below it. -/
def Visitor.Keeps (visitor : Visitor σ) (rank : Address → Nat) : Prop :=
  ∀ callback, some callback ∈ visitor.callbacks → ∀ message statementIndex world,
    Ranked rank world.memory → Ranked rank (callback message statementIndex world).memory

/-- The walk comes to an end and keeps the ranks. -/
def Returns (rank : Address → Nat) (walk : Walk σ) : Prop :=
  ∀ world, Ranked rank world.memory → ∃ after, walk world = some after ∧ Ranked rank after.memory

/-- The visits of what is below a rank come to an end. -/
def VisitsBelow (rank : Address → Nat) (bound : Nat) (visit : Option Address → Walk σ) : Prop :=
  ∀ child, (∀ address, child = some address → rank address < bound) → Returns rank (visit child)

theorem returns_some : Returns rank (some : Walk σ) :=
  fun world ranked => ⟨world, rfl, ranked⟩

theorem Returns.andThen {first second : Walk σ} (firstReturns : Returns rank first) (secondReturns : Returns rank second) :
    Returns rank (first >=> second) := by
  intro world ranked
  obtain ⟨between, walked, ranked⟩ := firstReturns world ranked
  obtain ⟨after, ended, ranked⟩ := secondReturns between ranked
  refine ⟨after, ?_, ranked⟩
  show (first world).bind second = some after
  rw [walked]
  exact ended

theorem returns_call {callback : Option (Callback σ)} (keeps : visitor.Keeps rank) (listed : callback ∈ visitor.callbacks)
    (message statementIndex : Nat) : Returns rank (call callback message statementIndex) := by
  intro world ranked
  cases callback with
  | none => exact ⟨world, rfl, ranked⟩
  | some callback => exact ⟨_, rfl, keeps callback listed message statementIndex world ranked⟩

theorem returns_visitField (below : VisitsBelow rank (rank message) visit) (field : Field) :
    Returns rank (visitField visit message field) :=
  fun world ranked => below _ (ranked.pointer message (.field field)) world ranked

theorem returns_visitItems {items : Option Address} (below : VisitsBelow rank (rank message) visit)
    (inside : ∀ array, items = some array → rank array < rank message) (left : Nat) :
    ∀ index, Returns rank (visitItems visit items index left) := by
  induction left with
  | zero => exact fun _ => returns_some
  | succ left inductionHypothesis =>
    intro index
    refine Returns.andThen (fun world ranked => below _ (fun child found => ?_) world ranked) (inductionHypothesis _)
    obtain ⟨array, there, found⟩ := Option.bind_eq_some_iff.mp found
    exact (ranked.element array index child found).trans (inside array there)

theorem returns_visitNodeArray (below : VisitsBelow rank (rank message) visit) (field : Field) :
    Returns rank (visitNodeArray visit message field) :=
  fun world ranked => returns_visitItems below (ranked.pointer message (.field field)) _ 0 world ranked

theorem returns_scanFields (below : VisitsBelow rank (rank message) visit) (fields : List FieldDescriptor) :
    Returns rank (scanFields visit message fields) := by
  induction fields with
  | nil => exact returns_some
  | cons field fields inductionHypothesis =>
    refine Returns.andThen (fun world ranked => ?_) inductionHypothesis
    rw [visitFieldDescriptor]
    split_ifs
    · exact ⟨world, rfl, ranked⟩
    · exact returns_visitItems below (ranked.pointer message field.offset) _ 0 world ranked
    · exact ⟨world, rfl, ranked⟩
    · exact below _ (ranked.pointer message field.offset) world ranked

theorem returns_visitGeneric (below : VisitsBelow rank (rank message) visit) (schema : Schema) :
    Returns rank (visitGeneric visit schema false message) := by
  intro world ranked
  simp only [visitGeneric, Bool.false_eq_true, false_and, if_false]
  cases world.memory.descriptor message with
  | none => exact ⟨world, rfl, ranked⟩
  | some name => exact returns_scanFields below _ world ranked

theorem returns_visitSelect (keeps : visitor.Keeps rank) (below : VisitsBelow rank (rank message) visit) :
    Returns rank (visitSelect visit visitor statementIndex message) := by
  have field := returns_visitField below
  have array := returns_visitNodeArray below
  have limit : Returns rank (call visitor.selectLimit message statementIndex) :=
    returns_call keeps (by simp [Visitor.callbacks]) _ _
  have operation : Returns rank (call visitor.setOperation message statementIndex) :=
    returns_call keeps (by simp [Visitor.callbacks]) _ _
  refine (field .withClause).andThen (Returns.andThen (fun world ranked => ?_) ((array .sortClause).andThen
    (Returns.andThen (fun world ranked => ?_) ((field .limitCount).andThen ((field .limitOffset).andThen
      (array .lockingClause))))))
  · split
    · exact ((field .larg).andThen (operation.andThen (field .rarg))) world ranked
    · exact ((array .distinctClause).andThen ((array .targetList).andThen ((field .intoClause).andThen
        ((array .fromClause).andThen ((field .whereClause).andThen ((field .startWithClause).andThen
          ((field .connectByClause).andThen ((array .groupClause).andThen ((field .havingClause).andThen
            ((array .windowClause).andThen (array .valuesLists))))))))))) world ranked
  · split
    · exact limit world ranked
    · exact ⟨world, rfl, ranked⟩

theorem returns_visitInsert (keeps : visitor.Keeps rank) (below : VisitsBelow rank (rank message) visit)
    (generics : ∀ relation, rank relation < rank message → Returns rank (generic relation)) :
    Returns rank (visitInsert visit generic visitor statementIndex message) := by
  have field := returns_visitField below
  have array := returns_visitNodeArray below
  refine (field .withClause).andThen (Returns.andThen (fun world ranked => ?_) ((array .cols).andThen
    ((field .selectStmt).andThen ((field .onConflictClause).andThen (array .returningList)))))
  rw [visitInsertRelation]
  split
  · exact ⟨world, rfl, ranked⟩
  · refine Returns.andThen (returns_call keeps (by simp [Visitor.callbacks]) _ _) (fun world ranked => ?_) world ranked
    cases there : world.memory.pointer message (.field .relation) with
    | none => exact ⟨world, rfl, ranked⟩
    | some relation => exact generics relation (ranked.pointer _ _ _ there) world ranked

theorem returns_messageVisit (keeps : visitor.Keeps rank) (below : VisitsBelow rank (rank message) visit)
    (generics : ∀ other, rank other ≤ rank message → Returns rank (generic other)) :
    Returns rank (messageVisit visit generic visitor statementIndex message) := by
  have field := returns_visitField below
  have array := returns_visitNodeArray below
  have here := generics message le_rfl
  have calls {callback : Option (Callback σ)} (listed : callback ∈ visitor.callbacks) :
      Returns rank (call callback message statementIndex) :=
    returns_call keeps listed _ _
  intro world ranked
  simp only [messageVisit]
  split
  · split
    · exact calls (by simp [Visitor.callbacks]) world ranked
    · exact ⟨world, rfl, ranked⟩
  · exact calls (by simp [Visitor.callbacks]) world ranked
  · exact (calls (by simp [Visitor.callbacks])).andThen here world ranked
  · exact (calls (by simp [Visitor.callbacks])).andThen here world ranked
  · exact returns_visitSelect keeps below world ranked
  · exact returns_visitInsert keeps below (fun relation inside => generics relation inside.le) world ranked
  · exact ((field .withClause).andThen ((field .relation).andThen ((array .targetList).andThen ((array .fromClause).andThen
      ((field .whereClause).andThen (array .returningList)))))) world ranked
  · exact ((field .withClause).andThen ((field .relation).andThen ((array .usingClause).andThen ((field .whereClause).andThen
      (array .returningList))))) world ranked
  · exact ((field .withClause).andThen ((field .relation).andThen ((field .sourceRelation).andThen
      ((field .joinCondition).andThen ((array .mergeWhenClauses).andThen (array .returningList)))))) world ranked
  · exact ((field .larg).andThen ((calls (by simp [Visitor.callbacks])).andThen ((field .rarg).andThen
      ((array .usingClause).andThen ((field .joinUsingAlias).andThen ((field .quals).andThen (field .alias))))))) world ranked
  · exact ((field .val).andThen (array .indirection)) world ranked
  · exact ((field .view).andThen ((array .aliases).andThen ((field .query).andThen (array .options)))) world ranked
  · exact ((field .into).andThen (field .query)) world ranked
  · exact here world ranked

/-- A visit whose callbacks keep the ranks comes to an end. -/
theorem returns_visitMessage (schema : Schema) (keeps : visitor.Keeps rank) (statementIndex depth : Nat) :
    VisitsBelow rank depth (visitMessage schema visitor statementIndex false depth) := by
  induction depth with
  | zero =>
    intro child below
    cases child with
    | none => exact returns_some
    | some address => exact absurd (below address rfl) (Nat.not_lt_zero _)
  | succ depth inductionHypothesis =>
    intro child below
    cases child with
    | none => exact returns_some
    | some address =>
      have inside := below address rfl
      have children {message : Address} (lower : rank message ≤ rank address) :
          VisitsBelow rank (rank message) (visitMessage schema visitor statementIndex false depth) :=
        fun child below => inductionHypothesis child fun other same => by
          have := below other same
          omega
      exact returns_messageVisit keeps (children le_rfl) fun other lower => returns_visitGeneric (children lower) schema

end ends

/-- The loop of a Node does what the scan of its descriptor does: it visits the active alternative as long as that is
behind the last one, and it comes to an end. The visit of a Node takes the loop or the scan, and that of any other message
the scan. -/
theorem node_dispatch_agrees (schema : Schema) (visitor : Visitor σ) (statementIndex : Nat) :
    (∀ (visit : Option Address → Walk σ) node world, world.memory.descriptor node = some .node →
      visitGeneric visit schema true node world =
          dispatchNode visit schema.node.toMessageDescriptor node 0 (world.memory.word node .nodeCase) world ∧
        visitGeneric visit schema false node world = scanFields visit node schema.node.fields world) ∧
    (∀ (visit : Option Address → Walk σ), visitGeneric visit schema true = visitGeneric visit schema false) ∧
    (∀ (visit : Option Address → Walk σ) node world,
      dispatchNode visit schema.node.toMessageDescriptor node 0 (world.memory.word node .nodeCase) world =
        scanFields visit node schema.node.fields world) ∧
    (∀ (visit : Option Address → Walk σ) node world after,
      dispatchNode visit schema.node.toMessageDescriptor node 0 (world.memory.word node .nodeCase) world = some after ↔
        ∃ indexes, Visited visit schema.node.toMessageDescriptor node 0 world indexes after ∧
          indexes.Pairwise (· < ·)) ∧
    (∀ (visit : Option Address → Walk σ) node world, (∀ child world, (visit child world).isSome) →
      (dispatchNode visit schema.node.toMessageDescriptor node 0 (world.memory.word node .nodeCase) world).isSome) ∧
    (∀ depth, visitMessage schema visitor statementIndex true depth =
      visitMessage schema visitor statementIndex false depth) ∧
    ∀ rank, visitor.Keeps rank → ∀ depth message, rank message < depth → ∀ world, Ranked rank world.memory →
      (visitMessage schema visitor statementIndex true depth (some message) world).isSome := by
  refine ⟨fun visit node world isNode => visitGeneric_node isNode, fun visit => visitGeneric_dispatch visit schema,
    fun visit node world => dispatchNode_scan, fun visit node world after => ?_, fun visit node world returns => ?_,
    visitMessage_dispatch schema visitor statementIndex, fun rank keeps depth message inside world ranked => ?_⟩
  · rw [dispatchNode_scan, scanFields_iff]
    constructor
    · rintro ⟨indexes, visited⟩
      exact ⟨indexes, visited, visited.increasing.2⟩
    · rintro ⟨indexes, visited, -⟩
      exact ⟨indexes, visited⟩
  · rw [dispatchNode_scan]
    exact scanFields_isSome returns _
  · rw [visitMessage_dispatch]
    have returns := returns_visitMessage schema keeps statementIndex depth (some message)
      (fun address same => Option.some.inj same ▸ inside)
    obtain ⟨after, visited, -⟩ := returns world ranked
    rw [visited]
    rfl

/-- Alternatives in the field order of a generated Node: they are numbered from one on and share their place. -/
def alternatives (count : Nat) : List FieldDescriptor :=
  (List.range count).map fun index => ⟨BitVec.ofNat 32 (index + 1), .none, .message, .nodeCase, .other 0, true⟩

theorem alternatives_number {count index : Nat} {field : FieldDescriptor} (small : count < 2 ^ 31)
    (listed : (alternatives count)[index]? = some field) : field.id.toInt = index + 1 := by
  rw [alternatives, List.getElem?_map, Option.map_eq_some_iff] at listed
  obtain ⟨number, isNumber, rfl⟩ := listed
  obtain ⟨inside, same⟩ := List.getElem?_eq_some_iff.mp isNumber
  rw [List.length_range] at inside
  rw [List.getElem_range] at same
  subst same
  rw [BitVec.toInt_eq_toNat_of_lt (by rw [BitVec.toNat_ofNat]; omega), BitVec.toNat_ofNat]
  omega

def smallNode : NodeDescriptor :=
  (FieldRanges.consecutive (alternatives 6) fun _ _ => alternatives_number (by decide)).nodeDescriptor (by decide)

/-- The first visit of a child gives the Node its fifth alternative, and the second one its first. -/
def movingVisit (child : Option Address) (world : World (List (Option Address))) : Option (World (List (Option Address))) :=
  some ⟨{ world.memory with word := fun _ _ => if world.context = [] then 5 else 1 }, child :: world.context⟩

/-- The loop follows a change to a later alternative and ends at the change to an earlier one. -/
theorem node_dispatch_agrees_moved :
    let schema : Schema := ⟨smallNode, fun _ => smallNode.toMessageDescriptor⟩
    let memory : Memory := ⟨fun _ => some .node, fun _ _ => 2, fun _ _ => 0, fun _ _ => some 7, fun _ _ => none,
      fun _ => .none, fun _ => .default⟩
    visitGeneric movingVisit schema true 0 ⟨memory, []⟩ = visitGeneric movingVisit schema false 0 ⟨memory, []⟩ ∧
      (visitGeneric movingVisit schema true 0 ⟨memory, []⟩).map World.context = some [some 7, some 7] := by
  intro schema memory
  have same := (node_dispatch_agrees schema (⟨none, none, none, none, none, none, none, none⟩ : Visitor (List (Option Address)))
    0).2.1 movingVisit
  rw [same]
  exact ⟨rfl, by decide +kernel⟩

end SqlParser.Core.SurfaceDispatch
