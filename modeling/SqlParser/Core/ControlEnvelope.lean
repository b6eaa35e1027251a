import SqlParser.Core.ControlForest
import SqlParser.Core.PublicLexer
import SqlParser.Core.SourceRestore

/-! # The SQL of a control-flow text

`sqlparser_control_build_public_sql` writes the source of a control-flow text with each unit
replaced by its rendering, and notes where the rendering stands. The rendering of a unit is a
parameter, and so is the allocator.
-/

namespace SqlParser.Core

open SqlParser.Library.Splice

/-! ## The buffer -/

/-- `PTRDIFF_MAX`, the size that no object in memory exceeds. -/
def ptrdiffMax : Nat := 2 ^ 63 - 1

/-- Which requests `realloc` grants, of which none is larger than an object can be. -/
structure Allocator where
  grants : Nat → Bool
  bounded : ∀ size, grants size = true → size ≤ ptrdiffMax

/-- A request that doubling can make for a text of some length is refused. -/
def Allocator.RefusesFor (allocator : Allocator) (length : Nat) : Prop :=
  ∃ size, size ≤ max 256 (2 * length) ∧ allocator.grants size = false

theorem Allocator.RefusesFor.mono {allocator : Allocator} {length longer : Nat} (refuses : allocator.RefusesFor length)
    (le : length ≤ longer) : allocator.RefusesFor longer := by
  obtain ⟨size, small, refused⟩ := refuses
  exact ⟨size, small.trans (max_le_max le_rfl (Nat.mul_le_mul_left 2 le)), refused⟩

/-- `sqlparser_control_buffer_t`: nothing is allocated yet, or the text and its NUL have room. -/
structure ControlBuffer where
  data : Text
  capacity : Nat
  limit : Nat
  fits : data = [] ∧ capacity = 0 ∨ data.length < capacity

def ControlBuffer.empty (limit : Nat) : ControlBuffer :=
  ⟨[], 0, limit, .inl ⟨rfl, rfl⟩⟩

/-- `sqlparser_control_size_add` -/
def controlSizeAdd (left right : Nat) : Option Nat :=
  if left > sizeMax - right then none else some (left + right)

/-- The loop that doubles the capacity. -/
def growCapacity (required maxCapacity capacity : Nat) (positive : 0 < capacity) : Nat :=
  if capacity < required then
    if capacity > maxCapacity / 2 then maxCapacity else growCapacity required maxCapacity (capacity * 2) (by omega)
  else capacity
termination_by required - capacity

def maxCapacity (limit : Nat) : Nat :=
  if limit = sizeMax then sizeMax else limit + 1

def firstCapacity (limit capacity : Nat) : Nat :=
  if capacity > 0 then capacity else if maxCapacity limit < 256 then maxCapacity limit else 256

theorem maxCapacity_pos (limit : Nat) : 0 < maxCapacity limit := by
  unfold maxCapacity sizeMax
  split <;> omega

theorem firstCapacity_pos (limit capacity : Nat) : 0 < firstCapacity limit capacity := by
  have := maxCapacity_pos limit
  unfold firstCapacity
  split_ifs <;> omega

/-- `sqlparser_control_buffer_reserve`: the capacity behind it. -/
def ControlBuffer.reserve (allocator : Allocator) (buffer : ControlBuffer) (additional : Nat) : Except Error Nat :=
  if buffer.data.length > buffer.limit ∨ additional > buffer.limit - buffer.data.length then .error outputLimitError
  else
    match controlSizeAdd buffer.data.length additional with
    | none => .error outputLimitError
    | some required =>
      if required = sizeMax then .error outputLimitError
      else if required + 1 ≤ buffer.capacity then .ok buffer.capacity
      else
        let capacity := growCapacity (required + 1) (maxCapacity buffer.limit) (firstCapacity buffer.limit buffer.capacity)
          (firstCapacity_pos _ _)
        if allocator.grants capacity then .ok capacity else .error outOfMemory

theorem growCapacity_ge {required limit capacity : Nat} (positive : 0 < capacity) (room : required ≤ limit) :
    required ≤ growCapacity required limit capacity positive := by
  fun_induction growCapacity required limit capacity positive with
  | case1 => exact room
  | case2 capacity positive short small inductionHypothesis => exact inductionHypothesis
  | case3 capacity positive enough => omega

/-- A capacity that has to grow at all is at most doubled beyond the text without its NUL. -/
theorem growCapacity_le {length limit capacity : Nat} (positive : 0 < capacity) :
    growCapacity (length + 1) limit capacity positive ≤ max capacity (2 * length) := by
  fun_induction growCapacity (length + 1) limit capacity positive with
  | case1 capacity positive short large => omega
  | case2 capacity positive short small inductionHypothesis => omega
  | case3 capacity positive enough => exact le_max_left _ _

theorem growCapacity_first {length limit capacity : Nat} (short : capacity < length + 1) :
    growCapacity (length + 1) (maxCapacity limit) (firstCapacity limit capacity) (firstCapacity_pos _ _) ≤
      max 256 (2 * length) := by
  have grown := @growCapacity_le length (maxCapacity limit) _ (firstCapacity_pos limit capacity)
  have first : firstCapacity limit capacity ≤ max 256 length := by
    unfold firstCapacity
    split_ifs <;> omega
  omega

theorem ControlBuffer.reserve_fits {allocator : Allocator} {buffer : ControlBuffer} {additional capacity : Nat}
    (reserved : buffer.reserve allocator additional = .ok capacity) : buffer.data.length + additional < capacity := by
  unfold reserve at reserved
  split at reserved
  · cases reserved
  next within =>
    unfold controlSizeAdd at reserved
    split at reserved
    · cases reserved
    next required isRequired =>
      split at isRequired
      · cases isRequired
      next small =>
        rw [← Option.some.inj isRequired] at reserved
        split at reserved
        · cases reserved
        next notMax =>
          split at reserved
          next enough =>
            cases reserved
            exact enough
          next =>
            dsimp only at reserved
            split at reserved
            · cases reserved
              refine growCapacity_ge _ ?_
              unfold maxCapacity
              unfold sizeMax at *
              split <;> omega
            · cases reserved

/-- `sqlparser_control_buffer_append` -/
def ControlBuffer.append (allocator : Allocator) (buffer : ControlBuffer) (text : Text) : Except Error ControlBuffer :=
  match reserved : buffer.reserve allocator text.length with
  | .error error => .error error
  | .ok capacity =>
    .ok
      { data := buffer.data ++ text
        capacity := capacity
        limit := buffer.limit
        fits := .inr (by rw [List.length_append]; exact reserve_fits reserved) }

/-! ## The units -/

/-- A unit with its `current_offset` and `current_length`. -/
structure PlacedUnit where
  unit : ControlUnit
  currentOffset : Nat
  currentLength : Nat
  deriving DecidableEq

/-- `PgQuery__TransactionStmtKind`, as far as it is tested. -/
inductive TransactionKind where
  | commit
  | rollback
  | other (value : Nat)
  deriving DecidableEq

/-- `PgQuery__TransactionStmt` -/
structure TransactionStmt where
  kind : TransactionKind
  optionCount : Nat
  savepointName : Option Text
  gid : Option Text
  chain : Bool

/-- A COMMIT or ROLLBACK without any addition. -/
def TransactionStmt.isBare (transaction : TransactionStmt) : Bool :=
  (transaction.kind = .commit || transaction.kind = .rollback) && transaction.optionCount = 0 &&
    transaction.savepointName.all List.isEmpty && transaction.gid.all List.isEmpty && !transaction.chain

/-- What the AST and the deparser have for the units: the statement of a unit where it is one of a transaction, and the
rendering of a statement or a condition behind its post-processing. -/
structure UnitSources where
  statementNode : Nat → Except Error (Option TransactionStmt)
  render : Nat → ControlUnitKind → Except Error (Option Text)

/-- The bytes that a copy of some length reads from an offset on. -/
def bytesFrom (text : Text) (offset length : Nat) : Text :=
  (text.drop offset).take length

section build

variable (allocator : Allocator) (dialect : Dialect) (sources : UnitSources) (sql : Text)

/-- The text that stands for a unit. -/
def renderUnit (index : Nat) (unit : ControlUnit) : Except Error Text :=
  match sources.statementNode index with
  | .error error => .error error
  | .ok transaction =>
    if unit.kind = .statement ∧ dialect.isSqlserverCompatible ∧ transaction.any TransactionStmt.isBare then
      .ok (bytesFrom sql unit.sourceOffset unit.sourceLength)
    else (sources.render index unit.kind).map fun text => text.getD []

/-- What the loop over the units leaves: the buffer and the source offset, and the units with their new places. -/
structure UnitsBuilt where
  result : Except Error (ControlBuffer × Nat)
  units : List PlacedUnit

/-- The loop over the units. -/
def buildUnits (index sourceOffset : Nat) (buffer : ControlBuffer) : List PlacedUnit → UnitsBuilt
  | [] => ⟨.ok (buffer, sourceOffset), []⟩
  | placed :: units =>
    match buffer.append allocator (bytesFrom sql sourceOffset (sizeSub placed.unit.sourceOffset sourceOffset)) with
    | .error error => ⟨.error error, placed :: units⟩
    | .ok gap =>
      match renderUnit dialect sources sql index placed.unit with
      | .error error => ⟨.error error, placed :: units⟩
      | .ok text =>
        match gap.append allocator text with
        | .error error => ⟨.error error, placed :: units⟩
        | .ok next =>
          let later := buildUnits (index + 1) placed.unit.stop next units
          ⟨later.result, ⟨placed.unit, gap.data.length, text.length⟩ :: later.units⟩

/-- What the caller gets, and the units of the state behind the call. -/
structure BuildOutcome where
  result : Except Error Text
  units : List PlacedUnit

/-- `sqlparser_control_build_public_sql`; `ast` is what `sqlparser_handle_ensure_ast` leaves in the handle. -/
def controlBuildPublicSql (ast : Except Error (List (Option ControlRawStmt))) (limit : Nat)
    (units : List PlacedUnit) : BuildOutcome :=
  match ast with
  | .error error => ⟨.error error, units⟩
  | .ok _ =>
    let built := buildUnits allocator dialect sources sql 0 0 (.empty limit) units
    match built.result with
    | .error error => ⟨.error error, built.units⟩
    | .ok (buffer, sourceOffset) =>
      ⟨(buffer.append allocator (bytesFrom sql sourceOffset (sizeSub sql.length sourceOffset))).map
        ControlBuffer.data, built.units⟩

/-! ## What it is for -/

/-- The renderings of units from an index on. -/
def renderings (index : Nat) : List ControlUnit → Except Error (List Text)
  | [] => .ok []
  | unit :: units =>
    match renderUnit dialect sources sql index unit with
    | .error error => .error error
    | .ok text => (renderings (index + 1) units).map (text :: ·)

end build

/-- A rendering takes the place of its unit. -/
def unitEdits (units : List ControlUnit) (texts : List Text) : List (Edit UInt8) :=
  List.zipWith (fun unit text => ⟨unit.sourceOffset, unit.stop, text⟩) units texts

/-- The subtractions of offsets of one call, the larger operand first. -/
def gapSubtractions (sqlLength : Nat) : Nat → List ControlUnit → List (Nat × Nat)
  | sourceOffset, [] => [(sqlLength, sourceOffset)]
  | sourceOffset, unit :: units => (unit.sourceOffset, sourceOffset) :: gapSubtractions sqlLength unit.stop units

/-- The text of a unit stands at its current place. -/
def PlacedUnit.Denotes (whole : Text) (placed : PlacedUnit) (text : Text) : Prop :=
  bytesFrom whole placed.currentOffset placed.currentLength = text ∧ placed.currentLength = text.length

/-! ## Appending -/

section appending

variable {allocator : Allocator} {buffer : ControlBuffer} {text : Text}

theorem ControlBuffer.append_ok {next : ControlBuffer} (appended : buffer.append allocator text = .ok next) :
    next.data = buffer.data ++ text := by
  unfold append at appended
  split at appended
  · cases appended
  · cases appended
    rfl

/-- Text in memory is appended, or it exceeds the limit, or a request for it is refused. -/
theorem ControlBuffer.append_cases (allocated : buffer.capacity ≤ ptrdiffMax) (held : text.length ≤ ptrdiffMax) :
    (buffer.append allocator text = .error outOfMemory ∧
        allocator.RefusesFor (buffer.data.length + text.length)) ∨
      (buffer.append allocator text = .error outputLimitError ∧ buffer.limit < buffer.data.length + text.length) ∨
      ∃ next, buffer.append allocator text = .ok next ∧ next.data = buffer.data ++ text ∧ next.limit = buffer.limit ∧
        next.capacity ≤ ptrdiffMax ∧ buffer.data.length + text.length ≤ buffer.limit := by
  cases reserved : buffer.reserve allocator text.length with
  | ok capacity =>
    have appended : buffer.append allocator text = .ok
        { data := buffer.data ++ text, capacity := capacity, limit := buffer.limit
          fits := .inr (by rw [List.length_append]; exact reserve_fits reserved) } := by
      unfold append
      split
      next other => rw [reserved] at other; cases other
      next other => rw [reserved] at other; cases other; rfl
    refine .inr (.inr ⟨_, appended, rfl, rfl, ?_⟩)
    unfold reserve at reserved
    split at reserved
    · cases reserved
    next within =>
      refine ⟨?_, by omega⟩
      split at reserved
      · cases reserved
      · split at reserved
        · cases reserved
        · split at reserved
          · cases reserved
            exact allocated
          · dsimp only at reserved
            split at reserved
            next granted =>
              cases reserved
              exact allocator.bounded _ granted
            · cases reserved
  | error failure =>
    have failed : buffer.append allocator text = .error failure := by
      unfold append
      split
      next other => rw [reserved] at other; cases other; rfl
      next other => rw [reserved] at other; cases other
    rw [failed]
    have short : buffer.data.length ≤ ptrdiffMax := by
      rcases buffer.fits with ⟨nothing, -⟩ | fits
      · rw [nothing]
        exact Nat.zero_le _
      · omega
    unfold reserve at reserved
    split at reserved
    next longer =>
      cases reserved
      exact .inr (.inl ⟨rfl, by omega⟩)
    next within =>
      -- two objects in memory are together shorter than `SIZE_MAX`
      have total : controlSizeAdd buffer.data.length text.length = some (buffer.data.length + text.length) := by
        rw [controlSizeAdd, if_neg]
        unfold ptrdiffMax at *
        unfold sizeMax
        omega
      have notMax : buffer.data.length + text.length ≠ sizeMax := by
        unfold ptrdiffMax at *
        unfold sizeMax
        omega
      rw [total] at reserved
      dsimp only at reserved
      rw [if_neg notMax] at reserved
      split at reserved
      · cases reserved
      next short =>
        split at reserved
        · cases reserved
        next refused =>
          cases reserved
          exact .inl ⟨rfl, _, growCapacity_first (Nat.lt_of_not_le short), eq_false_of_ne_true refused⟩

end appending

/-! ## The loop -/

section loop

variable {allocator : Allocator} {dialect : Dialect} {sources : UnitSources} {sql : Text}

/-- The units stand in order in the source, from an offset on. -/
def UnitsFrom (sqlLength : Nat) : Nat → List ControlUnit → Prop
  | sourceOffset, [] => sourceOffset ≤ sqlLength
  | sourceOffset, unit :: units => sourceOffset ≤ unit.sourceOffset ∧ UnitsFrom sqlLength unit.stop units

theorem UnitsFrom.le {sqlLength sourceOffset : Nat} {units : List ControlUnit}
    (ordered : UnitsFrom sqlLength sourceOffset units) :
    sourceOffset ≤ sqlLength := by
  induction units generalizing sourceOffset with
  | nil => exact ordered
  | cons unit units inductionHypothesis =>
    have := inductionHypothesis ordered.2
    have := ordered.1
    unfold ControlUnit.stop at *
    omega

theorem unitsFrom_of_sorted {sqlLength sourceOffset : Nat} {units : List ControlUnit}
    (inside : ∀ unit ∈ units, unit.stop ≤ sqlLength)
    (sorted : units.Pairwise fun left right => left.stop ≤ right.sourceOffset)
    (first : ∀ unit ∈ units, sourceOffset ≤ unit.sourceOffset)
    (bound : sourceOffset ≤ sqlLength) : UnitsFrom sqlLength sourceOffset units := by
  induction units generalizing sourceOffset with
  | nil => exact bound
  | cons unit units inductionHypothesis =>
    obtain ⟨behind, sorted⟩ := List.pairwise_cons.mp sorted
    exact ⟨first unit List.mem_cons_self, inductionHypothesis
      (fun other member => inside other (List.mem_cons_of_mem _ member))
      sorted behind (inside unit List.mem_cons_self)⟩

theorem gapSubtractions_ordered {sqlLength sourceOffset : Nat} {units : List ControlUnit}
    (ordered : UnitsFrom sqlLength sourceOffset units) :
    ∀ operands ∈ gapSubtractions sqlLength sourceOffset units, operands.2 ≤ operands.1 := by
  induction units generalizing sourceOffset with
  | nil =>
    intro operands listed
    rw [List.mem_singleton.mp listed]
    exact ordered
  | cons unit units inductionHypothesis =>
    intro operands listed
    rcases List.mem_cons.mp listed with rfl | later
    · exact ordered.1
    · exact inductionHypothesis ordered.2 operands later

theorem gap_eq {sourceOffset start : Nat} (ordered : sourceOffset ≤ start) (inside : start ≤ sizeMax) :
    bytesFrom sql sourceOffset (sizeSub start sourceOffset) = (sql.take start).drop sourceOffset := by
  rw [sizeSub_eq ordered inside, bytesFrom, List.take_drop, Nat.add_sub_cancel' ordered]

theorem rest_eq {sourceOffset : Nat} (inside : sourceOffset ≤ sql.length) (held : sql.length ≤ sizeMax) :
    bytesFrom sql sourceOffset (sizeSub sql.length sourceOffset) = sql.drop sourceOffset := by
  rw [gap_eq inside held, List.take_length]

theorem PlacedUnit.denotes_append {front text : Text} (unit : ControlUnit) (behind : Text) :
    PlacedUnit.Denotes (front ++ text ++ behind) ⟨unit, front.length, text.length⟩ text := by
  refine ⟨?_, rfl⟩
  rw [bytesFrom, List.append_assoc, List.drop_left, List.take_left]

/-- A finished loop has written the renderings between the gaps, and has noted where they stand. -/
theorem buildUnits_ok {index sourceOffset : Nat} {buffer next : ControlBuffer} {stop : Nat} {units : List PlacedUnit}
    (ordered : UnitsFrom sql.length sourceOffset (units.map PlacedUnit.unit)) (held : sql.length ≤ sizeMax)
    (built : (buildUnits allocator dialect sources sql index sourceOffset buffer units).result = .ok (next, stop)) :
    ∃ texts, renderings dialect sources sql index (units.map PlacedUnit.unit) = .ok texts ∧
      stop ≤ sql.length ∧ (∃ written, next.data = buffer.data ++ written ∧
        written ++ sql.drop stop = splice sql sourceOffset (unitEdits (units.map PlacedUnit.unit) texts)) ∧
      (buildUnits allocator dialect sources sql index sourceOffset buffer units).units.map PlacedUnit.unit =
        units.map PlacedUnit.unit ∧
      ∀ behind, List.Forall₂ (PlacedUnit.Denotes (next.data ++ behind))
        (buildUnits allocator dialect sources sql index sourceOffset buffer units).units texts := by
  induction units generalizing index sourceOffset buffer with
  | nil =>
    cases built
    exact ⟨[], rfl, ordered, ⟨[], by rw [List.append_nil], rfl⟩, rfl, fun _ => .nil⟩
  | cons placed units inductionHypothesis =>
    rw [List.map_cons] at ordered
    have inside := ordered.2.le
    have startInside : placed.unit.sourceOffset ≤ sizeMax := by
      unfold ControlUnit.stop at inside
      omega
    rw [buildUnits] at built ⊢
    rw [gap_eq ordered.1 startInside] at built ⊢
    cases gapped : buffer.append allocator ((sql.take placed.unit.sourceOffset).drop sourceOffset) with
    | error failure =>
      rw [gapped] at built
      cases built
    | ok gap =>
      rw [gapped] at built
      cases rendered : renderUnit dialect sources sql index placed.unit with
      | error failure =>
        rw [rendered] at built
        cases built
      | ok text =>
        rw [rendered] at built
        dsimp only at built ⊢
        cases appended : gap.append allocator text with
        | error failure =>
          rw [appended] at built
          cases built
        | ok after =>
          rw [appended] at built
          dsimp only at built ⊢
          have gapData := ControlBuffer.append_ok gapped
          have afterData := ControlBuffer.append_ok appended
          obtain ⟨texts, areRendered, stopInside, ⟨written, isData, isSplice⟩, sameUnits, denoted⟩ :=
            inductionHypothesis ordered.2 built
          refine ⟨text :: texts, ?_, stopInside,
            ⟨(sql.take placed.unit.sourceOffset).drop sourceOffset ++ text ++ written, ?_, ?_⟩, ?_, fun behind =>
              .cons ?_ (denoted behind)⟩
          · rw [List.map_cons, renderings, rendered, areRendered]
            rfl
          · rw [isData, afterData, gapData, List.append_assoc, List.append_assoc, List.append_assoc]
          · rw [List.append_assoc, isSplice]
            rfl
          · rw [List.map_cons, List.map_cons, sameUnits]
          · rw [isData, afterData, List.append_assoc]
            exact PlacedUnit.denotes_append placed.unit _

/-- A loop over rendered units stops where a request is refused, or where the limit is below the length of the text. -/
theorem buildUnits_cases (allocator : Allocator) {index sourceOffset : Nat} (buffer : ControlBuffer) {units : List PlacedUnit}
    {texts : List Text}
    (ordered : UnitsFrom sql.length sourceOffset (units.map PlacedUnit.unit)) (held : sql.length ≤ ptrdiffMax)
    (rendered : renderings dialect sources sql index (units.map PlacedUnit.unit) = .ok texts)
    (textsHeld : ∀ text ∈ texts, text.length ≤ ptrdiffMax) (allocated : buffer.capacity ≤ ptrdiffMax)
    (within : buffer.data.length ≤ buffer.limit) :
    ((buildUnits allocator dialect sources sql index sourceOffset buffer units).result = .error outOfMemory ∧
        allocator.RefusesFor (buffer.data.length +
          (splice sql sourceOffset (unitEdits (units.map PlacedUnit.unit) texts)).length)) ∨
      ((buildUnits allocator dialect sources sql index sourceOffset buffer units).result = .error outputLimitError ∧
        buffer.limit < buffer.data.length + (splice sql sourceOffset (unitEdits (units.map PlacedUnit.unit) texts)).length) ∨
      ∃ next stop, (buildUnits allocator dialect sources sql index sourceOffset buffer units).result = .ok (next, stop) ∧
        next.limit = buffer.limit ∧ next.capacity ≤ ptrdiffMax ∧ next.data.length ≤ next.limit ∧ stop ≤ sql.length ∧
        next.data.length + (sql.drop stop).length =
          buffer.data.length + (splice sql sourceOffset (unitEdits (units.map PlacedUnit.unit) texts)).length := by
  induction units generalizing index sourceOffset buffer texts with
  | nil =>
    cases rendered
    exact .inr (.inr ⟨buffer, sourceOffset, rfl, rfl, allocated, within, ordered, rfl⟩)
  | cons placed units inductionHypothesis =>
    rw [List.map_cons] at ordered rendered
    have inside := ordered.2.le
    have startInside : placed.unit.sourceOffset ≤ sizeMax := by
      unfold ControlUnit.stop at inside
      unfold ptrdiffMax at held
      unfold sizeMax
      omega
    rw [renderings] at rendered
    cases isText : renderUnit dialect sources sql index placed.unit with
    | error failure =>
      rw [isText] at rendered
      cases rendered
    | ok text =>
      rw [isText] at rendered
      obtain ⟨later, laterRendered, rfl⟩ := ok_of_map rendered
      rw [buildUnits, gap_eq ordered.1 startInside, isText]
      have gapHeld : ((sql.take placed.unit.sourceOffset).drop sourceOffset).length ≤ ptrdiffMax := by
        rw [List.length_drop, List.length_take]
        omega
      have spliceLength : (splice sql sourceOffset (unitEdits ((placed :: units).map PlacedUnit.unit)
        (text :: later))).length =
          ((sql.take placed.unit.sourceOffset).drop sourceOffset).length + text.length +
            (splice sql placed.unit.stop (unitEdits (units.map PlacedUnit.unit) later)).length := by
        rw [← List.length_append, ← List.length_append]
        rfl
      rw [spliceLength]
      rcases ControlBuffer.append_cases allocated gapHeld with
        ⟨failed, refuses⟩ | ⟨failed, beyond⟩ | ⟨gap, gapped, gapData, gapLimit, gapAllocated, gapWithin⟩
      · rw [failed]
        exact .inl ⟨rfl, refuses.mono (by omega)⟩
      · rw [failed]
        exact .inr (.inl ⟨rfl, by omega⟩)
      rw [gapped]
      dsimp only
      have gapLength : gap.data.length = buffer.data.length +
        ((sql.take placed.unit.sourceOffset).drop sourceOffset).length := by
        rw [gapData, List.length_append]
      rcases ControlBuffer.append_cases gapAllocated (textsHeld text List.mem_cons_self) with
        ⟨failed, refuses⟩ | ⟨failed, beyond⟩ | ⟨after, appended, afterData, afterLimit, afterAllocated, afterWithin⟩
      · rw [failed]
        exact .inl ⟨rfl, refuses.mono (by omega)⟩
      · rw [failed]
        exact .inr (.inl ⟨rfl, by omega⟩)
      rw [appended]
      dsimp only
      have afterLength : after.data.length = gap.data.length + text.length := by rw [afterData, List.length_append]
      rcases inductionHypothesis after ordered.2 laterRendered
        (fun other member => textsHeld other (List.mem_cons_of_mem _ member))
        afterAllocated (by omega) with ⟨failed, refuses⟩ | ⟨failed, beyond⟩ | ⟨next, stop, built, nextLimit, nextAllocated,
          nextWithin, stopInside, total⟩
      · exact .inl ⟨failed, refuses.mono (by omega)⟩
      · exact .inr (.inl ⟨failed, by omega⟩)
      · exact .inr (.inr ⟨next, stop, built, by omega, nextAllocated, nextWithin, stopInside, by omega⟩)

end loop

/-! ## The whole text -/

section whole

variable {allocator : Allocator} {dialect : Dialect} {sources : UnitSources} {sql : Text}
  {ast : Except Error (List (Option ControlRawStmt))} {state : ControlState}

/-- The validator leaves the units in order inside the source. -/
theorem unitsFrom_of_valid (valid : validateState ast sql.length state = .ok ()) : UnitsFrom sql.length 0 state.units := by
  obtain ⟨-, stmts, -, sameCount, -, -, -, -, -, -, units, -⟩ := validateState_iff.mp valid
  have mapped := ((validateUnits_mapped (Decidable.not_not.mp sameCount)).mp units).1
  exact unitsFrom_of_sorted (fun unit member => (mapped.inside unit member).2) mapped.sorted
    (fun _ _ => Nat.zero_le _) (Nat.zero_le _)

theorem ast_of_valid (valid : validateState ast sql.length state = .ok ()) : ∃ stmts, ast = .ok stmts := by
  obtain ⟨-, stmts, parsed, -⟩ := validateState_iff.mp valid
  exact ⟨stmts, parsed⟩

variable {limit : Nat} {units : List PlacedUnit}

theorem limit_ne_memory {α : Type} : (.error outputLimitError : Except Error α) ≠ .error outOfMemory := by
  intro same
  cases same

/-- A rebuilt text is the source with the renderings in the places of the units, which the units then denote; no offset is
subtracted from a smaller one; memory is short only where a request is refused; and otherwise the limit is reported for
exactly the longer texts. -/
theorem control_build_preserves_envelope (valid : validateState ast sql.length state = .ok ())
    (ofState : units.map PlacedUnit.unit = state.units) (held : sql.length ≤ ptrdiffMax) :
    (∀ text, (controlBuildPublicSql allocator dialect sources sql ast limit units).result = .ok text →
      ∃ texts, renderings dialect sources sql 0 state.units = .ok texts ∧ text = splice sql 0 (unitEdits state.units texts) ∧
        (controlBuildPublicSql allocator dialect sources sql ast limit units).units.map PlacedUnit.unit = state.units ∧
        List.Forall₂ (PlacedUnit.Denotes text) (controlBuildPublicSql allocator dialect sources sql ast limit
          units).units texts) ∧
      (∀ operands ∈ gapSubtractions sql.length 0 state.units, operands.2 ≤ operands.1) ∧
      ∀ texts, renderings dialect sources sql 0 state.units = .ok texts → (∀ text ∈ texts, text.length ≤ ptrdiffMax) →
        ((controlBuildPublicSql allocator dialect sources sql ast limit units).result = .error outOfMemory →
          allocator.RefusesFor (splice sql 0 (unitEdits state.units texts)).length) ∧
        ((controlBuildPublicSql allocator dialect sources sql ast limit units).result ≠ .error outOfMemory →
          ((∃ message, (controlBuildPublicSql allocator dialect sources sql ast limit units).result = .error
            ⟨.resourceLimit, message⟩) ↔
            limit < (splice sql 0 (unitEdits state.units texts)).length)) := by
  obtain ⟨stmts, rfl⟩ := ast_of_valid valid
  have ordered := unitsFrom_of_valid valid
  rw [← ofState] at ordered ⊢
  have sizeHeld : sql.length ≤ sizeMax := by
    unfold ptrdiffMax at held
    unfold sizeMax
    omega
  unfold controlBuildPublicSql
  dsimp only
  refine ⟨fun text isText => ?_, gapSubtractions_ordered ordered, fun texts rendered textsHeld => ?_⟩
  · cases built : (buildUnits allocator dialect sources sql 0 0 (.empty limit) units).result with
    | error failure =>
      rw [built] at isText
      cases isText
    | ok reached =>
      obtain ⟨buffer, sourceOffset⟩ := reached
      rw [built] at isText
      obtain ⟨final, appended, rfl⟩ := ok_of_map isText
      obtain ⟨texts, rendered, inside, ⟨written, isData, isSplice⟩, sameUnits, denoted⟩ :=
        buildUnits_ok ordered sizeHeld built
      have isFinal := ControlBuffer.append_ok appended
      rw [rest_eq inside sizeHeld] at isFinal
      refine ⟨texts, rendered, ?_, sameUnits, ?_⟩
      · rw [isFinal, isData, List.append_assoc, isSplice]
        rfl
      · rw [isFinal]
        exact denoted _
  · rcases buildUnits_cases allocator (.empty limit) ordered held rendered textsHeld (Nat.zero_le _) (Nat.zero_le _) with
      ⟨failed, refuses⟩ | ⟨failed, beyond⟩ | ⟨next, stop, built, nextLimit, nextAllocated, nextWithin, inside, total⟩
    · rw [failed]
      rw [ControlBuffer.empty, List.length_nil, Nat.zero_add] at refuses
      exact ⟨fun _ => refuses, fun enough => absurd rfl enough⟩
    · rw [failed]
      refine ⟨fun other => absurd other limit_ne_memory, fun _ => ⟨fun _ => ?_, fun _ => ⟨_, rfl⟩⟩⟩
      rwa [ControlBuffer.empty, List.length_nil, Nat.zero_add] at beyond
    rw [built]
    dsimp only
    rw [rest_eq inside sizeHeld]
    rw [ControlBuffer.empty, List.length_nil, Nat.zero_add] at total
    have isLimit : next.limit = limit := nextLimit
    have restHeld : (sql.drop stop).length ≤ ptrdiffMax := by
      rw [List.length_drop]
      omega
    rcases ControlBuffer.append_cases nextAllocated restHeld with
      ⟨failed, refuses⟩ | ⟨failed, beyond⟩ | ⟨final, appended, -, -, -, within⟩
    · rw [failed]
      exact ⟨fun _ => refuses.mono total.le, fun enough => absurd rfl enough⟩
    · rw [failed]
      exact ⟨fun other => absurd other limit_ne_memory, fun _ => ⟨fun _ => by omega, fun _ => ⟨_, rfl⟩⟩⟩
    · rw [appended]
      exact ⟨nofun, fun _ => ⟨nofun, fun longer => by omega⟩⟩

end whole

/-- An IF with its condition and one statement. -/
def oneBranch : ControlState where
  roots := ⟨0, 1⟩
  nodes := [⟨.ifNode, ⟨1, 1⟩⟩]
  branches := [⟨0, true, ⟨2, 1⟩⟩]
  items := [⟨.node, 0⟩, ⟨.statement, 1⟩]
  indexPool := [0, 0, 1]
  units := [⟨.condition, 0, 3, 3⟩, ⟨.statement, 1, 7, 8⟩]

theorem oneBranch_valid :
    validateState (.ok [some ⟨some (.selectStmt (some true))⟩, some ⟨some .other⟩]) 16 oneBranch = .ok () := rfl

def oneBranchSources : UnitSources where
  statementNode _ := .ok none
  render index _ := .ok (some (if index = 0 then ascii "x = 1" else ascii "SELECT y"))

def smallAllocator : Allocator where
  grants size := size ≤ 256
  bounded size granted := (of_decide_eq_true granted).trans (by decide)

def oneBranchUnits : List PlacedUnit :=
  oneBranch.units.map fun unit => ⟨unit, 0, 0⟩

theorem control_build_preserves_envelope_one_branch :
    (∀ text, (controlBuildPublicSql smallAllocator .sqlserver oneBranchSources (ascii "IF a=1 SELECT x;")
        (.ok [some ⟨some (.selectStmt (some true))⟩, some ⟨some .other⟩]) 64 oneBranchUnits).result = .ok text →
      text = ascii "IF x = 1 SELECT y;") ∧
      ∀ operands ∈ gapSubtractions 16 0 oneBranch.units, operands.2 ≤ operands.1 := by
  have envelope := @control_build_preserves_envelope smallAllocator .sqlserver oneBranchSources (ascii "IF a=1 SELECT x;")
    (.ok [some ⟨some (.selectStmt (some true))⟩, some ⟨some .other⟩]) oneBranch 64 oneBranchUnits oneBranch_valid rfl
      (by decide)
  refine ⟨fun text built => ?_, envelope.2.1⟩
  obtain ⟨texts, rendered, isText, -⟩ := envelope.1 text built
  have areTexts : renderings .sqlserver oneBranchSources (ascii "IF a=1 SELECT x;") 0 oneBranch.units =
      .ok [ascii "x = 1", ascii "SELECT y"] := rfl
  rw [areTexts] at rendered
  cases rendered
  rw [isText]
  rfl

end SqlParser.Core
