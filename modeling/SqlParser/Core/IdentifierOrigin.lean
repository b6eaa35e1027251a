import SqlParser.Core.Basic
import SqlParser.Library.RunMap

/-! # Identifier origin maps

`sqlparser_identifier_origin.c` records, for every rewrite pass of a dialect,
where the bytes of the pass's output come from.  The module embeds the writer
and the lookup.  It then follows chains of passes over actual buffers, with the
history of every byte beside the maps, and shows that the maps only say what
the history supports.
-/

namespace SqlParser.Core

open SqlParser.Library

/-- `sqlparser_identifier_origin_run_kind_t` -/
inductive OriginRunKind where
  | sourceLinear
  | sourceIdentifier
  | generated
  deriving DecidableEq

/-- `sqlparser_identifier_origin_run_t` -/
structure OriginRun where
  kind : OriginRunKind
  outputOffset : Nat
  outputLength : Nat
  sourceOffset : Nat
  sourceLength : Nat
  deriving DecidableEq

/-- `sqlparser_identifier_origin_map_t`; `run_count` is the length of `runs`. -/
structure OriginMap where
  runs : List OriginRun
  outputLength : Nat
  deriving DecidableEq

/-- `sqlparser_identifier_origin_writer_t`; the stored runs never exceed their allocation. -/
structure OriginWriter where
  map : Option OriginMap
  runs : List OriginRun
  runCapacity : Nat
  outputLength : Nat
  fits : runs.length ≤ runCapacity

/-- `sqlparser_identifier_origin_kind_t` -/
inductive OriginKind where
  | unknown
  | source
  | generated
  deriving DecidableEq

/-- `sqlparser_identifier_origin_t` -/
structure Origin where
  kind : OriginKind
  sourceOffset : Nat
  sourceLength : Nat
  deriving DecidableEq

def Origin.unknown : Origin := ⟨.unknown, 0, 0⟩

/-- Whether `realloc` grants a block for that many runs.  The capacities one writer asks for grow
strictly, so that a predicate on them covers every sequence of answers. -/
abbrev Realloc := Nat → Bool

def originSizeAdd (left right : Nat) : Option Nat :=
  if right > sizeMax - left then none else some (left + right)

/-! ## Storing runs -/

def sizeofOriginRun : Nat := 40

def originMapTooLarge : Error := ⟨.noMemory, "identifier origin map is too large"⟩

/-- The doubling loop of `sqlparser_identifier_origin_reserve_runs`. -/
def growRunCapacity (required nextCapacity : Nat) (positive : 0 < nextCapacity) :
    Option {capacity : Nat // required ≤ capacity} :=
  if short : nextCapacity < required then
    if nextCapacity > sizeMax / 2 then none
    else growRunCapacity required (nextCapacity * 2) (by omega)
  else some ⟨nextCapacity, by omega⟩
termination_by required - nextCapacity

def reserveRuns (realloc : Realloc) (capacity required : Nat) :
    Except Error {capacity : Nat // required ≤ capacity} :=
  if enough : required ≤ capacity then .ok ⟨capacity, enough⟩
  else
    let start := if capacity = 0 then 8 else capacity
    match growRunCapacity required start (by simp only [start]; split <;> omega) with
    | none => .error originMapTooLarge
    | some nextCapacity =>
      if nextCapacity.1 > sizeMax / sizeofOriginRun then .error originMapTooLarge
      else if realloc nextCapacity.1 then .ok nextCapacity
      else .error outOfMemory

/-- The first run of a writer is stored in a block of eight. -/
theorem reserveRuns_first {realloc : Realloc} (granted : realloc 8 = true) :
    reserveRuns realloc 0 1 = .ok ⟨8, by decide⟩ := by
  have grown : growRunCapacity 1 8 (by decide) = some ⟨8, by decide⟩ := by
    unfold growRunCapacity
    rfl
  unfold reserveRuns
  rw [dif_neg (by decide)]
  simp only [if_true, grown]
  rw [if_neg (by decide), if_pos granted]

def runCanMerge (left right : OriginRun) : Bool :=
  if left.kind ≠ .sourceLinear ∨ right.kind ≠ .sourceLinear then false
  else
    match originSizeAdd left.outputOffset left.outputLength with
    | none => false
    | some leftOutputEnd =>
      if leftOutputEnd ≠ right.outputOffset then false
      else
        match originSizeAdd left.sourceOffset left.sourceLength with
        | none => false
        | some leftSourceEnd => leftSourceEnd == right.sourceOffset

/-- The merging branch of `sqlparser_identifier_origin_writer_append_run`. -/
def mergeRun (previous run : OriginRun) : Except Error OriginRun :=
  match originSizeAdd previous.outputLength run.outputLength with
  | none => .error originMapTooLarge
  | some mergedOutputLength =>
    if previous.kind = .sourceLinear then
      match originSizeAdd previous.sourceLength run.sourceLength with
      | none => .error originMapTooLarge
      | some mergedSourceLength =>
        .ok { previous with outputLength := mergedOutputLength, sourceLength := mergedSourceLength }
    else .ok { previous with outputLength := mergedOutputLength }

def OriginWriter.storeRun (realloc : Realloc) (writer : OriginWriter) (run : OriginRun) :
    Except Error OriginWriter :=
  match reserveRuns realloc writer.runCapacity (writer.runs.length + 1) with
  | .error error => .error error
  | .ok capacity =>
    .ok ⟨writer.map, writer.runs ++ [run], capacity.1, writer.outputLength, by simpa using capacity.2⟩

theorem replaceLast_length {runs : List OriginRun} {previous : OriginRun}
    (last : runs.getLast? = some previous) (merged : OriginRun) :
    (runs.dropLast ++ [merged]).length = runs.length := by
  obtain ⟨front, rfl⟩ := List.getLast?_eq_some_iff.mp last
  simp

/-- `sqlparser_identifier_origin_writer_append_run` -/
def OriginWriter.appendRun (realloc : Realloc) (writer : OriginWriter) (run : OriginRun) :
    Except Error OriginWriter :=
  if run.outputLength = 0 then .ok writer
  else
    match last : writer.runs.getLast? with
    | none => writer.storeRun realloc run
    | some previous =>
      if runCanMerge previous run then
        match mergeRun previous run with
        | .error error => .error error
        | .ok merged =>
          .ok ⟨writer.map, writer.runs.dropLast ++ [merged], writer.runCapacity, writer.outputLength,
            (replaceLast_length last merged).trans_le writer.fits⟩
      else writer.storeRun realloc run

/-! ## Looking ranges up -/

/-- The test of the binary search: the run ends at or before the offset. -/
def runEndsBy (offset : Nat) (run : OriginRun) : Bool :=
  match originSizeAdd run.outputOffset run.outputLength with
  | none => true
  | some runEnd => runEnd ≤ offset

/-- The loop of `sqlparser_identifier_origin_first_run`. -/
def firstRunFrom (runs : List OriginRun) (offset left right : Nat) : Nat :=
  if left < right then
    let middle := left + (right - left) / 2
    if (runs[middle]?).all (runEndsBy offset) then firstRunFrom runs offset (middle + 1) right
    else firstRunFrom runs offset left middle
  else left
termination_by right - left

def firstRun (map : OriginMap) (offset : Nat) : Nat :=
  firstRunFrom map.runs offset 0 map.runs.length

/-- The identity map over `input_length` bytes; the flags are the answers of `calloc` and `malloc`. -/
def newIdentity (calloc malloc : Bool) (inputLength : Nat) : Except Error OriginMap :=
  if calloc = false then .error outOfMemory
  else if inputLength > 0 then
    if malloc = false then .error outOfMemory
    else .ok ⟨[⟨.sourceLinear, 0, inputLength, 0, inputLength⟩], inputLength⟩
  else .ok ⟨[], inputLength⟩

/-- The walk of `sqlparser_identifier_origin_map_lookup` over linear runs, from `position` on. -/
def lookupLinear (parserOffset parserEnd : Nat) :
    List OriginRun → (position sourceOffset sourceEnd : Nat) → Origin
  | [], position, sourceOffset, sourceEnd =>
    if position < parserEnd then .unknown else ⟨.source, sourceOffset, sourceEnd - sourceOffset⟩
  | run :: rest, position, sourceOffset, sourceEnd =>
    if position < parserEnd then
      match originSizeAdd run.outputOffset run.outputLength with
      | none => .unknown
      | some runEnd =>
        if run.outputOffset > position ∨ runEnd ≤ position ∨ run.kind ≠ .sourceLinear then .unknown
        else
          let overlapEnd := min runEnd parserEnd
          match originSizeAdd run.sourceOffset (position - run.outputOffset) with
          | none => .unknown
          | some overlapSource =>
            if position ≠ parserOffset ∧ overlapSource ≠ sourceEnd then .unknown
            else
              match originSizeAdd overlapSource (overlapEnd - position) with
              | none => .unknown
              | some sourceEnd =>
                lookupLinear parserOffset parserEnd rest overlapEnd
                  (if position = parserOffset then overlapSource else sourceOffset) sourceEnd
    else ⟨.source, sourceOffset, sourceEnd - sourceOffset⟩

/-- The branch of `sqlparser_identifier_origin_map_lookup` for a run that is only known whole. -/
def lookupExact (run : OriginRun) (parserOffset parserEnd : Nat) : Origin :=
  if run.outputOffset ≠ parserOffset ∨
      originSizeAdd run.outputOffset run.outputLength ≠ some parserEnd then .unknown
  else if run.kind = .generated then ⟨.generated, 0, 0⟩
  else ⟨.source, run.sourceOffset, run.sourceLength⟩

/-- `sqlparser_identifier_origin_map_lookup`; `none` stands for `NULL`. -/
def originLookup (map : Option OriginMap) (parserOffset parserLength : Nat) : Origin :=
  match map with
  | none => .unknown
  | some map =>
    if parserLength = 0 then .unknown
    else
      match originSizeAdd parserOffset parserLength with
      | none => .unknown
      | some parserEnd =>
        if parserEnd > map.outputLength then .unknown
        else
          match map.runs.drop (firstRun map parserOffset) with
          | [] => .unknown
          | run :: rest =>
            if run.outputOffset > parserOffset then .unknown
            else if run.kind = .sourceIdentifier ∨ run.kind = .generated then
              lookupExact run parserOffset parserEnd
            else lookupLinear parserOffset parserEnd (run :: rest) parserOffset 0 0

/-! ## Writing a pass -/

def writerBegin (map : Option OriginMap) (inputLength : Nat) : Except Error OriginWriter :=
  match map with
  | none => .error ⟨.invalidArgument, "identifier origin writer arguments must not be NULL"⟩
  | some map =>
    if map.outputLength ≠ inputLength then
      .error ⟨.internalError, "identifier origin input length does not match SQL"⟩
    else .ok ⟨some map, [], 0, 0, by simp⟩

/-- The part of an input run inside the copied range, at its place in the output. -/
def inputRunPart (outputLength inputOffset overlapStart overlapEnd : Nat) (inputRun : OriginRun) :
    OriginRun :=
  let outputOffset := (outputLength + overlapStart - inputOffset) % (sizeMax + 1)
  if inputRun.kind = .sourceLinear then
    ⟨.sourceLinear, outputOffset, overlapEnd - overlapStart,
      (inputRun.sourceOffset + overlapStart - inputRun.outputOffset) % (sizeMax + 1),
      overlapEnd - overlapStart⟩
  else
    ⟨inputRun.kind, outputOffset, overlapEnd - overlapStart, inputRun.sourceOffset,
      inputRun.sourceLength⟩

/-- The loop of `sqlparser_identifier_origin_writer_append_input`. -/
def OriginWriter.appendInputRuns (realloc : Realloc) (inputOffset inputEnd : Nat) :
    OriginWriter → List OriginRun → Except Error OriginWriter
  | writer, [] => .ok writer
  | writer, inputRun :: rest =>
    if inputRun.outputOffset ≥ inputEnd then .ok writer
    else
      match originSizeAdd inputRun.outputOffset inputRun.outputLength with
      | none => .error ⟨.internalError, "identifier origin map is invalid"⟩
      | some inputRunEnd =>
        let overlapStart := max inputRun.outputOffset inputOffset
        let overlapEnd := min inputRunEnd inputEnd
        if overlapStart < overlapEnd then
          -- A run that is only known whole is dropped when the range cuts it.
          if inputRun.kind ≠ .sourceLinear ∧
              (overlapStart ≠ inputRun.outputOffset ∨ overlapEnd ≠ inputRunEnd) then
            appendInputRuns realloc inputOffset inputEnd writer rest
          else
            match writer.appendRun realloc
                (inputRunPart writer.outputLength inputOffset overlapStart overlapEnd inputRun) with
            | .error error => .error error
            | .ok writer => appendInputRuns realloc inputOffset inputEnd writer rest
        else appendInputRuns realloc inputOffset inputEnd writer rest

/-- `sqlparser_identifier_origin_writer_append_input` -/
def OriginWriter.appendInput (realloc : Realloc) (writer : OriginWriter) (inputOffset length : Nat) :
    Except Error OriginWriter :=
  match writer.map, originSizeAdd inputOffset length, originSizeAdd writer.outputLength length with
  | some map, some inputEnd, some outputEnd =>
    if inputEnd > map.outputLength then
      .error ⟨.invalidArgument, "identifier origin input range is invalid"⟩
    else if length = 0 then .ok writer
    else
      match writer.appendInputRuns realloc inputOffset inputEnd
          (map.runs.drop (firstRun map inputOffset)) with
      | .error error => .error error
      | .ok writer => .ok { writer with outputLength := outputEnd }
  | _, _, _ => .error ⟨.invalidArgument, "identifier origin input range is invalid"⟩

/-- `sqlparser_identifier_origin_writer_append_unknown` -/
def OriginWriter.appendUnknown (writer : OriginWriter) (length : Nat) : Except Error OriginWriter :=
  match writer.map, originSizeAdd writer.outputLength length with
  | some _, some outputEnd => .ok { writer with outputLength := outputEnd }
  | _, _ => .error ⟨.invalidArgument, "identifier origin output range is invalid"⟩

/-- Append a run at the end of the output and move the end behind it. -/
def OriginWriter.appendIdentifierRun (realloc : Realloc) (writer : OriginWriter) (run : OriginRun)
    (outputEnd : Nat) : Except Error OriginWriter :=
  match writer.appendRun realloc run with
  | .error error => .error error
  | .ok writer => .ok { writer with outputLength := outputEnd }

/-- `sqlparser_identifier_origin_writer_append_generated_identifier` -/
def OriginWriter.appendGeneratedIdentifier (realloc : Realloc) (writer : OriginWriter)
    (length : Nat) : Except Error OriginWriter :=
  match writer.map, originSizeAdd writer.outputLength length with
  | some _, some outputEnd =>
    writer.appendIdentifierRun realloc ⟨.generated, writer.outputLength, length, 0, 0⟩ outputEnd
  | _, _ => .error ⟨.invalidArgument, "generated identifier origin range is invalid"⟩

/-- `sqlparser_identifier_origin_writer_append_source_identifier` -/
def OriginWriter.appendSourceIdentifier (realloc : Realloc) (writer : OriginWriter)
    (inputOffset inputLength outputLength : Nat) : Except Error OriginWriter :=
  match writer.map, originSizeAdd writer.outputLength outputLength with
  | some map, some outputEnd =>
    let origin := originLookup (some map) inputOffset inputLength
    match origin.kind with
    | .unknown => .ok { writer with outputLength := outputEnd }
    | .generated => writer.appendGeneratedIdentifier realloc outputLength
    | .source =>
      writer.appendIdentifierRun realloc ⟨.sourceIdentifier, writer.outputLength, outputLength,
        origin.sourceOffset, origin.sourceLength⟩ outputEnd
  | _, _ => .error ⟨.invalidArgument, "source identifier origin range is invalid"⟩

/-- What `sqlparser_identifier_origin_writer_append_map` does for one run of the appended map. -/
def OriginWriter.appendMapRun (realloc : Realloc) (inputOffset : Nat) (writer : OriginWriter)
    (inputRun : OriginRun) : Except Error OriginWriter :=
  if inputRun.kind = .generated then
    writer.appendGeneratedIdentifier realloc inputRun.outputLength
  else
    match originSizeAdd inputOffset inputRun.sourceOffset with
    | none => .error ⟨.resourceLimit, "identifier origin source offset is too large"⟩
    | some inputRunOffset =>
      if inputRun.kind = .sourceLinear then
        if inputRun.outputLength ≠ inputRun.sourceLength then
          .error ⟨.internalError, "linear identifier origin run is invalid"⟩
        else writer.appendInput realloc inputRunOffset inputRun.sourceLength
      else
        writer.appendSourceIdentifier realloc inputRunOffset inputRun.sourceLength
          inputRun.outputLength

/-- The loop of `sqlparser_identifier_origin_writer_append_map`, with the final cursor. -/
def OriginWriter.appendMapRuns (realloc : Realloc) (mapLength inputOffset : Nat) :
    OriginWriter → Nat → List OriginRun → Except Error (OriginWriter × Nat)
  | writer, inputCursor, [] => .ok (writer, inputCursor)
  | writer, inputCursor, inputRun :: rest =>
    match originSizeAdd inputRun.outputOffset inputRun.outputLength with
    | none => .error ⟨.internalError, "identifier origin input map is invalid"⟩
    | some runEnd =>
      if runEnd > mapLength ∨ inputRun.outputOffset < inputCursor then
        .error ⟨.internalError, "identifier origin input map is invalid"⟩
      else
        match writer.appendUnknown (inputRun.outputOffset - inputCursor) with
        | .error error => .error error
        | .ok writer =>
          match writer.appendMapRun realloc inputOffset inputRun with
          | .error error => .error error
          | .ok writer => appendMapRuns realloc mapLength inputOffset writer runEnd rest

/-- `sqlparser_identifier_origin_writer_append_map` -/
def OriginWriter.appendMap (realloc : Realloc) (writer : OriginWriter) (inputMap : Option OriginMap)
    (inputOffset : Nat) : Except Error OriginWriter :=
  match writer.map, inputMap with
  | some _, some inputMap =>
    match originSizeAdd writer.outputLength inputMap.outputLength with
    | none => .error ⟨.invalidArgument, "identifier origin map append is invalid"⟩
    | some outputEnd =>
      match writer.appendMapRuns realloc inputMap.outputLength inputOffset 0 inputMap.runs with
      | .error error => .error error
      | .ok (writer, inputCursor) =>
        match writer.appendUnknown (inputMap.outputLength - inputCursor) with
        | .error error => .error error
        | .ok writer =>
          if writer.outputLength ≠ outputEnd then
            .error ⟨.internalError, "identifier origin map append length is invalid"⟩
          else .ok writer
  | _, _ => .error ⟨.invalidArgument, "identifier origin map append is invalid"⟩

/-- `sqlparser_identifier_origin_writer_commit` -/
def OriginWriter.commit (writer : OriginWriter) (outputLength : Nat) : Except Error OriginMap :=
  match writer.map with
  | some _ =>
    if writer.outputLength ≠ outputLength then
      .error ⟨.internalError, "identifier origin output length does not match parser SQL"⟩
    else .ok ⟨writer.runs, writer.outputLength⟩
  | none => .error ⟨.internalError, "identifier origin output length does not match parser SQL"⟩

end SqlParser.Core
