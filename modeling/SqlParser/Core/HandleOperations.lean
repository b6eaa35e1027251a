import SqlParser.Core.CompactInsert
import SqlParser.Core.ControlState

/-! # Operations on a handle

A handle owns a SQL text, a representation of its tree, the state of the dialect and a generation.
The commits, the destructive reparse, the replacement of its contents and the failure mark are the operations
that `sqlparser_apply_patch` is made of, and the views that a caller records carry the generation.
-/

namespace SqlParser.Core

/-! ## The handle -/

/-- The bits of `patch_batch_flags`. -/
structure PatchBatchFlags where
  active : Bool
  astDirty : Bool
  multiInsertDirty : Bool
  inPlace : Bool
  deriving DecidableEq

def PatchBatchFlags.none : PatchBatchFlags := ⟨false, false, false, false⟩

/-- What is remembered of the bind occurrences or of the query graph. -/
structure ViewCache where
  generation : Nat
  count : Nat
  deriving DecidableEq

/-- `sqlparser_handle_t`, where `none` stands for a NULL pointer. -/
structure Handle (Ast State : Type) where
  sql : Option Text
  parserSql : Option Text
  statementCount : Nat
  generation : Nat
  parseTree : Option Text
  representation : Representation
  compactInsert : Option CompactScalarInsert
  compactGeneration : Nat
  ast : Option Ast
  astStateBound : Bool
  dialectState : Option State
  control : Option ControlState
  queryGraph : Option ViewCache
  bindOccurrences : Option ViewCache
  patchBatchFlags : PatchBatchFlags
  surfaceSourceComplete : Bool
  failed : Bool
  deriving DecidableEq

/-- A status that tells of an error. -/
abbrev Refusal := { status : Status // status ≠ .ok }

/-- What comes of packing a tree. -/
inductive Packing where
  | unsized
  | refused (refusal : Refusal)
  | packed (wire : Text)

/-- What a parse of replaced text leaves in a handle: a wire or a tree, but no compact INSERT. -/
structure Parsed (Ast State : Type) where
  sql : Text
  parserSql : Text
  statementCount : Nat
  tree : Text ⊕ Ast
  dialectState : Option State
  control : Option ControlState

/-- The hooks of the dialect, the parser, the serializer and the limits. -/
structure Environment (Ast State : Type) where
  statementCount : Ast → Nat
  maxStatementCount : Nat
  maxSqlBytes : Nat
  validateStatements : Option State → Ast → Status
  bindAstState : Option State → Option Ast → Status × Option State
  prepareAstState : Option State → Ast → Status × Option State
  reconcileAstState : Option State → Ast → Option State
  pack : Ast → Packing
  packCertified : Ast → Option (Except Refusal Text)
  unpack : Text → Option Ast
  parseOwned : Text → Except Refusal Ast
  parse : Text → Except Refusal (Parsed Ast State)
  deparse : Handle Ast State → Except Refusal Text
  bindCount : Handle Ast State → Except Refusal Nat
  graphCount : Handle Ast State → Except Refusal Nat
  malloc : Nat → Bool

/-- `sqlparser_validate_statement_count_limit` -/
def Environment.statementCountFits {Ast State : Type} (env : Environment Ast State) (count : Nat) : Bool :=
  env.maxStatementCount = 0 || count ≤ env.maxStatementCount

/-- `sqlparser_validate_text_limit` -/
def Environment.textFits {Ast State : Type} (env : Environment Ast State) (text : Text) : Bool :=
  env.maxSqlBytes = 0 || text.length ≤ env.maxSqlBytes

namespace Handle

section operations

variable {Ast State : Type} (env : Environment Ast State) (handle : Handle Ast State)

/-- `sqlparser_handle_has_representation` -/
def hasRepresentation : Bool :=
  !handle.failed &&
    (handle.representation = .compactInsert && handle.compactInsert.isSome && handle.compactGeneration = handle.generation ||
      handle.parseTree.isSome || handle.ast.isSome)

/-- `sqlparser_handle_clear_ast` -/
def clearAst : Handle Ast State :=
  match handle.ast with
  | none => { handle with astStateBound := false }
  | some _ =>
    { handle with
      ast := none
      astStateBound := false
      representation :=
        match handle.representation with
        | .legacyAst => .legacyWire
        | .ownedAst => .empty
        | other => other }

/-- `sqlparser_handle_discard_ast_adapter` -/
def discardAstAdapter : Handle Ast State :=
  if handle.representation ≠ .ownedAst then handle.clearAst else handle

/-- `sqlparser_handle_invalidate_derived` -/
def invalidateDerived : Handle Ast State :=
  { handle with queryGraph := none, bindOccurrences := none }

/-- `sqlparser_handle_release_contents`, which leaves the failure mark alone. -/
def releaseContents : Handle Ast State where
  sql := none
  parserSql := none
  statementCount := 0
  generation := 0
  parseTree := none
  representation := .empty
  compactInsert := none
  compactGeneration := 0
  ast := none
  astStateBound := false
  dialectState := none
  control := none
  queryGraph := none
  bindOccurrences := none
  patchBatchFlags := .none
  surfaceSourceComplete := false
  failed := handle.failed

/-- `sqlparser_handle_mark_failed` -/
def markFailed : Handle Ast State :=
  if handle.failed then handle
  else { handle.releaseContents with generation := nextGeneration handle.generation, failed := true }

/-- `sqlparser_handle_promote_compact` -/
def promoteCompact : Status × Handle Ast State :=
  if handle.compactInsert = none then (.ok, handle)
  else if !handle.hasRepresentation then (.invalidArgument, handle)
  else
    match handle.parserSql with
    | none => (.parseError, handle)
    | some parserSql =>
      match env.parseOwned parserSql with
      | .error refusal => (refusal.val, handle)
      | .ok ast =>
        (.ok, { handle with ast := some ast, compactInsert := none, representation := .ownedAst, astStateBound := false })

/-- The binding of the dialect's state in `sqlparser_handle_ensure_ast`. -/
def bindAst (ast : Ast) : Status × Handle Ast State :=
  let (status, state) := env.bindAstState handle.dialectState (some ast)
  if status = .ok then (.ok, { handle with dialectState := state, astStateBound := true })
  else if handle.representation = .ownedAst then
    (status, { handle with dialectState := state, astStateBound := false })
  else (status, { handle with dialectState := state }.discardAstAdapter)

/-- `sqlparser_handle_ensure_ast` -/
def ensureAst : Status × Handle Ast State :=
  if !handle.hasRepresentation then (.invalidArgument, handle)
  else
    match handle.promoteCompact env with
    | (.ok, handle) =>
      match handle.ast with
      | some ast => if handle.astStateBound then (.ok, handle) else handle.bindAst env ast
      | none =>
        match handle.parseTree.bind env.unpack with
        | none => (.internalError, handle)
        | some ast => { handle with ast := some ast, representation := .legacyAst }.bindAst env ast
    | (status, handle) => (status, handle)

/-- `sqlparser_handle_flush_ast` -/
def flushAst : Status × Handle Ast State :=
  if !handle.patchBatchFlags.astDirty then (.ok, handle)
  else
    let clean := { handle with patchBatchFlags := { handle.patchBatchFlags with astDirty := false } }
    match handle.ast with
    | none => (.invalidArgument, handle)
    | some ast =>
      if handle.representation = .ownedAst then (.ok, clean)
      else
        -- inside a patch the old wire is given up before the tree is packed
        let released := if handle.patchBatchFlags.inPlace then { handle with parseTree := none } else handle
        match env.pack ast with
        | .unsized => (.internalError, handle.clearAst)
        | .refused refusal => (refusal.val, released.clearAst)
        | .packed wire => (.ok, { clean with parseTree := some wire })

/-! ### Commits of a changed tree -/

/-- The end of `sqlparser_handle_commit_ast_internal`, after every check. -/
def reconcileAst (ast : Ast) : Handle Ast State :=
  { handle with
    dialectState := env.reconcileAstState handle.dialectState ast
    statementCount := (handle.control.map fun (control : ControlState) => control.units.length).getD (env.statementCount ast)
    generation := nextGeneration handle.generation
    surfaceSourceComplete := false }.invalidateDerived

/-- The serialization of a commit, which an active patch defers. -/
def flushCommit (ast : Ast) : Status × Handle Ast State :=
  let dirty := { handle with patchBatchFlags := { handle.patchBatchFlags with astDirty := true } }
  let flush : Status × Handle Ast State := if handle.patchBatchFlags.active then (.ok, dirty) else dirty.flushAst env
  match flush with
  | (.ok, flushed) => (.ok, flushed.reconcileAst env ast)
  | (status, flushed) => (status, flushed)

/-- The checks between the dialect's own and the serialization. -/
def prepareCommit (ast : Ast) : Status × Handle Ast State :=
  if handle.control.any fun control => env.statementCount ast ≠ control.units.length then
    (.internalError, handle.clearAst)
  else
    match env.prepareAstState handle.dialectState ast with
    | (.ok, state) =>
      if env.statementCountFits (env.statementCount ast) then { handle with dialectState := state }.flushCommit env ast
      else (.resourceLimit, { handle with dialectState := state }.clearAst)
    | (status, state) => (status, { handle with dialectState := state }.clearAst)

/-- `sqlparser_handle_commit_ast` -/
def commitAst : Status × Handle Ast State :=
  match handle.ast with
  | none => (.invalidArgument, handle)
  | some ast =>
    let handle := { handle with queryGraph := none }
    match env.validateStatements handle.dialectState ast with
    | .ok => handle.prepareCommit env ast
    | status => (status, handle.clearAst)

/-- `sqlparser_handle_commit_ast_with_dialect_state`, where `none` stands for no other state. -/
def commitAstWithDialectState (state : Option State) : Status × Handle Ast State :=
  match state with
  | none => handle.commitAst env
  | some state =>
    match { handle with dialectState := some state }.commitAst env with
    | (.ok, committed) => (.ok, committed)
    | (status, refused) =>
      if handle.patchBatchFlags.inPlace then (status, refused)
      else (status, { refused with dialectState := handle.dialectState })

/-- A change of the tree in place, which comes before its commit. -/
def editAst (ast : Ast) : Handle Ast State :=
  { handle with ast := handle.ast.map fun _ => ast }

/-- `sqlparser_dml_result_commit_state` -/
def commitDmlResultState (state : State) : Status × Handle Ast State :=
  match env.bindAstState (some state) handle.ast with
  | (.ok, bound) =>
    let reconciled := match handle.ast with
      | some ast => env.reconcileAstState bound ast
      | none => bound
    (.ok, { handle with dialectState := reconciled, generation := nextGeneration handle.generation }.invalidateDerived)
  | (status, _) => (status, handle)

/-! ### Certified and rebased commits -/

/-- `sqlparser_handle_commit_certified_insert_wire_count` -/
def commitCertifiedInsertWire (sql wire : Text) (statementCount : Nat) : Status × Handle Ast State :=
  (.ok,
    { handle.releaseContents with
      dialectState := handle.dialectState
      statementCount := statementCount
      generation := nextGeneration handle.generation
      sql := some sql
      parserSql := some sql
      parseTree := some wire
      representation := .legacyWire
      surfaceSourceComplete := true })

/-- `sqlparser_handle_commit_compact_insert` -/
def commitCompactInsert (sql : Text) (edits : List SourceEdit) : Status × Handle Ast State :=
  match handle.sql, handle.parserSql with
  | some oldSql, some oldParserSql =>
    let compact : CompactHandle :=
      { representation := handle.representation
        generation := handle.generation
        compactGeneration := handle.compactGeneration
        compactInsert := handle.compactInsert
        sql := oldSql
        parserSql := oldParserSql
        statementCount := handle.statementCount
        surfaceSourceComplete := handle.surfaceSourceComplete }
    match Core.commitCompactInsert env.malloc compact sql edits with
    | (.ok, committed, _) =>
      (.ok,
        { handle.releaseContents with
          dialectState := handle.dialectState
          representation := committed.representation
          generation := committed.generation
          compactGeneration := committed.compactGeneration
          compactInsert := committed.compactInsert
          sql := some committed.sql
          parserSql := some committed.parserSql
          statementCount := committed.statementCount
          surfaceSourceComplete := committed.surfaceSourceComplete })
    | (status, _, _) => (status, handle)
  | _, _ => (.unsupported, handle)

/-- The handle of `sqlparser_handle_commit_certified_insert_strings` before the tree is serialized. -/
def certifiedStrings (sql : Text) : Handle Ast State :=
  { handle.releaseContents with
    ast := handle.ast
    representation := if handle.representation = .ownedAst then .ownedAst else .legacyAst
    dialectState := handle.dialectState
    statementCount := handle.statementCount
    generation := nextGeneration handle.generation
    sql := some sql
    parserSql := some sql
    surfaceSourceComplete := true
    patchBatchFlags := ⟨false, true, false, true⟩ }

/-- `sqlparser_handle_commit_certified_insert_strings` -/
def commitCertifiedInsertStrings (sql : Text) : Status × Handle Ast State :=
  let certified := handle.certifiedStrings sql
  if handle.representation = .ownedAst then (.ok, { certified with patchBatchFlags := .none })
  else
    match handle.ast.bind env.packCertified with
    | some (.error refusal) => (refusal.val, certified.clearAst)
    | some (.ok wire) => (.ok, { certified with parseTree := some wire, patchBatchFlags := .none }.clearAst)
    | none =>
      match certified.flushAst env with
      | (.ok, flushed) => (.ok, { flushed with patchBatchFlags := .none }.clearAst)
      | (status, flushed) => (status, flushed)

/-- The inputs that `sqlparser_handle_commit_rebased_source` accepts. -/
def rebasedSourceStatus (ast : Ast) (sql parserSql : Text) (independent : Bool) : Status :=
  if handle.representation ≠ .ownedAst ∨ handle.control.isSome ∨ !independent then .invalidArgument
  else if !env.textFits sql ∨ !env.textFits parserSql then .resourceLimit
  else if sql ≠ parserSql ∨ handle.statementCount ≠ env.statementCount ast then .internalError
  else
    match env.validateStatements handle.dialectState ast with
    | .ok => if env.statementCountFits (env.statementCount ast) then .ok else .resourceLimit
    | status => status

/-- `sqlparser_handle_commit_rebased_source`. The inputs are independent if they belong to a PostgreSQL handle
without identifier mutations, and share no buffer with it. -/
def commitRebasedSource (sql parserSql : Text) (state : State) (independent : Bool) : Status × Handle Ast State :=
  match handle.ast with
  | none => (.invalidArgument, handle)
  | some ast =>
    if !handle.hasRepresentation then (.invalidArgument, handle)
    else
      match handle.rebasedSourceStatus env ast sql parserSql independent with
      | .ok =>
        match env.bindAstState (some state) (some ast) with
        | (.ok, bound) =>
          match env.prepareAstState bound ast with
          | (.ok, prepared) =>
            (.ok,
              { handle with
                parseTree := none
                sql := some sql
                parserSql := some sql
                dialectState := env.reconcileAstState prepared ast
                astStateBound := true
                generation := nextGeneration handle.generation
                surfaceSourceComplete := true
                patchBatchFlags := { handle.patchBatchFlags with astDirty := handle.patchBatchFlags.active } }.invalidateDerived)
          | (status, _) => (status, { handle with astStateBound := false })
        | (status, _) => (status, { handle with astStateBound := false })
      | status => (status, handle)

/-- The commit of `sqlparser_oracle_try_commit_multi_insert_strings`, after its checks. -/
def commitMultiInsertStrings (sql : Text) (state : State) : Status × Handle Ast State :=
  (.ok,
    { handle with
      sql := some sql
      dialectState := some state
      surfaceSourceComplete := true
      generation := nextGeneration handle.generation }.invalidateDerived)

/-! ### Other contents -/

/-- The handle that a parse fills. -/
def ofParsed (parsed : Parsed Ast State) : Handle Ast State where
  sql := some parsed.sql
  parserSql := some parsed.parserSql
  statementCount := parsed.statementCount
  generation := 0
  parseTree := parsed.tree.getLeft?
  representation := if parsed.tree.isLeft then .legacyWire else .ownedAst
  compactInsert := none
  compactGeneration := 0
  ast := parsed.tree.getRight?
  astStateBound := false
  dialectState := parsed.dialectState
  control := parsed.control
  queryGraph := none
  bindOccurrences := none
  patchBatchFlags := .none
  surfaceSourceComplete := false
  failed := false

/-- The flags that outlive a replacement of the contents. -/
def keptFlags (flags : PatchBatchFlags) : PatchBatchFlags :=
  { flags with active := flags.active || handle.patchBatchFlags.active, inPlace := flags.inPlace || handle.patchBatchFlags.inPlace }

/-- `sqlparser_handle_reparse_destructive` -/
def reparseDestructive (sql : Text) : Status × Handle Ast State :=
  match env.parse sql with
  | .error refusal => (refusal.val, { handle.releaseContents with generation := nextGeneration handle.generation }.markFailed)
  | .ok parsed =>
    (.ok,
      { ofParsed parsed with
        generation := nextGeneration handle.generation
        patchBatchFlags := handle.keptFlags .none
        surfaceSourceComplete := true
        failed := handle.failed })

/-- `sqlparser_handle_replace_contents` -/
def replaceContents (source : Handle Ast State) : Handle Ast State :=
  { source with patchBatchFlags := handle.keptFlags source.patchBatchFlags, bindOccurrences := none }

/-- `sqlparser_deparse_current`. The tree that it may unpack and give back again is the business of `ensureAst`. -/
def deparseCurrent : Except Status Text × Handle Ast State :=
  if handle.hasRepresentation then
    match handle.flushAst env with
    | (.ok, flushed) =>
      match env.deparse flushed with
      | .error refusal => (.error refusal.val, flushed)
      | .ok sql => (.ok sql, flushed)
    | (status, flushed) => (.error status, flushed)
  else (.error .invalidArgument, handle)

/-- `sqlparser_deparse` -/
def deparse : Except Status Text × Handle Ast State :=
  match handle.deparseCurrent env with
  | (.error status, refused) => (.error status, refused.markFailed)
  | (.ok sql, flushed) => (.ok sql, flushed)

/-- A change of a multi-table INSERT that an active patch leaves to its end. -/
def deferMultiInsert (state : State) : Handle Ast State :=
  { handle with
    dialectState := some state
    generation := nextGeneration handle.generation
    patchBatchFlags := { handle.patchBatchFlags with multiInsertDirty := true }
    surfaceSourceComplete := false }.invalidateDerived

/-- `sqlparser_oracle_multi_insert_replace_cell_sql`, once the cell is in the state. -/
def replaceMultiInsertCell (state : State) : Status × Handle Ast State :=
  if handle.patchBatchFlags.active then (.ok, handle.deferMultiInsert state)
  else
    let edited := { handle with dialectState := some state, generation := nextGeneration handle.generation }.invalidateDerived
    match edited.deparse env with
    | (.error status, failed) => (status, failed)
    | (.ok sql, edited) =>
      if handle.patchBatchFlags.inPlace then edited.reparseDestructive env sql
      else
        match env.parse sql with
        | .error refusal => (refusal.val, edited)
        | .ok parsed => (.ok, edited.replaceContents { ofParsed parsed with generation := edited.generation })

/-- `sqlparser_oracle_multi_insert_insert_column`, once the column is in the state of the handle or of its clone. -/
def insertMultiInsertColumn (state : State) : Status × Handle Ast State :=
  let candidate := { handle with dialectState := some state, generation := nextGeneration handle.generation }
  if handle.patchBatchFlags.active then (.ok, handle.deferMultiInsert state)
  else if handle.patchBatchFlags.inPlace then
    match candidate.invalidateDerived.deparse env with
    | (.error status, failed) => (status, failed)
    | (.ok sql, edited) => edited.reparseDestructive env sql
  else
    -- the candidate is a clone, which fails without the handle
    match (candidate.deparse env).1 with
    | .error status => (status, handle)
    | .ok sql =>
      match env.parse sql with
      | .error refusal => (refusal.val, handle)
      | .ok parsed => (.ok, handle.replaceContents { ofParsed parsed with generation := nextGeneration handle.generation })

end operations

end Handle

end SqlParser.Core
