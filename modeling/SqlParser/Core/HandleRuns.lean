import SqlParser.Core.HandleOperations
import SqlParser.Library.Versions

/-! # Runs of calls on a handle

A caller changes a handle through `sqlparser_apply_patch` alone, which puts the operations of a list of patches
between its own checks, and marks the handle failed when one of them ends the list. Between the patches the caller
records views of the handle and reads through them.
-/

namespace SqlParser.Core

open SqlParser.Library.Versions

/-! ## Patches -/

/-- What the patches of a list do to a handle, one after the other. -/
inductive Operation (Ast State : Type) where
  | ensureAst
  | discardAstAdapter
  | flushAst
  | setActive (active : Bool)
  /-- A change in place that is not followed by a commit. -/
  | edit (ast : Option Ast) (state : Option State) (status : Status)
  | commitAst (ast : Ast) (state : Option State)
  | commitDmlResultState (state : State)
  | commitCertifiedInsertWire (sql wire : Text) (statementCount : Nat)
  | commitCompactInsert (sql : Text) (edits : List SourceEdit)
  | commitCertifiedInsertStrings (ast : Ast) (sql : Text)
  | commitRebasedSource (ast : Ast) (sql parserSql : Text) (state : State) (independent : Bool)
  | commitMultiInsertStrings (sql : Text) (state : State)
  | reparseDestructive (sql : Text)
  | replaceMultiInsertCell (state : State)
  | insertMultiInsertColumn (state : State)
  | deparse

section patches

variable {Ast State : Type} (env : Environment Ast State)

def Handle.edit (handle : Handle Ast State) (ast : Option Ast) (state : Option State) : Handle Ast State :=
  { handle with
    ast := handle.ast.map fun old => ast.getD old
    dialectState := state <|> handle.dialectState }

def Operation.apply (handle : Handle Ast State) : Operation Ast State → Status × Handle Ast State
  | .ensureAst => handle.ensureAst env
  | .discardAstAdapter => (.ok, handle.discardAstAdapter)
  | .flushAst => handle.flushAst env
  | .setActive active => (.ok, { handle with patchBatchFlags := { handle.patchBatchFlags with active := active } })
  | .edit ast state status => (status, handle.edit ast state)
  | .commitAst ast state => (handle.editAst ast).commitAstWithDialectState env state
  | .commitDmlResultState state => handle.commitDmlResultState env state
  | .commitCertifiedInsertWire sql wire statementCount => handle.commitCertifiedInsertWire sql wire statementCount
  | .commitCompactInsert sql edits => handle.commitCompactInsert env sql edits
  | .commitCertifiedInsertStrings ast sql => (handle.editAst ast).commitCertifiedInsertStrings env sql
  | .commitRebasedSource ast sql parserSql state independent =>
    (handle.editAst ast).commitRebasedSource env sql parserSql state independent
  | .commitMultiInsertStrings sql state => handle.commitMultiInsertStrings sql state
  | .reparseDestructive sql => handle.reparseDestructive env sql
  | .replaceMultiInsertCell state => handle.replaceMultiInsertCell env state
  | .insertMultiInsertColumn state => handle.insertMultiInsertColumn env state
  | .deparse =>
    match handle.deparse env with
    | (.ok _, flushed) => (.ok, flushed)
    | (.error status, refused) => (status, refused)

/-- The operations that end with a new generation when they succeed. -/
def Operation.commits : Operation Ast State → Bool
  | .ensureAst | .discardAstAdapter | .flushAst | .setActive _ | .edit _ _ _ | .deparse => false
  | _ => true

/-- An operation of a list, and whether the patch has another way when the operation is refused. -/
structure PatchStep (Ast State : Type) where
  operation : Operation Ast State
  hasFallback : Bool

/-- The operations up to the first one that ends the list. -/
def applySteps : Handle Ast State → List (PatchStep Ast State) → Status × Handle Ast State
  | handle, [] => (.ok, handle)
  | handle, step :: steps =>
    match step.operation.apply env handle with
    | (.ok, next) => applySteps next steps
    | (status, next) => if step.hasFallback && !next.failed then applySteps next steps else (status, next)

/-- The commits that `sqlparser_apply_patch` tries before anything else. -/
inductive DirectCommit (Ast State : Type) where
  | certifiedInsertWire (sql wire : Text) (statementCount : Nat)
  | compactInsert (sql : Text) (edits : List SourceEdit)
  | certifiedInsertStrings (ast : Ast) (sql : Text)
  | multiInsertStrings (sql : Text) (state : State)
  | reparse (sql : Text)

def DirectCommit.apply (handle : Handle Ast State) : DirectCommit Ast State → Status × Handle Ast State
  | .certifiedInsertWire sql wire statementCount => handle.commitCertifiedInsertWire sql wire statementCount
  | .compactInsert sql edits => handle.commitCompactInsert env sql edits
  | .certifiedInsertStrings ast sql => (handle.editAst ast).commitCertifiedInsertStrings env sql
  | .multiInsertStrings sql state =>
    let (status, committed) := handle.commitMultiInsertStrings sql state
    (status, { committed with generation := nextGeneration handle.generation }.discardAstAdapter)
  | .reparse sql => handle.reparseDestructive env sql

def DirectCommit.isCompact : DirectCommit Ast State → Bool
  | .compactInsert _ _ => true
  | _ => false

/-- The ways of `sqlparser_patch_materialize_current_sql` and `sqlparser_patch_materialize_surface_edits`. -/
inductive Materialization (Ast State : Type) where
  | multiInsertStrings (sql : Text) (state : State)
  | rebasedSource (ast : Ast) (sql parserSql : Text) (state : State)
  | surface (sql : Text)
  | current

def Materialization.apply (handle : Handle Ast State) : Materialization Ast State → Status × Handle Ast State
  | .multiInsertStrings sql state => handle.commitMultiInsertStrings sql state
  | .rebasedSource ast sql parserSql state => (handle.editAst ast).commitRebasedSource env sql parserSql state true
  | .surface sql => handle.reparseDestructive env sql
  | .current =>
    match handle.deparse env with
    | (.ok sql, flushed) => flushed.reparseDestructive env sql
    | (.error status, refused) => (status, refused)

def materializeAll : Handle Ast State → List (Materialization Ast State) → Status × Handle Ast State
  | handle, [] => (.ok, handle)
  | handle, materialization :: rest =>
    match materialization.apply env handle with
    | (.ok, next) => materializeAll next rest
    | (status, next) => (status, next)

/-- A list of patches, by what its planning makes of it for the handle it meets. -/
structure Patches (Ast State : Type) where
  valid : Bool
  count : Nat
  direct : Option (DirectCommit Ast State)
  planning : Status
  steps : List (PatchStep Ast State)
  columnShapes : Status
  materializations : List (Materialization Ast State)
  surfaceComplete : Bool

/-- The steps of a batch and the serialization at their end. -/
def flushSteps (handle : Handle Ast State) (steps : List (PatchStep Ast State)) : Status × Handle Ast State :=
  match applySteps env handle steps with
  | (.ok, applied) => applied.flushAst env
  | (status, refused) => (status, refused)

/-- The batch between the flags that open and close it. -/
def applyBatch (handle : Handle Ast State) (patches : Patches Ast State) : Status × Handle Ast State :=
  let opened := { handle with patchBatchFlags := ⟨true, false, false, true⟩, surfaceSourceComplete := false }
  let (status, flushed) := flushSteps env opened patches.steps
  let closed := { flushed with patchBatchFlags := { flushed.patchBatchFlags with active := false } }
  if status ≠ .ok then (status, closed)
  else if patches.columnShapes ≠ .ok then (patches.columnShapes, closed)
  else materializeAll env closed patches.materializations

/-- The end of a batch that has succeeded. -/
def finishBatch (handle : Handle Ast State) (generation : Nat) (surfaceComplete : Bool) : Handle Ast State :=
  { handle with
    surfaceSourceComplete := surfaceComplete || handle.surfaceSourceComplete
    patchBatchFlags := { handle.patchBatchFlags with inPlace := false }
    generation := nextGeneration generation }.invalidateDerived.discardAstAdapter

/-- The general way of `sqlparser_apply_patch`. -/
def applyGeneral (handle : Handle Ast State) (patches : Patches Ast State) : Status × Handle Ast State :=
  if patches.planning ≠ .ok then (patches.planning, handle.markFailed)
  else
    match handle.promoteCompact env with
    | (.ok, promoted) =>
      match applyBatch env promoted patches with
      | (.ok, applied) => (.ok, finishBatch applied handle.generation patches.surfaceComplete)
      | (status, refused) => (status, refused.markFailed)
    | (status, refused) => (status, refused.markFailed)

/-- `sqlparser_apply_patch` -/
def applyPatch (handle : Handle Ast State) (patches : Patches Ast State) : Status × Handle Ast State :=
  if handle.failed || !patches.valid then (.invalidArgument, handle.markFailed)
  else if patches.count = 0 then (.ok, handle)
  else
    match patches.direct with
    | none => applyGeneral env handle patches
    | some direct =>
      match direct.apply env handle with
      | (.ok, committed) => (.ok, committed)
      | (status, refused) =>
        -- a compact INSERT that the edits do not fit is left as it is
        if direct.isCompact && status = .unsupported then applyGeneral env refused patches
        else (status, refused.markFailed)

end patches

/-! ## Views -/

structure BindOccurrenceView where
  generation : Nat
  count : Nat

structure ControlFlowView where
  generation : Nat
  roots : IndexSpan
  nodeCount : Nat
  branchCount : Nat
  itemCount : Nat

structure QueryGraphView where
  generation : Nat
  statementIndex : Nat

section views

variable {Ast State : Type} (env : Environment Ast State) (handle : Handle Ast State)

/-- `sqlparser_handle_bind_occurrences` -/
def handleBindOccurrences : Except Status BindOccurrenceView × Handle Ast State :=
  if !handle.hasRepresentation || handle.sql.isNone then (.error .invalidArgument, handle)
  else
    match handle.bindOccurrences.filter fun cache => cache.generation = handle.generation with
    | some cache => (.ok ⟨handle.generation, cache.count⟩, handle)
    | none =>
      match env.bindCount handle with
      | .error refusal => (.error refusal.val, handle)
      | .ok count => (.ok ⟨handle.generation, count⟩, { handle with bindOccurrences := some ⟨handle.generation, count⟩ })

/-- `sqlparser_bind_occurrence_at`: the place in the cache. -/
def bindOccurrenceAt (view : BindOccurrenceView) (index : Nat) : Option Nat :=
  if view.generation ≠ handle.generation then none
  else
    match handle.bindOccurrences with
    | none => none
    | some cache =>
      if cache.generation ≠ view.generation ∨ view.count ≠ cache.count ∨ index ≥ view.count then none else some index

/-- `sqlparser_handle_control_flow` -/
def handleControlFlow : Option ControlFlowView :=
  if handle.failed then none
  else
    match handle.control with
    | none => some ⟨handle.generation, ⟨0, 0⟩, 0, 0, 0⟩
    | some control =>
      some ⟨handle.generation, control.roots, control.nodes.length, control.branches.length, control.items.length⟩

/-- `sqlparser_control_state_from_view` -/
def controlStateFromView (view : ControlFlowView) : Option ControlState :=
  if view.generation ≠ handle.generation then none
  else
    handle.control.filter fun control =>
      view.roots = control.roots ∧ view.nodeCount = control.nodes.length ∧ view.branchCount = control.branches.length ∧
        view.itemCount = control.items.length

/-- `sqlparser_statement_query_graph` -/
def statementQueryGraph (statementIndex : Nat) : Except Status QueryGraphView × Handle Ast State :=
  if statementIndex ≥ handle.statementCount then (.error .invalidArgument, handle)
  else
    match handle.queryGraph.filter fun cache => cache.generation = handle.generation with
    | some _ => (.ok ⟨handle.generation, statementIndex⟩, handle)
    | none =>
      match env.graphCount handle with
      | .error refusal => (.error refusal.val, { handle with queryGraph := none })
      | .ok count => (.ok ⟨handle.generation, statementIndex⟩, { handle with queryGraph := some ⟨handle.generation, count⟩ })

/-- `sqlparser_query_graph_statement`: the statement's place in the cache. -/
def queryGraphStatement (view : QueryGraphView) : Option Nat :=
  match handle.queryGraph with
  | none => none
  | some cache =>
    if view.generation ≠ handle.generation ∨ cache.generation ≠ view.generation ∨ view.statementIndex ≥ cache.count then none
    else some view.statementIndex

end views

/-! ## Calls -/

/-- What a caller does to a handle. The reads of a handle may unpack its tree and give it back again. -/
inductive Call (Ast State : Type) where
  | ensureAst
  | discardAstAdapter
  | bindOccurrences
  | queryGraph (statementIndex : Nat)
  | deparse
  | patch (patches : Patches Ast State)

section calls

variable {Ast State : Type} (env : Environment Ast State)

def Call.apply (call : Call Ast State) (handle : Handle Ast State) : Handle Ast State :=
  match call with
  | .ensureAst => (handle.ensureAst env).2
  | .discardAstAdapter => handle.discardAstAdapter
  | .bindOccurrences => (handleBindOccurrences env handle).2
  | .queryGraph statementIndex => (statementQueryGraph env handle statementIndex).2
  | .deparse => (handle.deparse env).2
  | .patch patches => (applyPatch env handle patches).2

/-- A bound for the times that a call advances the generation. -/
def Call.cost : Call Ast State → Nat
  | .deparse => 1
  | .patch patches => 3 * (patches.steps.length + patches.materializations.length) + 4
  | _ => 0

/-- The handle after some calls. -/
def runCalls (calls : List (Call Ast State)) (handle : Handle Ast State) : Handle Ast State :=
  run (Call.apply env) calls handle

/-- What a first parse leaves in a handle. -/
inductive FirstParse (Ast State : Type) where
  | parsed (contents : Parsed Ast State)
  | compact (sql : Text) (insert : CompactScalarInsert) (state : Option State)

def FirstParse.handle : FirstParse Ast State → Handle Ast State
  | .parsed contents => .ofParsed contents
  | .compact sql insert state =>
    { sql := some sql
      parserSql := some sql
      statementCount := 1
      generation := 0
      parseTree := none
      representation := .compactInsert
      compactInsert := some insert
      compactGeneration := 0
      ast := none
      astStateBound := false
      dialectState := state
      control := none
      queryGraph := none
      bindOccurrences := none
      patchBatchFlags := .none
      surfaceSourceComplete := false
      failed := false }

/-- The tree that a handle stands for. -/
def Handle.tree (handle : Handle Ast State) : Option Ast :=
  if handle.compactInsert.isSome then handle.parserSql.bind fun parserSql => (env.parseOwned parserSql).toOption
  else handle.ast <|> handle.parseTree.bind env.unpack

end calls

end SqlParser.Core
