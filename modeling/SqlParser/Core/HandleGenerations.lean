import SqlParser.Core.HandleRuns

/-! # Generations of a handle

Every operation that succeeds in a change of the text or marks the handle failed gives it a new generation, and so
does every list of operations that does.
-/

namespace SqlParser.Core

open SqlParser.Library.Versions

section generations

variable {Ast State : Type} {env : Environment Ast State} {handle : Handle Ast State}

/-! ## What the operations keep -/

/-- The generation, the text and the failure mark are as before. -/
structure Kept (before after : Handle Ast State) : Prop where
  generation_eq : after.generation = before.generation
  sql_eq : after.sql = before.sql
  failed_eq : after.failed = before.failed

theorem Kept.refl : Kept handle handle := ⟨rfl, rfl, rfl⟩

theorem Kept.trans {first second third : Handle Ast State} (left : Kept first second) (right : Kept second third) :
    Kept first third :=
  ⟨right.1.trans left.1, right.2.trans left.2, right.3.trans left.3⟩

/-- `Kept.trans` for a change that is plain to see. -/
theorem Kept.after {first second third : Handle Ast State} (right : Kept second third) (left : Kept first second) :
    Kept first third :=
  left.trans right

theorem clearAst_kept : Kept handle handle.clearAst := by
  unfold Handle.clearAst
  split <;> exact ⟨rfl, rfl, rfl⟩

theorem discardAstAdapter_kept : Kept handle handle.discardAstAdapter := by
  unfold Handle.discardAstAdapter
  split
  · exact clearAst_kept
  · exact Kept.refl

theorem editAst_kept (ast : Ast) : Kept handle (handle.editAst ast) := ⟨rfl, rfl, rfl⟩

theorem flushAst_kept : Kept handle (handle.flushAst env).2 := by
  unfold Handle.flushAst
  split
  · exact Kept.refl
  · dsimp only
    split
    · exact Kept.refl
    · split
      · exact ⟨rfl, rfl, rfl⟩
      · split
        · exact clearAst_kept
        · refine clearAst_kept.after ?_
          split <;> exact ⟨rfl, rfl, rfl⟩
        · exact ⟨rfl, rfl, rfl⟩

theorem promoteCompact_kept : Kept handle (handle.promoteCompact env).2 := by
  unfold Handle.promoteCompact
  split
  · exact Kept.refl
  · split
    · exact Kept.refl
    · split
      · exact Kept.refl
      · split <;> exact ⟨rfl, rfl, rfl⟩

theorem bindAst_kept (ast : Ast) : Kept handle (handle.bindAst env ast).2 := by
  unfold Handle.bindAst
  dsimp only
  split
  · exact ⟨rfl, rfl, rfl⟩
  · split
    · exact ⟨rfl, rfl, rfl⟩
    · exact discardAstAdapter_kept.after ⟨rfl, rfl, rfl⟩

theorem ensureAst_kept : Kept handle (handle.ensureAst env).2 := by
  unfold Handle.ensureAst
  split
  · exact Kept.refl
  · have promoted := @promoteCompact_kept Ast State env handle
    split
    next next found =>
      rw [found] at promoted
      split
      · split
        · exact promoted
        · exact promoted.trans (bindAst_kept _)
      · split
        · exact promoted
        · exact promoted.trans ((bindAst_kept _).after ⟨rfl, rfl, rfl⟩)
    next status next _ found =>
      rw [found] at promoted
      exact promoted

/-! ## Commits -/

/-- A commit is refused and keeps what a view is recorded over, or it leads to the next generation. -/
def Committed (before : Handle Ast State) (result : Status × Handle Ast State) : Prop :=
  (result.1 ≠ .ok ∧ Kept before result.2) ∨
    (result.2.generation = nextGeneration before.generation ∧ result.2.failed = before.failed)

theorem Committed.of_kept {before middle : Handle Ast State} {result : Status × Handle Ast State}
    (committed : Committed middle result)
    (kept : Kept before middle) : Committed before result := by
  rcases committed with ⟨refused, rest⟩ | ⟨generation, failed⟩
  · exact .inl ⟨refused, kept.trans rest⟩
  · exact .inr ⟨by rw [generation, kept.generation_eq], failed.trans kept.failed_eq⟩

theorem flushCommit_committed (ast : Ast) : Committed handle (handle.flushCommit env ast) := by
  unfold Handle.flushCommit
  dsimp only
  have flushed : Kept handle (if handle.patchBatchFlags.active then
      (.ok, { handle with patchBatchFlags := { handle.patchBatchFlags with astDirty := true } })
    else { handle with patchBatchFlags := { handle.patchBatchFlags with astDirty := true } }.flushAst env :
      Status × Handle Ast State).2 := by
    split
    · exact ⟨rfl, rfl, rfl⟩
    · exact flushAst_kept.after ⟨rfl, rfl, rfl⟩
  split
  next next found =>
    rw [found] at flushed
    exact .inr ⟨congrArg nextGeneration flushed.generation_eq, flushed.failed_eq⟩
  next status next refused found =>
    rw [found] at flushed
    exact .inl ⟨refused, flushed⟩

theorem prepareCommit_committed (ast : Ast) : Committed handle (handle.prepareCommit env ast) := by
  unfold Handle.prepareCommit
  split
  · exact .inl ⟨nofun, clearAst_kept⟩
  · split
    · split
      · exact (flushCommit_committed ast).of_kept ⟨rfl, rfl, rfl⟩
      · exact .inl ⟨nofun, clearAst_kept.after ⟨rfl, rfl, rfl⟩⟩
    next status state refused found =>
      exact .inl ⟨refused, clearAst_kept.after ⟨rfl, rfl, rfl⟩⟩

theorem commitAst_committed : Committed handle (handle.commitAst env) := by
  unfold Handle.commitAst
  split
  · exact .inl ⟨nofun, Kept.refl⟩
  · dsimp only
    split
    · exact (prepareCommit_committed _).of_kept ⟨rfl, rfl, rfl⟩
    next refused =>
      exact .inl ⟨refused, clearAst_kept.after ⟨rfl, rfl, rfl⟩⟩

theorem commitAstWithDialectState_committed (state : Option State) :
    Committed handle (handle.commitAstWithDialectState env state) := by
  unfold Handle.commitAstWithDialectState
  split
  · exact commitAst_committed
  next state =>
    have committed := @commitAst_committed Ast State env { handle with dialectState := some state }
    split
    next next found =>
      rw [found] at committed
      exact committed.of_kept ⟨rfl, rfl, rfl⟩
    next status next refused found =>
      rw [found] at committed
      rcases committed with ⟨failed, kept⟩ | ⟨generation, failed⟩
      · split
        · exact .inl ⟨failed, kept.after ⟨rfl, rfl, rfl⟩⟩
        · exact .inl ⟨failed, Kept.trans (kept.after ⟨rfl, rfl, rfl⟩) ⟨rfl, rfl, rfl⟩⟩
      · split
        · exact .inr ⟨generation, failed⟩
        · exact .inr ⟨generation, failed⟩

theorem commitDmlResultState_committed (state : State) : Committed handle (handle.commitDmlResultState env state) := by
  unfold Handle.commitDmlResultState
  split
  · exact .inr ⟨rfl, rfl⟩
  next status bound refused found => exact .inl ⟨refused, Kept.refl⟩

theorem compactInsertApplyEdits_error_ne_ok (malloc : Nat → Bool) (old : CompactScalarInsert) (sql : Text) (length : Nat)
    (edits : List SourceEdit) : compactInsertApplyEdits malloc old sql length edits ≠ .error .ok := by
  unfold compactInsertApplyEdits
  split
  · nofun
  · split
    · nofun
    · split
      · split <;> nofun
      · nofun

theorem commitCompactInsert_generation {malloc : Nat → Bool} {compact next : CompactHandle} {sql : Text}
    {edits : List SourceEdit}
    {rest : Option Text} (committed : commitCompactInsert malloc compact sql edits = (.ok, next, rest)) :
    next.generation = nextGeneration compact.generation := by
  unfold commitCompactInsert at committed
  split at committed
  · cases committed
  · split at committed
    next status refused =>
      -- the edits are never refused with a success
      obtain ⟨isOk, -⟩ := Prod.mk.inj committed
      rw [isOk] at refused
      exact absurd refused (compactInsertApplyEdits_error_ne_ok _ _ _ _ _)
    · cases committed
      rfl

theorem commitCompactInsert_committed (sql : Text) (edits : List SourceEdit) :
    Committed handle (handle.commitCompactInsert env sql edits) := by
  unfold Handle.commitCompactInsert
  split
  · dsimp only
    split
    next committed _ found => exact .inr ⟨commitCompactInsert_generation found, rfl⟩
    next status _ _ refused found => exact .inl ⟨refused, Kept.refl⟩
  · exact .inl ⟨nofun, Kept.refl⟩

theorem commitCertifiedInsertStrings_committed (sql : Text) :
    Committed handle (handle.commitCertifiedInsertStrings env sql) := by
  unfold Handle.commitCertifiedInsertStrings
  have cleared : ∀ next : Handle Ast State, Kept (handle.certifiedStrings sql) next →
      next.clearAst.generation = nextGeneration handle.generation ∧ next.clearAst.failed = handle.failed := fun next kept =>
    ⟨clearAst_kept.generation_eq.trans kept.generation_eq, clearAst_kept.failed_eq.trans kept.failed_eq⟩
  dsimp only
  split
  · exact .inr ⟨rfl, rfl⟩
  · split
    · exact .inr (cleared _ Kept.refl)
    · exact .inr (cleared _ ⟨rfl, rfl, rfl⟩)
    · have flushed := @flushAst_kept Ast State env (handle.certifiedStrings sql)
      split
      next next found =>
        rw [found] at flushed
        exact .inr (cleared _ (flushed.trans ⟨rfl, rfl, rfl⟩))
      next status next refused found =>
        rw [found] at flushed
        exact .inr ⟨flushed.generation_eq, flushed.failed_eq⟩

theorem commitRebasedSource_committed (sql parserSql : Text) (state : State) (independent : Bool) :
    Committed handle (handle.commitRebasedSource env sql parserSql state independent) := by
  unfold Handle.commitRebasedSource
  split
  · exact .inl ⟨nofun, Kept.refl⟩
  · split
    · exact .inl ⟨nofun, Kept.refl⟩
    · split
      · split
        · split
          · exact .inr ⟨rfl, rfl⟩
          next status prepared refused found => exact .inl ⟨refused, ⟨rfl, rfl, rfl⟩⟩
        next status bound refused found => exact .inl ⟨refused, ⟨rfl, rfl, rfl⟩⟩
      next refused => exact .inl ⟨refused, Kept.refl⟩

/-! ## Operations -/

/-- What is left of a handle that is marked failed. -/
structure Handle.Released (handle : Handle Ast State) : Prop where
  sql_eq : handle.sql = none
  statementCount_eq : handle.statementCount = 0
  parseTree_eq : handle.parseTree = none
  compactInsert_eq : handle.compactInsert = none
  ast_eq : handle.ast = none
  control_eq : handle.control = none
  queryGraph_eq : handle.queryGraph = none
  bindOccurrences_eq : handle.bindOccurrences = none
  astDirty_eq : handle.patchBatchFlags.astDirty = false

theorem markFailed_eq (live : handle.failed = false) :
    handle.markFailed = { handle.releaseContents with generation := nextGeneration handle.generation, failed := true } := by
  rw [Handle.markFailed, live]
  rfl

theorem markFailed_of_failed (failed : handle.failed = true) : handle.markFailed = handle := by
  rw [Handle.markFailed, if_pos failed]

/-- The values of the 64 bits of a generation. -/
def generations : Nat := 2 ^ 64

/-- What the operations inside a list of patches must not change under a recorded generation. -/
def Handle.source (handle : Handle Ast State) : Option Text × Bool := (handle.sql, handle.failed)

/-- The counter moves over some steps, and over one at least if the text changes, the handle is marked failed
or an operation that commits succeeds. -/
structure Outcome (bound : Nat) (commits : Bool) (before : Handle Ast State) (result : Status × Handle Ast State) : Prop where
  advances : ∃ count ≤ bound, Advances Handle.generation Handle.source generations count before result.2 ∧
    (commits = true → result.1 = .ok → 0 < count)
  failure : result.2.failed = true → result.1 ≠ .ok ∧ result.2.Released

theorem Kept.advances {before after : Handle Ast State} (kept : Kept before after)
    (bounded : before.generation < generations) :
    Advances Handle.generation Handle.source generations 0 before after :=
  Advances.same bounded kept.generation_eq (by rw [Handle.source, kept.sql_eq, kept.failed_eq, Handle.source])

theorem Advances.of_next {before after : Handle Ast State} (generation :
    after.generation = nextGeneration before.generation) :
    Advances Handle.generation Handle.source generations 1 before after :=
  @Advances.once _ _ Handle.generation Handle.source generations before after 0 generation

section live

variable (live : handle.failed = false) (bounded : handle.generation < generations)

include live bounded

theorem Kept.outcome {result : Status × Handle Ast State} {commits : Bool} (kept : Kept handle result.2)
    (refused : commits = true → result.1 ≠ .ok) : Outcome 0 commits handle result where
  advances := ⟨0, Nat.le_refl _, kept.advances bounded, fun committing ok => absurd ok (refused committing)⟩
  failure failed := by
    rw [kept.failed_eq, live] at failed
    cases failed

omit bounded in
theorem outcome_next {result : Status × Handle Ast State} {commits : Bool}
    (generation : result.2.generation = nextGeneration handle.generation) (failed_eq : result.2.failed = handle.failed) :
    Outcome 1 commits handle result where
  advances := ⟨1, Nat.le_refl _, Advances.of_next generation, fun _ _ => Nat.one_pos⟩
  failure failed := by
    rw [failed_eq, live] at failed
    cases failed

theorem Committed.outcome {result : Status × Handle Ast State} {commits : Bool} (committed : Committed handle result) :
    Outcome 1 commits handle result := by
  rcases committed with ⟨refused, kept⟩ | ⟨generation, failed⟩
  · have outcome : Outcome 0 commits handle result := kept.outcome live bounded fun _ => refused
    obtain ⟨count, few, advances, positive⟩ := outcome.advances
    exact ⟨⟨count, by omega, advances, positive⟩, outcome.failure⟩
  · exact outcome_next live generation failed

omit bounded in
theorem markFailed_outcome {status : Status} {commits : Bool} (refused : status ≠ .ok) :
    Outcome 1 commits handle (status, handle.markFailed) where
  advances := by
    rw [markFailed_eq live]
    exact ⟨1, Nat.le_refl _, Advances.of_next rfl, fun _ _ => Nat.one_pos⟩
  failure _ := by
    rw [markFailed_eq live]
    exact ⟨refused, rfl, rfl, rfl, rfl, rfl, rfl, rfl, rfl, rfl⟩

end live

theorem Outcome.mono {bound more : Nat} {commits : Bool} {result : Status × Handle Ast State}
    (outcome : Outcome bound commits handle result) (fits : bound ≤ more) : Outcome more commits handle result where
  advances := by
    obtain ⟨count, few, advances⟩ := outcome.advances
    exact ⟨count, few.trans fits, advances⟩
  failure := outcome.failure

/-- An operation on a handle that already has a new generation. -/
theorem Outcome.of_next {middle : Handle Ast State} {bound : Nat} {commits : Bool} {result : Status × Handle Ast State}
    (outcome : Outcome bound false middle result) (generation : middle.generation = nextGeneration handle.generation) :
    Outcome (1 + bound) commits handle result where
  advances := by
    obtain ⟨count, few, advances, -⟩ := outcome.advances
    exact ⟨1 + count, by omega, (Advances.of_next generation).trans advances, fun _ _ => by omega⟩
  failure := outcome.failure

theorem Outcome.of_kept {middle : Handle Ast State} {bound : Nat} {commits : Bool} {result : Status × Handle Ast State}
    (outcome : Outcome bound commits middle result) (kept : Kept handle middle) (bounded : handle.generation < generations) :
    Outcome bound commits handle result where
  advances := by
    obtain ⟨count, few, advances, positive⟩ := outcome.advances
    have whole := (kept.advances bounded).trans advances
    rw [Nat.zero_add] at whole
    exact ⟨count, few, whole, positive⟩
  failure := outcome.failure

theorem nextGeneration_lt (generation : Nat) : nextGeneration generation < generations :=
  Nat.mod_lt _ (by decide)

section live

variable (live : handle.failed = false) (bounded : handle.generation < generations)

include live

theorem reparseDestructive_outcome {commits : Bool} (sql : Text) :
    Outcome 2 commits handle (handle.reparseDestructive env sql) := by
  unfold Handle.reparseDestructive
  split
  next refusal found =>
    exact (@markFailed_outcome Ast State
      { handle.releaseContents with generation := nextGeneration handle.generation } live refusal.val false
        refusal.property).of_next rfl
  · exact (outcome_next live rfl rfl).mono (by omega)

omit live in
theorem deparseCurrent_kept : Kept handle (handle.deparseCurrent env).2 := by
  have flushed := @flushAst_kept Ast State env handle
  unfold Handle.deparseCurrent
  split
  · split
    next next found =>
      rw [found] at flushed
      split <;> exact flushed
    next status next _ found =>
      rw [found] at flushed
      exact flushed
  · exact Kept.refl

omit live in
theorem deparseCurrent_ne_ok : (handle.deparseCurrent env).1 ≠ .error .ok := by
  unfold Handle.deparseCurrent
  split
  · split
    · split
      next refusal found => exact fun same => refusal.property (Except.error.inj same)
      · nofun
    next status next refused found => exact fun same => refused (Except.error.inj same)
  · nofun

omit live in
theorem deparse_ok {sql : Text} {flushed : Handle Ast State} (rendered : handle.deparse env = (.ok sql, flushed)) :
    Kept handle flushed := by
  have kept := @deparseCurrent_kept Ast State env handle
  unfold Handle.deparse at rendered
  split at rendered
  · cases rendered
  next value next found =>
    cases rendered
    rw [found] at kept
    exact kept

omit live in
theorem deparse_ne_ok : (handle.deparse env).1 ≠ .error .ok := by
  have isRefused := @deparseCurrent_ne_ok Ast State env handle
  unfold Handle.deparse
  split
  next value next found =>
    rw [found] at isRefused
    exact isRefused
  · nofun

/-- A handle that cannot be rendered is marked failed. -/
theorem deparse_error {status : Status} {refused : Handle Ast State} {commits : Bool}
    (bounded : handle.generation < generations)
    (failed : handle.deparse env = (.error status, refused)) : Outcome 1 commits handle (status, refused) := by
  have kept := @deparseCurrent_kept Ast State env handle
  have isRefused := @deparseCurrent_ne_ok Ast State env handle
  unfold Handle.deparse at failed
  split at failed
  next value next found =>
    cases failed
    rw [found] at kept isRefused
    have stillLive : next.failed = false := kept.failed_eq.trans live
    exact (markFailed_outcome stillLive fun ok => isRefused (by rw [ok])).of_kept kept bounded
  · cases failed

include bounded

theorem replaceMultiInsertCell_outcome (state : State) : Outcome 3 true handle (handle.replaceMultiInsertCell env state) := by
  unfold Handle.replaceMultiInsertCell
  split
  · exact (outcome_next live rfl rfl).mono (by omega)
  · dsimp only
    split
    next status failed found =>
      exact ((deparse_error (by exact live) (by exact nextGeneration_lt _) found).of_next rfl).mono (by omega)
    next sql edited found =>
      have kept := deparse_ok found
      have editedLive : edited.failed = false := kept.failed_eq.trans live
      split
      · exact ((reparseDestructive_outcome editedLive sql).of_kept kept (nextGeneration_lt _)).of_next rfl
      · split
        next refusal refused =>
          exact outcome_next live kept.generation_eq kept.failed_eq |>.mono (by omega)
        · exact (outcome_next live kept.generation_eq live.symm).mono (by omega)

theorem insertMultiInsertColumn_outcome (state : State) : Outcome 3 true handle
    (handle.insertMultiInsertColumn env state) := by
  unfold Handle.insertMultiInsertColumn
  dsimp only
  split
  · exact (outcome_next live rfl rfl).mono (by omega)
  · split
    · split
      next status failed found =>
        exact ((deparse_error (by exact live) (by exact nextGeneration_lt _) found).of_next rfl).mono (by omega)
      next sql edited found =>
        have kept := deparse_ok found
        have editedLive : edited.failed = false := kept.failed_eq.trans live
        exact ((reparseDestructive_outcome editedLive sql).of_kept kept (nextGeneration_lt _)).of_next rfl
    · split
      next status failed =>
        have refused : status ≠ .ok := fun ok => deparse_ne_ok (by rw [failed, ok])
        exact (Kept.refl.outcome live bounded fun _ => refused).mono (by omega)
      · split
        next refusal refused => exact (Kept.refl.outcome live bounded fun _ => refusal.property).mono (by omega)
        · exact (outcome_next live rfl live.symm).mono (by omega)

theorem Kept.reads {result : Status × Handle Ast State} (kept : Kept handle result.2) : Outcome 3 false handle result := by
  have outcome : Outcome 0 false handle result := kept.outcome live bounded nofun
  exact outcome.mono (Nat.zero_le 3)

/-- What every operation inside a list of patches does to the generation. -/
theorem Operation.outcome (operation : Operation Ast State) :
    Outcome 3 operation.commits handle (operation.apply env handle) := by
  cases operation with
  | ensureAst => exact Kept.reads live bounded ensureAst_kept
  | discardAstAdapter => exact Kept.reads live bounded discardAstAdapter_kept
  | flushAst => exact Kept.reads live bounded flushAst_kept
  | setActive active => exact Kept.reads live bounded ⟨rfl, rfl, rfl⟩
  | edit ast state status => exact Kept.reads live bounded ⟨rfl, rfl, rfl⟩
  | commitAst ast state =>
    exact (((commitAstWithDialectState_committed state).of_kept (editAst_kept ast)).outcome live bounded).mono (by omega)
  | commitDmlResultState state => exact ((commitDmlResultState_committed state).outcome live bounded).mono (by omega)
  | commitCertifiedInsertWire sql wire statementCount => exact (outcome_next live rfl rfl).mono (by omega)
  | commitCompactInsert sql edits => exact ((commitCompactInsert_committed sql edits).outcome live bounded).mono (by omega)
  | commitCertifiedInsertStrings ast sql =>
    exact (((commitCertifiedInsertStrings_committed sql).of_kept (editAst_kept ast)).outcome live bounded).mono (by omega)
  | commitRebasedSource ast sql parserSql state independent =>
    exact (((commitRebasedSource_committed sql parserSql state independent).of_kept (editAst_kept ast)).outcome live
      bounded).mono (by omega)
  | commitMultiInsertStrings sql state => exact (outcome_next live rfl rfl).mono (by omega)
  | reparseDestructive sql => exact (reparseDestructive_outcome live sql).mono (by omega)
  | replaceMultiInsertCell state => exact replaceMultiInsertCell_outcome live bounded state
  | insertMultiInsertColumn state => exact insertMultiInsertColumn_outcome live bounded state
  | deparse =>
    rw [Operation.apply]
    split
    next sql flushed rendered => exact Kept.reads live bounded (deparse_ok rendered)
    next status refused failed => exact (deparse_error live bounded failed).mono (by omega)

end live

/-! ## Lists of patches -/

theorem Outcome.live {bound : Nat} {commits : Bool} {next : Handle Ast State}
    (outcome : Outcome bound commits handle (.ok, next)) :
    next.failed = false := by
  cases isFailed : next.failed with
  | false => rfl
  | true => exact absurd rfl (outcome.failure isFailed).1

theorem Outcome.bounded {bound : Nat} {commits : Bool} {result : Status × Handle Ast State}
    (outcome : Outcome bound commits handle result) :
    result.2.generation < generations := by
  obtain ⟨count, -, advances, -⟩ := outcome.advances
  exact advances.bounded (by decide)

theorem Outcome.andThen {bound more : Nat} {commits : Bool} {middle : Handle Ast State} {status : Status}
    {result : Status × Handle Ast State} (outcome : Outcome bound commits handle (status, middle))
    (rest : Outcome more false middle result) :
    Outcome (bound + more) false handle result where
  advances := by
    obtain ⟨count, few, advances, -⟩ := outcome.advances
    obtain ⟨others, fewOthers, advancesRest, -⟩ := rest.advances
    exact ⟨count + others, by omega, advances.trans advancesRest, nofun⟩
  failure := rest.failure

theorem applySteps_outcome {start : Handle Ast State} (live : start.failed = false) (bounded : start.generation < generations)
    (steps : List (PatchStep Ast State)) : Outcome (3 * steps.length) false start (applySteps env start steps) := by
  induction steps generalizing start with
  | nil => exact Kept.refl.outcome live bounded nofun
  | cons step steps inductionHypothesis =>
    have first := @Operation.outcome Ast State env start live bounded step.operation
    rw [applySteps, List.length_cons, Nat.mul_succ, Nat.add_comm]
    split
    next next found =>
      rw [found] at first
      exact first.andThen (inductionHypothesis first.live first.bounded)
    next status next refused found =>
      rw [found] at first
      split
      next goesOn =>
        have nextLive : next.failed = false := by
          rw [Bool.and_eq_true, Bool.not_eq_true'] at goesOn
          exact goesOn.2
        exact first.andThen (inductionHypothesis nextLive first.bounded)
      · obtain ⟨count, few, advances, -⟩ := first.advances
        exact ⟨⟨count, by omega, advances, nofun⟩, first.failure⟩

theorem Materialization.outcome {start : Handle Ast State} (live : start.failed = false)
    (bounded : start.generation < generations)
    (materialization : Materialization Ast State) : Outcome 3 true start (materialization.apply env start) := by
  cases materialization with
  | multiInsertStrings sql state => exact (outcome_next live rfl rfl).mono (by omega)
  | rebasedSource ast sql parserSql state =>
    exact (((commitRebasedSource_committed sql parserSql state true).of_kept (editAst_kept ast)).outcome live
      bounded).mono (by omega)
  | surface sql => exact (reparseDestructive_outcome live sql).mono (by omega)
  | current =>
    rw [Materialization.apply]
    split
    next sql flushed rendered =>
      have kept := deparse_ok rendered
      have flushedLive : flushed.failed = false := kept.failed_eq.trans live
      exact ((reparseDestructive_outcome flushedLive sql).of_kept kept bounded).mono (by omega)
    next status refused failed => exact (deparse_error live bounded failed).mono (by omega)

theorem materializeAll_outcome {start : Handle Ast State} (live : start.failed = false)
    (bounded : start.generation < generations)
    (materializations : List (Materialization Ast State)) :
    Outcome (3 * materializations.length) false start (materializeAll env start materializations) := by
  induction materializations generalizing start with
  | nil => exact Kept.refl.outcome live bounded nofun
  | cons materialization rest inductionHypothesis =>
    have first := @Materialization.outcome Ast State env start live bounded materialization
    rw [materializeAll, List.length_cons, Nat.mul_succ, Nat.add_comm]
    split
    next next found =>
      rw [found] at first
      exact first.andThen (inductionHypothesis first.live first.bounded)
    next status next refused found =>
      rw [found] at first
      obtain ⟨count, few, advances, -⟩ := first.advances
      exact ⟨⟨count, by omega, advances, nofun⟩, first.failure⟩

theorem Outcome.closed {bound : Nat} {status : Status} {next : Handle Ast State}
    (outcome : Outcome bound false handle (status, next)) :
    Outcome bound false handle (status, { next with patchBatchFlags := { next.patchBatchFlags with active := false } }) := by
  obtain ⟨count, few, advances, -⟩ := outcome.advances
  refine ⟨⟨count, few, ⟨advances.version_eq, advances.contents_eq⟩, nofun⟩, fun failed => ⟨(outcome.failure failed).1, ?_⟩⟩
  have released := (outcome.failure failed).2
  exact ⟨released.1, released.2, released.3, released.4, released.5, released.6, released.7, released.8, released.9⟩

theorem flushSteps_outcome {start : Handle Ast State} (live : start.failed = false) (bounded : start.generation < generations)
    (steps : List (PatchStep Ast State)) : Outcome (3 * steps.length) false start (flushSteps env start steps) := by
  have applied := @applySteps_outcome Ast State env start live bounded steps
  unfold flushSteps
  split
  next next found =>
    rw [found] at applied
    have flushed : Outcome 0 false next (next.flushAst env) := flushAst_kept.outcome applied.live applied.bounded nofun
    exact applied.andThen flushed
  next status next _ found =>
    rw [found] at applied
    exact applied

theorem applyBatch_outcome (live : handle.failed = false) (bounded : handle.generation < generations)
    (patches : Patches Ast State) :
    Outcome (3 * (patches.steps.length + patches.materializations.length)) false handle (applyBatch env handle patches) := by
  have opened : Kept handle { handle with patchBatchFlags := ⟨true, false, false, true⟩, surfaceSourceComplete := false } :=
    ⟨rfl, rfl, rfl⟩
  have flushed := (@flushSteps_outcome Ast State env _ (opened.failed_eq.trans live) bounded patches.steps).of_kept
    opened bounded
  unfold applyBatch
  dsimp only
  rcases applied : flushSteps env
    { handle with patchBatchFlags := ⟨true, false, false, true⟩, surfaceSourceComplete := false } patches.steps
    with ⟨status, next⟩
  rw [applied] at flushed
  have closed : Outcome (3 * patches.steps.length) false handle
      (status, { next with patchBatchFlags := { next.patchBatchFlags with active := false } }) := flushed.closed
  dsimp only
  split
  · exact closed.mono (by omega)
  next isOk =>
    rw [not_not] at isOk
    subst isOk
    split
    next refused =>
      obtain ⟨count, few, advances, -⟩ := closed.advances
      refine ⟨⟨count, by omega, advances, nofun⟩, fun failed => ⟨refused, (closed.failure failed).2⟩⟩
    · have rest := @materializeAll_outcome Ast State env _ closed.live closed.bounded patches.materializations
      exact (closed.andThen rest).mono (by omega)

end generations

end SqlParser.Core
